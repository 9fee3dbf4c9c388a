import ChipForge.Json.Basic

/-! Failures. Data of an unexpected shape gives a fault, a deliberate refusal carries its own words, and a report names
the part of the tool it comes from with the place it is about. -/
namespace ChipForge

inductive FaultKind
  | missingKey | outOfRange | noMember | wrongKind | badValue | malformedJson | overflow
  | exhausted | grammar | indentation | tabs | undecodable
  | named (label : String)
  deriving DecidableEq, Repr

def FaultKind.label : FaultKind→String
  | .missingKey => "KeyError"
  | .outOfRange => "IndexError"
  | .noMember => "AttributeError"
  | .wrongKind => "TypeError"
  | .badValue => "ValueError"
  | .malformedJson => "JSONDecodeError"
  | .overflow => "OverflowError"
  | .exhausted => "StopIteration"
  | .grammar => "SyntaxError"
  | .indentation => "IndentationError"
  | .tabs => "TabError"
  | .undecodable => "UnicodeDecodeError"
  | .named label => label

inductive PathProblem
  | missing | isFolder | notFolder | exists
  deriving DecidableEq, Repr

def PathProblem.label : PathProblem→String
  | .missing => "FileNotFoundError"
  | .isFolder => "IsADirectoryError"
  | .notFolder => "NotADirectoryError"
  | .exists => "FileExistsError"

def PathProblem.text : PathProblem→String
  | .missing => "[Errno 2] No such file or directory"
  | .isFolder => "[Errno 21] Is a directory"
  | .notFolder => "[Errno 20] Not a directory"
  | .exists => "[Errno 17] File exists"

/-- Parts of the tool that report. -/
inductive Origin
  | scriptReader | compiler | graphBuilder | pipeline | moduleAdder | connector | layoutEngine | archiver
  | typeInference | constantEditor | typeEditor | specialModules | variableStore | matcher | tools | files | unknown
  deriving DecidableEq, Repr

def Origin.title : Origin→String
  | .scriptReader => "DSL解析器"
  | .compiler => "AST转换器"
  | .graphBuilder => "图构建器"
  | .pipeline => "流水线"
  | .moduleAdder => "模块添加器"
  | .connector => "连线器"
  | .layoutEngine => "布局引擎"
  | .archiver => "归档创建器"
  | .typeInference => "类型推断"
  | .constantEditor => "常量修改器"
  | .typeEditor => "数据类型修改器"
  | .specialModules => "特殊模块处理器"
  | .variableStore => "变量处理器"
  | .matcher => "模糊匹配器"
  | .tools => "工具函数"
  | .files => "文件读写"
  | .unknown => "未知模块"

inductive ReportKind
  | general | script | compile | graph | pipeline | moduleAdd | connection | typeInference | file
  deriving DecidableEq, Repr

def ReportKind.label : ReportKind→String
  | .general => "ChipSynthesisError"
  | .script => "DSLError"
  | .compile => "ASTError"
  | .graph => "GraphError"
  | .pipeline => "PipelineError"
  | .moduleAdd => "ModuleAddError"
  | .connection => "ConnectionError"
  | .typeInference => "TypeInferenceError"
  | .file => "FileIOError"

def ReportKind.origin : ReportKind→Origin
  | .general => .unknown
  | .script => .scriptReader
  | .compile => .compiler
  | .graph => .graphBuilder
  | .pipeline => .pipeline
  | .moduleAdd => .moduleAdder
  | .connection => .connector
  | .typeInference => .typeInference
  | .file => .files

/-- What can go wrong. -/
inductive Failure
  /-- Data of an unexpected shape; the text only describes it. -/
  | fault (kind : FaultKind) (text : String)
  /-- A file cannot be read or written. -/
  | path (problem : PathProblem) (name : String)
  /-- A refusal in the tool's own words. -/
  | refusal (kind : FaultKind) (message : String)
  /-- The run ends with a last word or a status. -/
  | exit (status : Json)
  /-- A report. `quotes` tells that the message repeats the text of the cause. -/
  | report (kind : ReportKind) (origin : Origin) (message : String) (context : List (String×Json))
      (cause : Option Failure) (quotes : Bool)

namespace Failure

def reportOf (kind : ReportKind) (message : String) (context : List (String×Json)) : Failure :=
  .report kind kind.origin message context none false

def causedBy (kind : ReportKind) (message : String) (context : List (String×Json)) (cause : Failure) : Failure :=
  .report kind kind.origin message context (some cause) false

def label : Failure→String
  | .fault kind _ => kind.label
  | .path problem _ => problem.label
  | .refusal kind _ => kind.label
  | .exit _ => "SystemExit"
  | .report kind _ _ _ _ _ => kind.label

def placeTitles : List (String×String) :=
  [("node_id","节点"),("node_type","类型"),("line","行号"),("file","文件"),("port","端口"),("variable","变量")]

def places (context : List (String×Json)) : List String :=
  placeTitles.filterMap fun (key,title) => (Json.lookup key context).map fun v => title ++ ": " ++ v.plain

def reportText (origin : Origin) (message : String) (context : List (String×Json)) : String :=
  let found := places context
  let middle := if found.isEmpty then [] else [String.intercalate "(" found ++ ")"]
  String.intercalate " " (["[" ++ origin.title ++ "]"]++middle++[message])

def text : Failure→String
  | .fault _ t => t
  | .path problem name => problem.text ++ ": " ++ Text.quoted name
  | .refusal .missingKey m => Text.quoted m
  | .refusal _ m => m
  | .exit status => status.plain
  | .report _ origin message context _ _ => reportText origin message context

/-- Is the text wholly the tool's own? -/
def ownWords : Failure→Bool
  | .fault _ _ => false
  | .path _ _ => false
  | .refusal _ _ => true
  | .exit _ => true
  | .report _ _ _ _ none _ => true
  | .report _ _ _ _ (some cause) quotes => !quotes || ownWords cause

def cause? : Failure→Option Failure
  | .report _ _ _ _ cause _ => cause
  | _ => none

def isReport : Failure→Bool
  | .report _ _ _ _ _ _ => true
  | _ => false

/-- Titles under which the last word on a failure names what it is about. -/
def summaryTitle? (key : String) : Option String :=
  if key == "stage" then some "阶段"
  else if key == "candidates" then some "可选端口"
  else (placeTitles.find? fun (k,_) => k == key).map (·.2)

def summaryLines : Failure→List String
  | .report _ origin message context cause _ =>
    let items := context.filterMap fun (key,v) => (summaryTitle? key).map fun t => t ++ ": " ++ v.plain
    ["\n❌ [" ++ origin.title ++ "] " ++ message] ++
    (if items.isEmpty then [] else ["   上下文: " ++ String.intercalate " | " items]) ++
    (match cause with
      | some c => ["   原因: " ++ c.label ++ ": " ++ c.text]
      | none => [])
  | f => ["\n❌ 错误: " ++ f.label ++ ": " ++ f.text]

def summary (f : Failure) : String := String.join (f.summaryLines.map (· ++ "\n"))

def ruler : String := String.ofList (List.replicate 60 '=')

def traceHead (f : Failure) : String :=
  let body := match f with
    | .report _ origin message context cause _ =>
      ["错误消息: " ++ message,"来源模块: " ++ origin.title] ++
      (if context.isEmpty then [] else "上下文信息:" :: context.map fun (key,v) => "  - " ++ key ++ ": " ++ v.plain) ++
      (match cause with
        | some c => ["\n原始异常:","  类型: " ++ c.label,"  消息: " ++ c.text]
        | none => [])
    | other => ["错误消息: " ++ other.text]
  String.intercalate "\n" ([ruler,"错误类型: " ++ f.label]++body++["\n调用栈:"])

def trace (f : Failure) : String := f.traceHead ++ "\n" ++ ruler

/-- Puts a failure under a new message. A report hands on its places and its cause. -/
def wrap (f : Failure) (message : String) (origin : Origin) (context : List (String×Json)) : Failure :=
  match f with
  | .report _ _ _ inner cause _ =>
    let merged := context.foldl (fun acc (k,v) => Json.insert k v acc) inner
    .report .general origin message merged (some (cause.getD f)) false
  | _ => .report .general origin message context (some f) false

end Failure

end ChipForge
