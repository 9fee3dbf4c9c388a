import ChipForge.Script.Parser.Statement
import ChipForge.Wiring.Compiler.Program

/-! From the bytes of a script file to the text of a graph file. -/
namespace ChipForge.Wiring
open Script

def decodeText (bytes : ByteArray) : Option String := do
  let text ← String.fromUTF8? bytes
  let cs := match text.toList with
    | '\ufeff'::rest => rest
    | cs => cs
  pure (String.ofList (Text.unifyLines cs))

def isWordChar (c : Char) : Bool := Text.isAlphanumeric c || c == '_'

def undefinedAt? (cs : List Char) : Option String :=
  let lead := "name '".toList
  if lead.isPrefixOf cs then
    let rest := cs.drop lead.length
    let word := rest.takeWhile isWordChar
    if !word.isEmpty && "' is not defined".toList.isPrefixOf (rest.drop word.length) then some (String.ofList word)
    else none
  else none

def undefinedIn? : List Char→Option String
  | [] => none
  | c::rest => (undefinedAt? (c::rest)).orElse fun _ => undefinedIn? rest

def syntaxKind : SyntaxFault→FaultKind
  | .grammar => .grammar
  | .unfinished => .grammar
  | .indentation => .indentation
  | .tabs => .tabs

def syntaxFailure (file : String) (fault : SyntaxFault) : Failure :=
  .fault (syntaxKind fault) ("invalid syntax (" ++ Text.lastPart file "/" ++ ", line 1)")

/-- Runs actions one after another; each ends with the state it leaves behind, whether it failed or not. -/
def runEach : State→List (Compile Unit)→List (Except Issue Unit×State)
  | _, [] => []
  | s, action::rest =>
    let (result,after) := action.run s
    (result,after)::runEach after rest

def statesOf (d : Dialect) (start : State) (stmts : List Script.Stmt) : List (Except Issue Unit×State) :=
  runEach start (stmts.map (compileStmt d)++[resolvePending,listOutputs])

def scriptFailure (file : String) (cause : Failure) : Failure :=
  if cause.isReport then cause
  else
    match undefinedIn? cause.text.toList with
    | some name =>
      .causedBy .script
        ("变量 '" ++ name ++ "' 未定义。在使用变量前，请先通过函数调用或赋值来定义它，例如: " ++ name ++ " = SOME_FUNCTION(...)")
        [("variable",.str name),("file",.str file)] cause
    | none =>
      let lead := if cause.label == FaultKind.wrongKind.label then "DSL 参数错误: " else "DSL 执行错误: "
      .report .script Origin.scriptReader (lead++cause.text) [("file",.str file)] (some cause) true

def graphOfText (outputs : OutputTypes) (file text : String) : Except Failure Graph :=
  match Script.parse text with
  | .error fault => .error (scriptFailure file (syntaxFailure file fault))
  | .ok stmts =>
    match graphOf (Dialect.full outputs) stmts with
    | .error issue => .error (scriptFailure file issue.toFailure)
    | .ok g => .ok g

def buildGraph (outputs : OutputTypes) (file target : String) (bytes : ByteArray) : Except Failure String := do
  match decodeText bytes with
  | none =>
    throw (.causedBy .file "读取 DSL 文件失败" [("file",.str file)] (.fault .undecodable "invalid start byte"))
  | some text =>
    let g ← graphOfText outputs file text
    match g.toJson? with
    | some j => pure (Json.write graphStyle j)
    | none =>
      throw (.causedBy .file "写入 graph JSON 失败" [("file",.str target)]
        (.fault .wrongKind "Object is not JSON serializable"))

end ChipForge.Wiring
