import ChipForge.Save.Adder
import ChipForge.Tools.Arguments
import ChipForge.Workshop.Bench

/-! The tool that adds a list of modules. -/
namespace ChipForge.Tools
open Workshop

def variableStoreMissing : String := "[错误] 无法导入 src.variable_manager。请确保 src 目录完整。"

def partMissing (file : String) : String := " 无法找到 " ++ file ++ "，请确保它与本脚本位于同一目录。"

def batchLack? (lacking : List Part) : Option String :=
  if lacking.contains .moduleAdder then some (partMissing "add_module.py")
  else if lacking.contains .endAdder then some (partMissing "chip_modifier.py")
  else if lacking.contains .variableTool then some (partMissing "variable.py")
  else if lacking.contains .variableStore then some variableStoreMissing
  else none

def checkBatchParts : Work Unit := do
  match batchLack? (← get).lacking with
  | some text =>
    say text
    stop (.int 1)
  | none => pure ()

def isNumeral (text : String) : Bool := (Decimal.read? text).isSome

def batchFlags : List Flag :=
  [{ spellings := ["-m","--modules"], key := "modules" },{ spellings := ["-d","--data"], key := "data" },
    { spellings := ["--moduledef"], key := "moduledef" },{ spellings := ["-o","--output"], key := "output" },
    { spellings := ["-c","--cutoff"], key := "cutoff", takes := isNumeral }]

def numberOption (a : Arguments) (key : String) (default : Float) : Float :=
  ((a.options.find key).bind Decimal.read?).getD default

def pathOption (a : Arguments) (key default : String) : String := Folder.tidy ((a.options.find key).getD default)

def loadBatch (a : Arguments) : Work (Json×Json×Json) :=
  tryCatch (do
    let requests ← readJson (pathOption a "modules" "modules.json")
    match requests with
    | .arr _ => pure ()
    | _ => throw (.refusal .badValue "modules.json 必须是数组！")
    let save ← readJson (pathOption a "data" "data.json")
    pure (requests,save,← readJson (pathOption a "moduledef" "moduledef.json"))) fun f => do
    match f with
    | .path .missing name => say (" 加载文件失败: 找不到文件 " ++ name)
    | other => say (" 加载文件失败: " ++ other.text)
    stop (.int 1)

def addBatch (args : List String) : Work Unit := do
  checkBatchParts
  let a ← readArguments batchFlags 0 args
  let cutoff := numberOption a "cutoff" 0.4
  let (requests,save,catalogue) ← loadBatch a
  let (created,save) ← edit save (Save.addModules requests catalogue (Text.Similarity.Threshold.ofFloat? cutoff))
  let target := pathOption a "output" "data_modified_batch.json"
  match ← attempt (writeJson target wideStyle.unicode save) with
  | .error f =>
    say (" 保存输出文件失败: " ++ f.text)
    stop (.int 1)
  | .ok _ =>
    say "\n 全部处理完成!"
    say ("   成功添加 " ++ toString created.length ++ " 个模块 → " ++ target)
    let count ← requests.size
    if created.length < count then say ("   ️ 有 " ++ toString (count - created.length) ++ " 个模块未处理。")

end ChipForge.Tools
