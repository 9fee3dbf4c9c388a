import ChipForge.Save.Retype
import ChipForge.Tools.Arguments
import ChipForge.Workshop.Bench

/-! The tool that changes the types of nodes by a list of instructions. -/
namespace ChipForge.Tools
open Workshop

def retypeFlags : List Flag :=
  [{ spellings := ["-d","--data"], key := "data" },{ spellings := ["-i","--instructions"], key := "instructions" },
    { spellings := ["-r","--rules"], key := "rules" },{ spellings := ["-m","--moduledef"], key := "moduledef" },
    { spellings := ["-o","--output"], key := "output" }]

def readTelling (title path : String) : Work Json := do
  say ("正在读取" ++ title ++ ": " ++ path)
  readJson path

def retypeFiles (a : Arguments) : Work Unit := do
  let pathOf (key default : String) : String := (a.options.find key).getD default
  let save ← readTelling "主数据文件" (pathOf "data" "Data.json")
  let instructions ← readTelling "修改指令文件" (pathOf "instructions" "instructions.json")
  let rules ← readTelling "类型规则文件" (pathOf "rules" "data_type_rules.json")
  let modules ← readTelling "模块定义文件" (pathOf "moduledef" "moduledef.json")
  let (_,save) ← edit save (Save.retypeAll instructions rules modules)
  let target := pathOf "output" "Data_modified.json"
  say "\n--- 阶段 4: 保存文件 ---"
  say ("修改完成，正在保存到: " ++ target)
  writeJson target wideStyle.unicode save
  say "文件已成功保存！"

def retypeFailure (f : Failure) : String :=
  match f with
  | .path .missing name => "错误: 找不到文件 " ++ name ++ "。请检查路径是否正确。"
  | .fault .malformedJson what => "错误: 解析JSON文件时出错 - " ++ what ++ "。请检查文件格式是否正确。"
  | other => "处理过程中发生未知错误: " ++ other.text

/-- Changes types; failures are told and the run ends well. -/
def retype (args : List String) : Work Unit := do
  let a ← readArguments retypeFlags 0 args
  tryCatch (retypeFiles a) fun f =>
    match f with
    | .exit status => stop status
    | other => say (retypeFailure other)

end ChipForge.Tools
