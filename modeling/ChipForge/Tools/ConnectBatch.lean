import ChipForge.Workshop.Pipeline

/-! The tool that makes a list of connections. -/
namespace ChipForge.Tools
open Workshop

def connectBatch : Work Unit := do
  say "--- 以独立脚本模式运行批量连线 ---"
  let given ← exists? "Data_modified.json"
  let done ← exists? "ungraph.json"
  let source ←
    if !given && done then do
      say "提示：未找到输入文件 'Data_modified.json'，将使用输出文件 'ungraph.json' 作为输入。"
      pure "ungraph.json"
    else pure "Data_modified.json"
  let _ ← connectFiles source "output.json" "ungraph.json"
  pure ()

end ChipForge.Tools
