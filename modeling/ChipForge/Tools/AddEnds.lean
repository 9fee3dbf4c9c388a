import ChipForge.Save.Ends
import ChipForge.Workshop.Bench

/-! The tool that adds inputs, outputs and constants by plain definitions. -/
namespace ChipForge.Tools
open Workshop

def addEnds : Work Unit :=
  tryCatch (do
    let save ← readJson "Data.json"
    let definitions ← readJson "new_nodes.json"
    say "正在向芯片添加新模块..."
    let (fit,save) ← edit save (Save.addEnds definitions)
    if fit && save.truthy then
      writeJson "output.json" wideStyle save
      say "成功！已生成 'output.json' 文件。"
      say "你可以将 'output.json' 的内容复制或重命名为 .json 文件，然后在People Playground中生成它。") fun f =>
    match f with
    | .path .missing name => say ("错误: 找不到文件 " ++ name ++ "。请确保文件存在于脚本所在的同一目录中。")
    | other => throw other

end ChipForge.Tools
