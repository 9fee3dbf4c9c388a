import ChipForge.Save.Positions
import ChipForge.Workshop.Bench

/-! The tool that lays out the graph of a save. -/
namespace ChipForge.Tools
open Workshop

def laidOutPath : String := "ungraph_layouted_ultimate.json"

def loadGraph : Work (Json×Json) := do
  let save ← readJson "ungraph.json"
  pure (save,← Save.graphNodes (fun entry => entry.item "key") save)

def layOut : Work Unit := do
  say "🚀 启动终极布局算法 (独立运行模式)..."
  let (save,nodes) ← tryCatch loadGraph fun f => do
    say ("❌ 错误: 无法在 'ungraph.json' 中读取或找到芯片数据。详情: " ++ f.text)
    stop .null
  say ("✅ 找到 " ++ toString (← nodes.size) ++ " 个节点。")
  let (moved,save) ← edit save (do
    let places ← Layout.arrange (← nodes.each)
    Save.say "5. 使用新坐标更新JSON文件..."
    Save.moveAll (Layout.placesJson places))
  if moved then
    writeJson laidOutPath wideStyle save
    say ("\n🎉 成功！已生成终极布局文件: '" ++ laidOutPath ++ "'")
  else say "❌ 致命错误: 无法在JSON文件中找到 'chip_graph' 以进行更新。"

end ChipForge.Tools
