import ChipForge.Save.Entry
import ChipForge.Save.Node
import ChipForge.Workshop.Bench

/-! The tool that adds one module by the name the save knows it by. -/
namespace ChipForge.Tools
open Workshop

/-- A module that can be asked for: the name that saves use, and its record. -/
structure Offer where
  name : Json
  module : Json

def offersOf : Table Offer→List (String×Json)→Work (Table Offer)
  | offers, [] => pure offers
  | offers, (id,module)::rest => do
    let name ← (← module.fieldOr "source_info" (.obj [])).field "allmod_viewmodel"
    if name.truthy then
      let module ← module.assign "id" (.str id)
      let key ← name.keyText
      offersOf (offers.put key ⟨((offers.find key).map Offer.name).getD name,module⟩) rest
    else
      say ("警告: moduledef.json 中 ID 为 '" ++ id ++ "' 的条目缺少 'allmod_viewmodel'，将无法通过名称添加。")
      offersOf offers rest

def insertName (name : Json) : List Json→Except Failure (List Json)
  | [] => .ok [name]
  | other::rest => do
    if ← Save.isLess name other then pure (name::other::rest) else pure (other::(← insertName name rest))

def sortNames : List Json→List Json→Except Failure (List Json)
  | sorted, [] => .ok sorted
  | sorted, name::rest => do sortNames (← insertName name sorted) rest

def loadSave : Work (Except String (Json×Json)) :=
  tryCatch (do
    let save ← readJson "data.json"
    pure (.ok (save,← readJson "moduledef.json"))) fun f =>
    match f with
    | .path .missing name =>
      pure (.error ("错误: 找不到文件 " ++ name ++ "。请确保 data.json 和 moduledef.json 与脚本在同一目录下。"))
    | .fault .malformedJson what => pure (.error ("错误: JSON文件格式不正确 - " ++ what))
    | other => throw other

def addOne (name : String) (module : Json) (slot : Save.Slot) (entry : Json) : Save.Edit Bool := do
  let graph ← (← entry.item "stringValue").parseText
  let nodes ← graph.item "Nodes"
  match ← Save.makeModule (.str name) module nodes with
  | none => pure false
  | some (node,y) =>
    let graph := graph.set "Nodes" (← nodes.append (Save.moduleJson node y))
    Save.setSave (Save.setText slot (Json.write (Json.Style.indented 2) graph) (← Save.getSave))
    pure true

def addModule : Work Unit := do
  match ← loadSave with
  | .error text => say text
  | .ok (save,catalogue) =>
    let offers ← offersOf Table.empty (← catalogue.entries)
    say "可用模块 (存档名):"
    sayAll ((← sortNames [] (offers.toList.map fun (_,o) => o.name)).map fun n => "- " ++ n.plain)
    let name ← ask "\n请输入要添加的模块的准确存档名: "
    match offers.find (← (Json.str name).keyText) with
    | none => say ("错误: 在 moduledef.json 中找不到存档名为 '" ++ name ++ "' 的模块。")
    | some offer =>
      match ← Save.findEntry "chip_graph" save with
      | none => say "错误: 在 data.json 中找不到 'chip_graph'。"
      | some (slot,entry) =>
        let (added,save) ← edit save (addOne name offer.module slot entry)
        if added then
          match ← attempt (writeJson "data_modified.json" wideStyle save) with
          | .ok _ =>
            say "\n成功!"
            say ("已将新模块 '" ++ name ++ "' 添加完毕。")
            say "结果已保存到 data_modified.json 文件中。"
          | .error f => say ("保存文件时发生错误: " ++ f.text)

end ChipForge.Tools
