import ChipForge.Save.Constants
import ChipForge.Tools.AddBatch

/-! The tool that adds a variable and a node for it. -/
namespace ChipForge.Tools
open Workshop

def isTypeName (word : String) : Bool := (GateType.ofName? word).isSome

def variableFlags : List Flag :=
  [{ spellings := ["--key"], key := "key" },{ spellings := ["--type"], key := "type", takes := isTypeName },
    { spellings := ["--name"], key := "name" },{ spellings := ["--x"], key := "x", takes := isNumeral },
    { spellings := ["--y"], key := "y", takes := isNumeral }]

structure VariableWish where
  file : String
  key : String
  type : GateType
  name : Json
  x : Float
  y : Float

/-- Reads the wish off a command line. Key and type must be given. -/
def readVariable (args : List String) : Except Failure VariableWish := do
  let a ← readArguments variableFlags 1 args
  match a.plain, a.options.find "key", (a.options.find "type").bind GateType.ofName? with
  | [file], some key, some type =>
    pure ⟨file,key,type,(a.options.find "name").elim .null .str,numberOption a "x" 0.0,numberOption a "y" 0.0⟩
  | _, _, _ => misused

def refuse {α : Type} (text : String) : Work α := do
  say text
  stop (.int 1)

def hasKey (key : String) : List Json→Except Failure Bool
  | [] => .ok false
  | v::rest => do if (← v.item "Key").same (.str key) then pure true else hasKey key rest

def addDefinition (w : VariableWish) (save : Json) (slot : Save.Slot) (entry : Json) : Work Json := do
  let text ← entry.item "stringValue"
  let list ← if text.truthy then text.parseText else pure (.arr [])
  if ← hasKey w.key (← list.each) then
    say ("[警告] 变量定义的 Key '" ++ w.key ++ "' 已存在。")
    pure save
  else
    let definition ← Save.define (.str w.key) (.str w.type.name) .null w.name .names
    let list ← list.append definition.toJson
    say ("[1/2] 变量定义已添加: " ++ w.key)
    pure (Save.setText slot (Json.write .spaced list) save)

def addVariableNode (w : VariableWish) (slot : Save.Slot) (graph : Json) : Save.Edit Unit := do
  let node ← Save.makeVariable (.str w.key) (.str w.type.name) .names
  let graph ← if ← Save.isPartOf (.str "Nodes") graph then pure graph else graph.assign "Nodes" (.arr [])
  let nodes ← (← graph.item "Nodes").append (Save.variableJson node (.float w.x) (.float w.y))
  Save.setSave (Save.setText slot (Json.write .spaced (graph.set "Nodes" nodes)) (← Save.getSave))

def addVariable (args : List String) : Work Unit := do
  if (← get).lacking.contains .variableStore then refuse variableStoreMissing
  else
    let w ← readVariable args
    if !(← exists? w.file) then refuse ("[错误] 文件未找到: " ++ w.file)
    else
      let save ← readJson w.file
      match Save.entryOfFirst? "chip_graph" save with
      | none => refuse "[错误] 找不到 chip_graph"
      | some (graphSlot,graphEntry) =>
        let text ← graphEntry.item "stringValue"
        if !text.truthy then refuse "[错误] chip_graph 为空，无法添加节点"
        else
          let graph ← text.parseText
          match Save.entryOfFirst? "chip_variables" save with
          | none => refuse "[错误] 找不到 chip_variables"
          | some (slot,entry) =>
            let save ← addDefinition w save slot entry
            let (_,save) ← edit save (addVariableNode w graphSlot graph)
            say ("[2/2] 变量节点已生成于坐标 (" ++ Decimal.text w.x ++ ", " ++ Decimal.text w.y ++ ")")
            writeJson w.file wideStyle save
            say ("[成功] 文件已保存至: " ++ w.file)

end ChipForge.Tools
