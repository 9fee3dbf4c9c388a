import ChipForge.Layout.Engine

/-! Putting places into the graph of a save, and laying out a whole save. -/
namespace ChipForge.Save

def leftShift : Number := .float (-2000.0)

def plus (v : Json) (n : Number) : Except Failure Json :=
  match Number.ofJson? v with
  | some m => .ok (m.add n).toJson
  | none =>
    match v with
    | .str _ => .error (.fault .wrongKind "can only concatenate str (not \"float\") to str")
    | .arr _ => .error (.fault .wrongKind "can only concatenate list (not \"float\") to list")
    | other =>
      .error (.fault .wrongKind ("unsupported operand type(s) for +: '" ++ other.kindName ++ "' and 'float'"))

/-- A node at its place; the truth value tells whether it has one. -/
def moveNode (positions node : Json) : Except Failure (Json×Bool) := do
  let id ← node.item "Id"
  if ← isPartOf id positions then
    let place ← positions.item (← id.toFieldName)
    let x ← plus (← place.item "x") leftShift
    let visual ← (← node.item "VisualPosition").assign "x" x
    let visual ← visual.assign "y" (← place.item "y")
    pure (node.set "VisualPosition" visual,true)
  else pure (node,false)

def moveNodes (positions : Json) : List Json→Except Failure (List Json×Nat)
  | [] => .ok ([],0)
  | node::rest => do
    let (node,moved) ← moveNode positions node
    let (nodes,count) ← moveNodes positions rest
    pure (node::nodes,if moved then count+1 else count)

/-- The first graph among entries of which a node has a place: its number, its new text, and how many nodes moved. -/
def moveGraph? (positions : Json) : Nat→List Json→Except Failure (Option (Nat×String×Nat))
  | _, [] => .ok none
  | i, entry::rest => do
    if ← isNamed "chip_graph" entry then
      let graph ← (← entry.item "stringValue").parseText
      let (nodes,count) ← moveNodes positions (← (← graph.fieldOr "Nodes" (.arr [])).each)
      if 0 < count then pure (some (i,Json.write .compact (graph.set "Nodes" (.arr nodes)),count))
      else moveGraph? positions (i+1) rest
    else moveGraph? positions (i+1) rest

def isMisshapen : Failure→Bool
  | .fault .missingKey _ => true
  | .fault .outOfRange _ => true
  | .fault .wrongKind _ => true
  | _ => false

/-- Puts places into the graph of the first container; tells whether a node moved. -/
def moveAll (positions : Json) : Edit Bool := do
  let save ← getSave
  match (do moveGraph? positions 0 (← (← firstEntries save).each) : Except Failure _) with
  | .ok (some (i,text,count)) =>
    setSave (setText ⟨0,i⟩ text save)
    say ("   在'chip_graph'中更新了 " ++ toString count ++ " 个节点的位置。")
    pure true
  | .ok none =>
    say "   警告: 在JSON中找到了'chip_graph'，但没有需要更新坐标的匹配节点。"
    pure false
  | .error f =>
    if isMisshapen f then
      say ("错误：导航JSON结构时出错: " ++ f.text ++ "。请检查存档文件结构是否正确。")
      pure false
    else throw f

def graphText (keyOf : Json→Except Failure Json) : List Json→Except Failure Json
  | [] => .error (.fault .exhausted "")
  | entry::rest => do
    if (← keyOf entry).same (.str "chip_graph") then entry.item "stringValue" else graphText keyOf rest

def graphNodes (keyOf : Json→Except Failure Json) (save : Json) : Except Failure Json := do
  (← (← graphText keyOf (← (← firstEntries save).each)).parseText).fieldOr "Nodes" (.arr [])

def isGraphless : Failure→Bool
  | .fault .missingKey _ => true
  | .fault .outOfRange _ => true
  | .fault .exhausted _ => true
  | .fault .malformedJson _ => true
  | _ => false

/-- Lays out the graph of a save, which is read from a file of this name; tells whether it was changed. -/
def layOut (name : String) : Edit Bool := do
  match graphNodes (fun entry => entry.field "key") (← getSave) with
  | .error f =>
    if isGraphless f then
      say ("⚠️ 警告：在存档文件 '" ++ name ++ "' 中无法找到或解析 'chip_graph'，跳过布局。错误: " ++ f.text)
      pure false
    else throw f
  | .ok nodes =>
    if !nodes.truthy then
      say "ℹ️ 'chip_graph' 中没有节点，无需布局"
      pure false
    else
      say ("   从存档中找到 " ++ toString (← nodes.size) ++ " 个节点进行布局")
      let places ← Layout.arrange (← nodes.each)
      say "   使用新坐标更新存档数据..."
      if ← moveAll (Layout.placesJson places) then
        say ("✔ 自动布局完成，已更新存档文件: '" ++ name ++ "'")
        pure true
      else
        say "⚠️ 错误：布局计算完成，但在存档中更新坐标失败。文件未被修改"
        pure false

end ChipForge.Save
