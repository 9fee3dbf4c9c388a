import ChipForge.Save.Adder

/-! Adding ends and constants to a save by plain definitions, without a catalogue. -/
namespace ChipForge.Save

/-- The list of nodes of a graph must be there to take a node. -/
def placeIn (graph node : Json) (y : Number) : Except Failure Json := do
  let settled ← settle node y.toJson
  let nodes ← (← graph.item "Nodes").append settled
  pure (graph.set "Nodes" nodes)

/-- Graph and lists while definitions are carried out. -/
structure EndDraft where
  inputs : Json
  outputs : Json
  graph : Json
  nextY : Number

/-- Carries out a definition; kinds that are not known are passed over. -/
def addEnd (schema : Schema) (d : EndDraft) (definition : Json) : Edit EndDraft := do
  let kind ← definition.field "type"
  let type ← definition.fieldOr "dataType" (.int 2)
  if kind.same (.str "input") then
    let (entry,node) ← makeInput (← definition.fieldOr "name" (.str "Unnamed Input")) type schema
    let inputs ← d.inputs.append entry.toJson
    let graph ← placeIn d.graph node.toJson d.nextY
    pure { d with inputs := inputs, graph := graph, nextY := d.nextY.add spacing }
  else if kind.same (.str "output") then
    let (entry,node) ← makeOutput (← definition.fieldOr "name" (.str "Unnamed Output")) type schema
    let outputs ← d.outputs.append entry.toJson
    let graph ← placeIn d.graph node.toJson d.nextY
    pure { d with outputs := outputs, graph := graph, nextY := d.nextY.add spacing }
  else if kind.same (.str "constant") then
    let node ← makeConstant (← definition.fieldOr "value" (.str "0")) type schema
    let graph ← placeIn d.graph node.toJson d.nextY
    pure { d with graph := graph, nextY := d.nextY.add spacing }
  else pure d

def addEndsTo (schema : Schema) : EndDraft→List Json→Edit EndDraft
  | d, [] => pure d
  | d, definition::rest => do addEndsTo schema (← addEnd schema d definition) rest

def setCompact (slot : Slot) (v : Json) : Edit Unit := do
  setSave (setText slot (Json.write .compact v) (← getSave))

def addEndsOrFail (definitions : Json) : Edit Unit := do
  let (inputSlot,inputEntry) ← ensureFirst "chip_inputs"
  let (outputSlot,outputEntry) ← ensureFirst "chip_outputs"
  let (graphSlot,graphEntry) ← ensureFirst "chip_graph"
  let inputs ← (← inputEntry.item "stringValue").parseText
  let outputs ← (← outputEntry.item "stringValue").parseText
  let graph ← (← graphEntry.item "stringValue").parseText
  let nodes ← ((← graph.fieldOr "Nodes" (.arr [])).orElse (.arr [])).each
  let schema := Schema.ofNames (← operationsNamed nodes)
  let d ← addEndsTo schema ⟨inputs,outputs,graph,.float 400.0⟩ (← definitions.each)
  setCompact inputSlot d.inputs
  setCompact outputSlot d.outputs
  setCompact graphSlot d.graph

def addEnds (definitions : Json) : Edit Bool := do
  try
    addEndsOrFail definitions
    pure true
  catch f =>
    match f with
    | .fault .missingKey _ => missing f
    | .fault .outOfRange _ => missing f
    | .fault .malformedJson _ => do
      say ("错误: 解析JSON时出错。请检查文件格式: " ++ f.text)
      pure false
    | _ => throw f
where
  missing (f : Failure) : Edit Bool := do
    say ("错误: 输入的JSON文件结构不正确。缺少关键字段: " ++ f.text)
    pure false

end ChipForge.Save
