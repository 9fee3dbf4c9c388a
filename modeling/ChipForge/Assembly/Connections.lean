import ChipForge.Assembly.Plan

/-! Connections between the nodes of a save, one for every wire of a graph. -/
namespace ChipForge.Assembly

/-- A connection from an output to an input, by the numbers of the ports. -/
structure Connection where
  fromNode : Json
  fromPort : Nat
  toNode : Json
  toPort : Nat

def Connection.toJson (c : Connection) : Json :=
  .obj [("from_node_id",c.fromNode),("from_port_index",.int c.fromPort),("to_node_id",c.toNode),
    ("to_port_index",.int c.toPort)]

/-- An end of a wire: the chip of its node, and the id of the node in the save. -/
structure WireEnd where
  friendlyName : Json
  newId : Json

structure PortLists where
  inputs : Except Failure (List Json)
  outputs : Except Failure (List Json)

/-- What connections depend on. -/
structure Fittings where
  wireEnd : String→Except Failure WireEnd
  ports : String→Option PortLists

def placeWire {α : Type} (wire : Json) (friendly : Json) (r : Except Failure α) : Except Failure α :=
  match r with
  | .error (.report .connection origin message context cause quotes) => do
    let line ← wire.field "line"
    .error (.report .connection origin message
      (Json.insert "node_type" friendly (Json.insert "line" line context)) cause quotes)
  | other => other

def findEnd (fittings : Fittings) (wire : Json) (side : String) : Except Failure WireEnd := do
  fittings.wireEnd (← (← wire.item side).toFieldName)

def endKey (e : WireEnd) : Except Failure String := do pure (Text.nameKey (← e.friendlyName.text "lower"))

def connectionOf (fittings : Fittings) (wire : Json) : Except Failure Connection := do
  let source ← findEnd fittings wire "from_node"
  let target ← findEnd fittings wire "to_node"
  let sourceKey ← endKey source
  let targetKey ← endKey target
  match fittings.ports sourceKey, fittings.ports targetKey with
  | some sourceChip, some targetChip =>
    let fromPort ← placeWire wire source.friendlyName do
      resolvePort (← wire.item "from_port") (← sourceChip.outputs)
    let toPort ← placeWire wire target.friendlyName do
      resolvePort (← wire.item "to_port") (← targetChip.inputs)
    pure ⟨source.newId,fromPort,target.newId,toPort⟩
  | _, _ =>
    connectionReport
      ("无法在 chip_index 中找到 \"" ++ source.friendlyName.plain ++ "\" 或 \"" ++ target.friendlyName.plain ++ "\"")
      [("from_node",source.friendlyName),("to_node",target.friendlyName),("line",← wire.field "line")]

def Fittings.ofPlan (placements : Table Placement) (index : Index) : Fittings where
  wireEnd id :=
    match placements.find id with
    | some p => .ok ⟨.str p.friendlyName,p.newId⟩
    | none => Json.missingKey (Text.quoted id)
  ports key := (index.find key).map fun k => ⟨.ok k.inputs,.ok k.outputs⟩

def Fittings.ofJson (placements index : Json) : Fittings where
  wireEnd id := do
    let p ← placements.item id
    pure ⟨← p.item "friendly_name",(p.get? "new_full_id").getD .null⟩
  ports key := (index.get? key).map fun k =>
    ⟨k.item "inputs" >>= Json.each,k.item "outputs" >>= Json.each⟩

def connections (fittings : Fittings) (graph : Json) : Except Failure (List Connection) := do
  (← (← graph.item "edges").each).mapM (connectionOf fittings)

end ChipForge.Assembly
