import ChipForge.Save.Constants
import ChipForge.Table

/-! The wires of a graph as layout sees them: which nodes stand before and after each node. -/
namespace ChipForge.Layout

/-- Nodes and their neighbours, one mention for every wire. -/
structure Wires where
  ids : List String
  before : Table (List String)
  after : Table (List String)

def neighbours (t : Table (List String)) (id : String) : List String := (t.find id).getD []

/-- Nodes by id, the last of an id counting. -/
def nodeTable : Table Json→List Json→Except Failure (Table Json)
  | table, [] => .ok table
  | table, node::rest => do
    let id ← (← node.item "Id").toFieldName
    nodeTable (table.put id node) rest

def sourceOf? (nodes : Table Json) (port : Json) : Except Failure (Option String) := do
  let connection ← port.field "connectedOutputIdModel"
  if connection.truthy then
    if ← Save.isPartOf (.str "NodeId") connection then
      let source ← (← connection.item "NodeId").toFieldName
      pure (if nodes.has source then some source else none)
    else pure none
  else pure none

def wirePorts (nodes : Table Json) (id : String) : Wires→List Json→Except Failure Wires
  | w, [] => .ok w
  | w, port::rest => do
    match ← sourceOf? nodes port with
    | some source => wirePorts nodes id { w with before := w.before.addTo id source, after := w.after.addTo source id } rest
    | none => wirePorts nodes id w rest

def wireNodes (nodes : Table Json) : Wires→List (String×Json)→Except Failure Wires
  | w, [] => .ok w
  | w, (id,node)::rest => do
    let w ← wirePorts nodes id w (← (← node.fieldOr "Inputs" (.arr [])).each)
    wireNodes nodes w rest

def Wires.ofNodes (nodes : List Json) : Except Failure Wires := do
  let table ← nodeTable Table.empty nodes
  wireNodes table ⟨table.toList.map (·.1),Table.empty,Table.empty⟩ table.toList

end ChipForge.Layout
