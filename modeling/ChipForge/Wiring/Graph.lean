import ChipForge.Script.Literal
import ChipForge.Json.Writer
import ChipForge.Table

/-! Wiring graphs: nodes with named ports, edges between ports, and the variables a script declares. Node ids are handed
out per base name with a running number. -/
namespace ChipForge.Wiring
open Script

/-- A node: one module of the chip. -/
structure Node where
  id : String
  type : String
  label : String
  attrs : List (Literal×Literal)
  inputs : List String
  outputs : List String

/-- A wire from an output port to an input port, with the script line it comes from. -/
structure Edge where
  fromNode : String
  fromPort : String
  toNode : String
  toPort : String
  line : Option Nat

/-- A variable of the chip. -/
structure VariableDef where
  key : String
  gateType : String
  value : Literal
  scriptName : Option String

structure Graph where
  nodes : List Node
  edges : List Edge
  definitions : List VariableDef
  used : List String
  counters : Table Nat

namespace Graph

def empty : Graph := ⟨[],[],[],[],Table.empty⟩

def idBase (type : String) : String :=
  let kept := type.toList.filter fun c => Text.isPlain c || c == '_'
  let base := String.ofList (kept.map Char.toLower)
  if base.isEmpty then "node" else base

def idOf (base : String) (i : Nat) : String := base ++ "_" ++ toString i

def counter (g : Graph) (base : String) : Nat := (g.counters.find base).getD 0

/-- The first number from `i` on whose id is free. So many tries as there are used ids suffice. -/
def freeNumber (used : List String) (base : String) : Nat→Nat→Nat
  | 0, i => i
  | fuel+1, i => if used.contains (idOf base i) then freeNumber used base fuel (i+1) else i

def nextId (g : Graph) (type : String) : String×Graph :=
  let base := idBase type
  let i := freeNumber g.used base g.used.length (g.counter base)
  let id := idOf base i
  (id,{ g with used := id::g.used, counters := g.counters.put base (i+1) })

def addNode (g : Graph) (n : Node) : Graph := { g with nodes := g.nodes++[n] }

def addEdge (g : Graph) (e : Edge) : Graph := { g with edges := g.edges++[e] }

def hasNode (g : Graph) (id : String) : Bool := g.nodes.any (·.id == id)

def updateLast (g : Graph) (id : String) (f : Node→Node) : Graph :=
  let rec go : List Node→List Node×Bool
    | [] => ([],false)
    | n::rest =>
      let (rest',done) := go rest
      if done then (n::rest',true)
      else if n.id == id then (f n::rest',true)
      else (n::rest',false)
  { g with nodes := (go g.nodes).1 }

def lastNode? (g : Graph) (id : String) : Option Node := g.nodes.reverse.find? (·.id == id)

def updateAt (g : Graph) (i : Nat) (f : Node→Node) : Graph := { g with nodes := g.nodes.modify i f }

end Graph

def portsJson (ports : List String) : Json :=
  .arr (ports.map fun p => .obj [("name",.str p),("type",.str "")])

def Node.toJson? (n : Node) : Option Json := do
  let attrs ← (Literal.dict n.attrs).toJson?
  pure (.obj [("id",.str n.id),("type",.str n.type),("label",.str n.label),("attrs",attrs),
    ("inputs",portsJson n.inputs),("outputs",portsJson n.outputs)])

def Edge.toJson (e : Edge) : Json :=
  .obj ([("from_node",.str e.fromNode),("from_port",.str e.fromPort),("to_node",.str e.toNode),
    ("to_port",.str e.toPort)]++(match e.line with
      | some n => [("line",.int n)]
      | none => []))

def VariableDef.toJson? (v : VariableDef) : Option Json := do
  let value ← v.value.toJson?
  pure (.obj ([("Key",.str v.key),("GateDataType",.str v.gateType),("Value",value)] ++
    (match v.scriptName with
      | some n => [("dsl_name",.str n)]
      | none => [])))

/-- The graph in the save format, unless an attribute holds a value the format lacks. -/
def Graph.toJson? (g : Graph) : Option Json := do
  let nodes ← g.nodes.mapM Node.toJson?
  let definitions ← g.definitions.mapM VariableDef.toJson?
  pure (.obj [("nodes",.arr nodes),("edges",.arr (g.edges.map Edge.toJson)),("variables",.arr definitions)])

def graphStyle : Json.Style := (Json.Style.indented 2).unicode

end ChipForge.Wiring
