import ChipForge.Wiring.Compiler.Issue

/-! State of the compiler: the graph so far, what names stand for, and references to names that are defined later.
What was done before an issue arose stays done. -/
namespace ChipForge.Wiring
open Script

/-- Which constructs the compiler knows. -/
structure Dialect where
  /-- Choices between values, and typing of expressions. -/
  choices : Bool
  /-- Logic and comparison of values. -/
  logic : Bool
  /-- One node for equal constants. -/
  sharing : Bool
  outputs : OutputTypes

namespace Dialect

def plain (outputs : OutputTypes) : Dialect := ⟨false,false,false,outputs⟩

def choosing (outputs : OutputTypes) : Dialect := ⟨true,false,false,outputs⟩

def logical (outputs : OutputTypes) : Dialect := ⟨true,true,false,outputs⟩

def full (outputs : OutputTypes) : Dialect := ⟨true,true,true,outputs⟩

end Dialect

def autoPort : String := "__auto__"

/-- What an expression stands for: an output of a node, or of what a name will stand for. -/
inductive Ref
  | node (id port : String)
  | name (id port : String)
  deriving DecidableEq, Repr

/-- A wire whose source is not known yet. -/
structure Pending where
  name : String
  port : String
  toNode : String
  toPort : String
  line : Option Nat

structure State where
  graph : Graph
  nodeOf : Table String
  /-- Names that stand for an output of what another name stands for. -/
  aliases : Table (String×String)
  nameTypes : Table GateType
  nodeTypes : Table GateType
  outputs : Table (List String)
  pending : List Pending
  guarded : Bool
  inGuard : Bool
  written : List String
  shared : Table String

def State.initial : State :=
  ⟨Graph.empty,Table.empty,Table.empty,Table.empty,Table.empty,Table.empty,[],false,false,[],Table.empty⟩

abbrev Compile := ExceptT Issue (StateM State)

namespace State

def refOfName (s : State) (name : String) : Ref :=
  match s.aliases.find name with
  | some (up,port) =>
    match s.nodeOf.find up with
    | some id => .node id port
    | none => .name up port
  | none =>
    match s.nodeOf.find name with
    | some id => .node id autoPort
    | none => .name name autoPort

def refOfPort (s : State) (name port : String) : Ref :=
  match s.nodeOf.find name with
  | some id => .node id port
  | none => .name name port

def seeNode (s : State) (id : String) : State := { s with outputs := s.outputs.putNew id [] }

def seeOutput (s : State) (id port : String) : State :=
  let ports := (s.outputs.find id).getD []
  { s with outputs := s.outputs.put id (if ports.contains port then ports else ports++[port]) }

def addEdge (s : State) (e : Edge) : State :=
  { s with graph := s.graph.addEdge e }.seeOutput e.fromNode e.fromPort

def connect (s : State) (ref : Ref) (toNode toPort : String) (line : Option Nat) : State :=
  match ref with
  | .node id port => s.addEdge ⟨id,port,toNode,toPort,line⟩
  | .name id port => { s with pending := s.pending++[⟨id,port,toNode,toPort,line⟩] }

def setNameType (s : State) (name : String) (t : GateType) : State := { s with nameTypes := s.nameTypes.put name t }

def setNodeType (s : State) (id : String) (t : GateType) : State := { s with nodeTypes := s.nodeTypes.put id t }

/-- Lets a name stand for a node unless it stands for one. -/
def bindNew (s : State) (name id : String) : State := { s with nodeOf := s.nodeOf.putNew name id }

def markWritten (s : State) (name : String) : State :=
  { s with written := if s.written.contains name then s.written else s.written++[name] }

def declares (s : State) (name : String) : Bool :=
  s.graph.definitions.any fun v => v.key == name || v.scriptName == some name

/-- Sets an attribute of a node, or leaves the one it has. -/
def setAttrNew (s : State) (id key : String) (value : Literal) : State :=
  { s with graph := s.graph.updateLast id fun n =>
      { n with attrs := if (attr? n.attrs key).isSome then n.attrs else setAttr n.attrs key value } }

def setAttrOf (s : State) (id key : String) (value : Literal) : State :=
  { s with graph := s.graph.updateLast id fun n => { n with attrs := setAttr n.attrs key value } }

end State

def typeOf (d : Dialect) (e : Expr) : Compile (Option GateType) := do
  let s ← get
  match typeOfExpr ⟨s.nameTypes,d.outputs⟩ e with
  | .ok t => pure t
  | .error clash => throw (.typeClash clash)

/-- Type of an expression if the dialect types expressions and it has one type. -/
def typeIfAny (d : Dialect) (e : Expr) : Compile (Option GateType) := do
  let s ← get
  if d.choices then
    match typeOfExpr ⟨s.nameTypes,d.outputs⟩ e with
    | .ok t => pure t
    | .error _ => pure none
  else pure none

def rememberType (name : String) (t : Option GateType) (id : Option String) : Compile Unit :=
  match t with
  | none => pure ()
  | some t =>
    modify fun s =>
      let s := s.setNameType name t
      match id with
      | some id => s.setNodeType id t
      | none => s

end ChipForge.Wiring
