import ChipForge.Inference.Setting

/-! Types of the nodes of a graph. Known types are asserted with priorities, each wire passes types on or joins the
classes of its ends, and a class without an assertion takes the type most of its nodes start from. -/
namespace ChipForge.Inference
open Assembly

/-- What is known so far. -/
structure Progress where
  classes : UnionFind
  defaults : Table (Option GateType)
  /-- How often a vector was seen at a node that need not carry one. -/
  hints : Table Nat

namespace Progress

def assert (p : Progress) (id : String) (t : GateType) (priority : Int) : Progress :=
  { p with classes := p.classes.assert id t priority }

def hint (p : Progress) (id : String) : Progress :=
  { p with hints := p.hints.put id ((p.hints.find id).getD 0+1) }

def start (p : Progress) (id : String) (t : Option GateType) (priority : Option Int) : Progress :=
  let p := { p with defaults := p.defaults.put id t }
  match t, priority with
  | some t, some priority => p.assert id t priority
  | _, _ => p

end Progress

def moduleStart (module : Option Json) : Except Failure (Option GateType×Bool) :=
  match module with
  | none => .ok (none,false)
  | some m => do
    let t := (← m.field "gate_data_type").asInt?.bind GateType.ofCode?
    let modifiable ← m.fieldOr "can_modify_data_type" (.bool true)
    pure (t,!modifiable.switch true)

def startNode (s : Setting) (p : Progress) (id : String) (node : Json) : Except Failure Progress := do
  let attrs := (← node.field "attrs").orElse (.obj [])
  let attrs := if attrs.isObj then attrs else .obj []
  match ← explicitType? attrs with
  | some t => pure (p.start id (some t) (some 100))
  | none =>
    let role ← s.role id
    if role.word == "constant" then pure (p.start id (constantType? attrs) (some 90))
    else if role.word == "variable" then pure (p.start id (← typeOfValue? role.variableType) (some 90))
    else
      let (t,must) ← moduleStart (← s.module? role.module)
      pure (p.start id t (if must then some 95 else none))

def startNodes (s : Setting) : Progress→List (String×Json)→Except Failure Progress
  | p, [] => .ok p
  | p, (id,node)::rest => do startNodes s (← startNode s p id node) rest

structure Wire where
  source : String
  sourcePort : String
  target : String
  targetPort : String

/-- The wire a record tells of, if it names all four parts. -/
def Wire.ofJson? (v : Json) : Option Wire :=
  match v.get? "from_node", v.get? "to_node", v.get? "from_port", v.get? "to_port" with
  | some (.str source), some (.str target), some (.str sourcePort), some (.str targetPort) =>
    some ⟨source,sourcePort,target,targetPort⟩
  | _, _, _, _ => none

/-- A vector at a port binds a node whose ports follow it; for other nodes it is a hint. -/
def softVector (s : Setting) (p : Progress) (id : String) (priority : Int) : Except Failure Progress := do
  if ← s.followsNode id then pure (p.assert id .vector priority) else pure (p.hint id)

def passFixed (s : Setting) (p : Progress) (id : String) (t : GateType) (priority : Int) : Except Failure Progress :=
  if t == .vector then softVector s p id 95 else .ok (p.assert id t priority)

/-- Passes the type of a class on to a node of a class without type. -/
def passKnown (s : Setting) (p : Progress) (id : String) (known : Fixed) : Except Failure Progress := do
  if known.type == .vector then
    if ← s.isEnd id then pure (p.assert id known.type known.priority)
    else softVector s p id (max known.priority 95)
  else pure (p.assert id known.type known.priority)

def join (p : Progress) (a b : String) : Except Failure Progress :=
  let (result,classes) := p.classes.union a b
  result.map fun _ => { p with classes := classes }

def meet (s : Setting) (p : Progress) (a b : String) : Except Failure Progress := do
  let (left,classes) := p.classes.info a
  let (right,classes) := classes.info b
  let p := { p with classes := classes }
  match left, right with
  | some known, none => passKnown s p b known
  | none, some known => passKnown s p a known
  | some l, some r =>
    if l.type == .vector && r.type != .vector then pure (p.hint b)
    else if r.type == .vector && l.type != .vector then pure (p.hint a)
    else join p a b
  | none, none => join p a b

def constrain (s : Setting) (p : Progress) (left right : PortType) : Except Failure Progress :=
  match left, right with
  | .fixed _ _, .fixed _ _ => .ok p
  | .ofNode id, .fixed t priority => passFixed s p id t priority
  | .fixed t priority, .ofNode id => passFixed s p id t priority
  | .ofNode a, .ofNode b => meet s p a b

def followWire (s : Setting) (p : Progress) (w : Wire) : Except Failure Progress := do
  let left ← s.portType? p.defaults w.source .outputs w.sourcePort
  let right ← s.portType? p.defaults w.target .inputs w.targetPort
  match left, right with
  | some left, some right => constrain s p left right
  | _, _ => pure p

def followWires (s : Setting) : Progress→List Wire→Except Failure Progress
  | p, [] => .ok p
  | p, w::rest => do followWires s (← followWire s p w) rest

def isItem (s : Setting) (w : Wire) : Except Failure Bool := do
  let role ← s.role w.source
  if role.word != "arraysget" then pure false
  else
    let chip := (← s.index.field (Text.nameKey role.chip)).orElse (.obj [])
    match (← chip.field "outputs").orElse (.arr []) with
    | .arr outputs =>
      let i ← findPort? (.str w.sourcePort) (outputs.map fun p => .str p.plain)
      pure (i == some 0)
    | _ => pure false

/-- Passes the type of the items of a list on to what takes one out. -/
def followItem (s : Setting) (p : Progress) (w : Wire) : Except Failure Progress := do
  if !(← isItem s w) then pure p
  else
    let (known,classes) := p.classes.info w.source
    let p := { p with classes := classes }
    let list := match known with
      | some f => some f.type
      | none => (p.defaults.find w.source).join
    match list.bind GateType.element? with
    | none => pure p
    | some t =>
      match ← s.portType? p.defaults w.target .inputs w.targetPort with
      | some (.ofNode id) => pure (p.assert id t 50)
      | _ => pure p

def followItems (s : Setting) : Progress→List Wire→Except Failure Progress
  | p, [] => .ok p
  | p, w::rest => do followItems s (← followItem s p w) rest

def addVotes (n : Nat) (t : GateType) : List (GateType×Nat)→List (GateType×Nat)
  | [] => [(t,n)]
  | (u,k)::rest => if u == t then (u,k+n)::rest else (u,k)::addVotes n t rest

/-- The type with most votes; of several a vector wins, else the first. -/
def winner? (votes : List (GateType×Nat)) : Option GateType :=
  let most := votes.foldl (fun m (_,k) => max m k) 0
  let best := (votes.filter fun (_,k) => k == most).map (·.1)
  if best.contains .vector then some .vector else best.head?

/-- Votes of the nodes of a class: the types they start from, and the hints at them for a vector. -/
def votesOf (p : Progress) (members : List String) : List (GateType×Nat) :=
  let votes := (members.filterMap fun m => (p.defaults.find m).join).foldl (fun acc t => addVotes 1 t acc) []
  let hints := members.foldl (fun n m => n+(p.hints.find m).getD 0) 0
  if hints == 0 then votes else addVotes hints .vector votes

def classType? (p : Progress) (rooted : List (String×String)) (root : String) : Option GateType :=
  match (p.classes.info root).1 with
  | some f => some f.type
  | none => winner? (votesOf p ((rooted.filter fun (_,r) => r == root).map (·.1)))

def classTypes (p : Progress) (rooted : List (String×String)) : Table (Option GateType) :=
  rooted.foldl (fun table (_,root) => if table.has root then table else table.put root (classType? p rooted root))
    Table.empty

def conclude (p : Progress) (ids : List String) : Table GateType :=
  let rooted := ids.map fun id => (id,(p.classes.find id).1)
  let types := classTypes p rooted
  rooted.foldl (fun out (id,root) =>
    match (types.find root).join with
    | some t => out.put id t
    | none => out) Table.empty

def namedNodes : List Json→Except Failure (List (String×Json))
  | [] => .ok []
  | n::rest => do
    match ← n.field "id" with
    | .str id => pure ((id,n)::(← namedNodes rest))
    | _ => namedNodes rest

def infer (graph placements index rules modules : Json) : Except Failure (Table GateType) := do
  let nodes ← namedNodes (← ((← graph.field "nodes").orElse (.arr [])).each)
  let s : Setting :=
    ⟨placements,index,rules,modules,nodes.foldl (fun t (id,n) => t.put id n) Table.empty⟩
  let ids := nodes.map (·.1)
  let p ← startNodes s ⟨UnionFind.ofItems ids,Table.empty,Table.empty⟩ nodes
  let wires := (← ((← graph.field "edges").orElse (.arr [])).each).filterMap Wire.ofJson?
  let p ← followWires s p wires
  let p ← followItems s p wires
  pure (conclude p ids)

end ChipForge.Inference
