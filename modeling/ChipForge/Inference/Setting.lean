import ChipForge.Assembly.Ports
import ChipForge.Inference.UnionFind

/-! What inference of types knows: the types that nodes, constants, rules and modules name. -/
namespace ChipForge.Inference
open Assembly

def typeOfPort? : Json→Option GateType
  | .str s => GateType.named? s
  | _ => none

def typeOfValue? (v : Json) : Except Failure (Option GateType) :=
  match v with
  | .int n => .ok (GateType.ofCode? n)
  | .str s =>
    if Text.allDigits (Text.trim s) then (Json.readDigits (Text.trim s)).map GateType.ofCode?
    else .ok (GateType.named? s)
  | _ => .ok none

def explicitType? (attrs : Json) : Except Failure (Option GateType) := do
  let other ← attrs.field "datatype"
  typeOfValue? (← attrs.fieldOr "data_type" other)

/-- Three numbers or more in a list. -/
def isNumberTriple : Json→Bool
  | .arr items => 3 ≤ items.length && (items.take 3).all Json.isNumber
  | _ => false

def constantType? (attrs : Json) : Option GateType :=
  match attrs.get? "value" with
  | none => none
  | some v =>
    if v.isNumber then some .number
    else if v.isStr then some .string
    else if v.isVector then some .vector
    else match v with
      | .arr items =>
        if items.isEmpty then none
        else if items.all Json.isNumber then some .arrayNumber
        else if items.all Json.isStr then some .arrayString
        else if items.all Json.isVector then some .arrayVector
        else if items.all isNumberTriple then some .arrayVector
        else none
      | _ => none

/-- Records that inference consults. -/
structure Setting where
  placements : Json
  index : Json
  rules : Json
  modules : Json
  nodes : Table Json

inductive Side
  | inputs | outputs
  deriving DecidableEq, Repr

def Side.name : Side→String
  | inputs => "inputs"
  | outputs => "outputs"

/-- What a node is. -/
structure Role where
  chip : String
  module : Option String
  variableType : Json

def Role.word (r : Role) : String := Text.lower r.chip

namespace Setting

def role (s : Setting) (id : String) : Except Failure Role := do
  let p := (← s.placements.field id).orElse (.obj [])
  let chip ← p.fieldOr "friendly_name" (.str "")
  let op ← p.field "op_type"
  let variableType ← p.field "var_gate_type"
  pure ⟨chip.plain,if op.isNull then none else some op.plain,variableType⟩

def module? (s : Setting) (key : Option String) : Except Failure (Option Json) :=
  match key with
  | none => .ok none
  | some k => (s.modules.field k).map fun m => if m.isObj then some m else none

def rule? (s : Setting) (key : Option String) : Except Failure (Option Json) :=
  match key with
  | none => .ok none
  | some k => (s.rules.field k).map fun r => if r.isObj then some r else none

def listOf (record : Json) (key : String) : Except Failure (List Json) := do
  match (← record.field key).orElse (.arr []) with
  | .arr items => pure items
  | _ => pure []

def ownPorts (s : Setting) (id : String) (side : Side) : Except Failure (List Json) :=
  listOf (((s.nodes.find id).getD (.obj [])).orElse (.obj [])) side.name

def ownPortName : Json→Json
  | .obj fields => .str ((Json.lookup "name" fields).getD (.str "")).plain
  | other => .str other.plain

/-- Ports of the chip of a node, and those the node lists if the chip has none. -/
def ports (s : Setting) (role : Role) (id : String) (side : Side) : Except Failure (List Json×List Json) := do
  let chip := (← s.index.field (Text.nameKey role.chip)).orElse (.obj [])
  let listed ← listOf chip side.name
  if listed.isEmpty then
    let own ← s.ownPorts id side
    pure (own.map ownPortName,own)
  else pure (listed.map fun p => .str p.plain,[])

end Setting

/-- What is known of the type at a port. -/
inductive PortType
  | fixed (t : GateType) (priority : Int)
  | ofNode (id : String)

/-- What a rule says of a port; nothing if it leaves the port to other sources. -/
def ruleType? (id : String) (rule : Json) : Option (Option PortType) :=
  match rule with
  | .null => some none
  | .str "any" => some none
  | .str "same" => some (some (.ofNode id))
  | other => (other.asInt?.bind GateType.ofCode?).map fun t => some (.fixed t 60)

def listedType? (ports : List Json) (i : Nat) : Option PortType :=
  match ports[i]? with
  | some p => ((p.get? "type").bind typeOfPort?).map fun t => .fixed t 50
  | none => none

namespace Setting

/-- Type of a port of a module by rules, by the node and by the module, in this order. -/
def moduleType? (s : Setting) (role : Role) (id : String) (side : Side) (own : List Json) (i : Nat) :
    Except Failure (Option PortType) := do
  let ruled ← match ← s.rule? role.module with
    | some rule => do pure ((← listOf rule side.name)[i]?.bind (ruleType? id))
    | none => pure none
  match ruled with
  | some answer => pure answer
  | none =>
    match listedType? own i with
    | some t => pure (some t)
    | none =>
      match ← s.module? role.module with
      | some m => pure (listedType? (← listOf m side.name) i)
      | none => pure none

def portType? (s : Setting) (defaults : Table (Option GateType)) (id : String) (side : Side) (port : String) :
    Except Failure (Option PortType) := do
  let role ← s.role id
  let (names,own) ← s.ports role id side
  match ← findPort? (.str port) names with
  | none => pure none
  | some i =>
    let word := role.word
    if word == "output" || word == "input" then pure (some (.ofNode id))
    else if word == "variable" then
      let t ← typeOfValue? role.variableType
      if side == .inputs && i == 1 then pure (some (.fixed .entity 90))
      else pure (t.map fun t => .fixed t 90)
    else if word == "constant" then pure (((defaults.find id).join).map fun t => .fixed t 90)
    else s.moduleType? role id side own i

def followsNode (s : Setting) (id : String) : Except Failure Bool := do
  let role ← s.role id
  if isEnd role.word then pure false
  else
    match ← s.rule? role.module with
    | none => pure false
    | some rule =>
      let ins ← listOf rule "inputs"
      let outs ← listOf rule "outputs"
      pure ((ins++outs).any fun r => r.same (.str "same"))
where
  isEnd (word : String) : Bool := ["input","output","variable","constant"].contains word

def isEnd (s : Setting) (id : String) : Except Failure Bool := do
  let word := (← s.role id).word
  pure (word == "input" || word == "output")

end Setting

end ChipForge.Inference
