import ChipForge.GateType
import ChipForge.Json.Update

/-! How a graph writes types and operations: older saves by number, newer saves by name. -/
namespace ChipForge.Save
open Text

/-- The two ways of writing types and operations. -/
inductive Schema
  | numbers | names
  deriving DecidableEq, Repr

def Schema.ofNames (names : Bool) : Schema := if names then .names else .numbers

def wholeNumber? : Json→Option Int
  | .int n => some n
  | .bool b => some (if b then 1 else 0)
  | .float x => if Decimal.isWhole x then Decimal.truncate x else none
  | _ => none

/-- The type whose code a value is. Lists and records cannot be looked up. -/
def typeOfCode? (v : Json) : Except Failure (Option GateType) := do
  discard v.toFieldName
  pure ((wholeNumber? v).bind GateType.ofCode?)

def portsNamed : List Json→Except Failure Bool
  | [] => .ok false
  | p::rest => do if (← p.field "DataType").isStr then pure true else portsNamed rest

def allPorts (node : Json) : Except Failure (List Json) := do
  ((← node.field "Inputs").orElse (.arr [])).joined ((← node.field "Outputs").orElse (.arr []))

/-- Does a node write its own type or that of a port by name? -/
def typesNamed (node : Json) : Except Failure Bool := do
  if (← node.field "GateDataType").isStr then pure true else portsNamed (← allPorts node)

def nodeNamed (node : Json) : Except Failure Bool := do
  if (← node.field "OperationType").isStr then pure true else typesNamed node

def isVariableNode (node : Json) : Except Failure Bool := do
  match ← node.field "OperationType" with
  | .str s => pure (lower (trim s) == "variable")
  | _ => pure false

/-- Does some node that is no variable write anything by name? Variables always do, so they tell nothing. -/
def graphNamed : List Json→Except Failure Bool
  | [] => .ok false
  | node::rest => do
    if ← isVariableNode node then graphNamed rest
    else if ← nodeNamed node then pure true
    else graphNamed rest

def schemaOf (nodes : Json) : Except Failure Schema := do
  pure (.ofNames (← graphNamed (← (nodes.orElse (.arr [])).each)))

def anyTypesNamed : List Json→Except Failure Bool
  | [] => .ok false
  | node::rest => do if ← typesNamed node then pure true else anyTypesNamed rest

def allVariables : List Json→Except Failure Bool
  | [] => .ok true
  | node::rest => do if ← isVariableNode node then allVariables rest else pure false

/-- The schema for a new variable: that of the other nodes, or of the variables if there are no others. -/
def schemaForVariable (nodes : Json) : Except Failure Schema := do
  let items ← (nodes.orElse (.arr [])).each
  if ← graphNamed items then pure .names
  else if ← allVariables items then pure (.ofNames (← anyTypesNamed items))
  else pure .numbers

def operationsNamed : List Json→Except Failure Bool
  | [] => .ok false
  | node::rest => do if (← node.field "OperationType").isStr then pure true else operationsNamed rest

def catalogueWords : List (String×String) :=
  [("decimal","Number"),("number","Number"),("string","String"),("vector","Vector"),("entity","Entity"),
    ("signal","Entity"),("integernumber","IntegerNumber"),("arraynumber","ArrayNumber"),
    ("arraystring","ArrayString"),("arrayvector","ArrayVector"),("arrayentity","ArrayEntity"),("any","Any")]

def canonicalName? (t : Json) : Except Failure (Option String) :=
  match t with
  | .int n => .ok ((GateType.ofCode? n).map GateType.name)
  | .str text =>
    let s := trim text
    if s.isEmpty then .ok none
    else if allDigits s then do
      pure ((GateType.ofCode? (← Json.readDigits s)).map GateType.name)
    else
      let key := lower (String.ofList (s.toList.filter fun c => c != '_' && c != ' '))
      .ok (some ((catalogueWords.lookup key).getD s))
  | _ => .ok none

def catalogueType (schema : Schema) (t : Json) : Except Failure Json := do
  match ← canonicalName? t with
  | none => pure t
  | some name =>
    match schema with
    | .names => pure (.str name)
    | .numbers =>
      if name == "IntegerNumber" then pure (.int 2)
      else pure (.int (((GateType.ofName? name).map GateType.code).getD 0))

/-- Type of an end of the chip in a schema: a code or name is put into the form of the schema. -/
def endType (schema : Schema) (t : Json) : Json :=
  match schema, t.asInt?, t with
  | .names, some n, _ => (((GateType.ofCode? n).map fun g => Json.str g.name).getD t)
  | .numbers, _, .str s => (((GateType.ofName? (trim s)).map fun g => Json.int g.code).getD t)
  | _, _, _ => t

def endTypeWord (schema : Schema) (t : Json) : String :=
  match t.asInt?, t with
  | some n, _ => ((GateType.ofCode? n).map GateType.name).getD "Number"
  | none, .str s =>
    let word := trim s
    match schema with
    | .names => if word.isEmpty then "Number" else word
    | .numbers => if (GateType.ofName? word).isSome then word else "Number"
  | none, _ => "Number"

/-- A new type of a node in a schema: names only stand for the eight types. -/
def newType (schema : Schema) (t : Json) : Except Failure Json :=
  match schema with
  | .numbers => .ok t
  | .names => do pure (((← typeOfCode? t).map fun g => Json.str g.name).getD t)

end ChipForge.Save
