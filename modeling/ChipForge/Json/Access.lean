import ChipForge.Decimal.Reader
import ChipForge.Failure
import ChipForge.Json.Reader

/-! Access to parts of a value that should be records and lists but may be anything. A fault tells what was missing. -/
namespace ChipForge.Json
open Text

def noMember {α : Type} (v : Json) (name : String) : Except Failure α :=
  .error (.fault .noMember ("'" ++ v.kindName ++ "' object has no attribute '" ++ name ++ "'"))

def missingKey {α : Type} (text : String) : Except Failure α := .error (.fault .missingKey text)

def notSubscriptable {α : Type} (v : Json) : Except Failure α :=
  .error (.fault .wrongKind ("'" ++ v.kindName ++ "' object is not subscriptable"))

def field? (v : Json) (key : String) : Except Failure (Option Json) :=
  match v with
  | .obj fields => .ok (lookup key fields)
  | other => noMember other "get"

def field (v : Json) (key : String) : Except Failure Json := (v.field? key).map (·.getD .null)

def fieldOr (v : Json) (key : String) (default : Json) : Except Failure Json := (v.field? key).map (·.getD default)

def item (v : Json) (key : String) : Except Failure Json :=
  match v with
  | .obj fields =>
    match lookup key fields with
    | some x => .ok x
    | none => missingKey (quoted key)
  | .arr _ => .error (.fault .wrongKind "list indices must be integers or slices, not str")
  | .str _ => .error (.fault .wrongKind "string indices must be integers, not 'str'")
  | other => notSubscriptable other

def itemAt (v : Json) (i : Nat) : Except Failure Json :=
  match v with
  | .arr items =>
    match items[i]? with
    | some x => .ok x
    | none => .error (.fault .outOfRange "list index out of range")
  | .str s =>
    match s.toList[i]? with
    | some c => .ok (.str c.toString)
    | none => .error (.fault .outOfRange "string index out of range")
  | .obj _ => missingKey (toString i)
  | other => notSubscriptable other

/-- The items of a list, the names of a record or the characters of a text. -/
def each (v : Json) : Except Failure (List Json) :=
  match v with
  | .arr items => .ok items
  | .obj fields => .ok (fields.map fun (k,_) => .str k)
  | .str s => .ok (s.toList.map fun c => .str c.toString)
  | other => .error (.fault .wrongKind ("'" ++ other.kindName ++ "' object is not iterable"))

def entries (v : Json) : Except Failure (List (String×Json)) :=
  match v with
  | .obj fields => .ok fields
  | other => noMember other "items"

/-- The text of a value that must be text; `use` names what is done with it. -/
def text (v : Json) (use : String) : Except Failure String :=
  match v with
  | .str s => .ok s
  | other => noMember other use

def orElse (v other : Json) : Json := if v.truthy then v else other

def size (v : Json) : Except Failure Nat :=
  match v with
  | .arr items => .ok items.length
  | .obj fields => .ok fields.length
  | .str s => .ok s.length
  | other => .error (.fault .wrongKind ("object of type '" ++ other.kindName ++ "' has no len()"))

def parseText (v : Json) : Except Failure Json :=
  match v with
  | .str s =>
    match parse s with
    | .ok x => .ok x
    | .error what => .error (.fault .malformedJson what)
  | other =>
    .error (.fault .wrongKind ("the JSON object must be str, bytes or bytearray, not " ++ other.kindName))

def isNumber : Json→Bool
  | .bool _ => true
  | .int _ => true
  | .float _ => true
  | _ => false

def toFloat (v : Json) : Except Failure Float :=
  match v with
  | .bool b => .ok (if b then 1.0 else 0.0)
  | .int n =>
    match Decimal.ofInt? n with
    | some x => .ok x
    | none => .error (.fault .overflow "int too large to convert to float")
  | .float x => .ok x
  | .str s =>
    match Decimal.read? s with
    | some x => .ok x
    | none => .error (.fault .badValue ("could not convert string to float: " ++ quoted s))
  | other =>
    .error (.fault .wrongKind ("float() argument must be a string or a real number, not '" ++ other.kindName ++ "'"))

def toFieldName (v : Json) : Except Failure String :=
  match v with
  | .str s => .ok s
  | .null => .ok "null"
  | .bool b => .ok (if b then "true" else "false")
  | .int n => .ok (toString n)
  | .float x => .ok (Decimal.text x)
  | other => .error (.fault .wrongKind ("unhashable type: '" ++ other.kindName ++ "'"))

/-- A text that two values share just when they are equal. Lists and records have none. -/
def keyText (v : Json) : Except Failure String :=
  match v with
  | .str s => .ok ("'" ++ s)
  | .bool b => .ok (if b then "1" else "0")
  | .float x =>
    match Decimal.isWhole x, Decimal.truncate x with
    | true, some n => .ok (toString n)
    | _, _ => .ok (Decimal.text x)
  | other => other.toFieldName

def readDigits (s : String) : Except Failure Int :=
  match readInt? s with
  | some n => .ok n
  | none => .error (.fault .badValue ("invalid literal for int() with base 10: " ++ quoted s))

def hasFields (v : Json) (keys : List String) : Bool :=
  match v with
  | .obj fields => keys.all fun k => (lookup k fields).isSome
  | _ => false

def isVector (v : Json) : Bool := v.hasFields ["x","y","z"]

def switch (v : Json) (default : Bool) : Bool :=
  match v with
  | .bool b => b
  | .int n => n != 0
  | .float x => !(x == 0.0)
  | .str s =>
    let word := lower (trim s)
    if ["true","1","yes","y","on"].contains word then true
    else if ["false","0","no","n","off",""].contains word then false
    else default
  | _ => default

end ChipForge.Json
