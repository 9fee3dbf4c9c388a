import ChipForge.GateType
import ChipForge.Wiring.ModuleName

/-! Types of expressions as far as they can be told before the chip exists: from literals, from the types of names and
from the first output of a module. -/
namespace ChipForge.Wiring
open Script Text

/-- Kinds of literals that arithmetic tells apart. -/
inductive LiteralKind
  | number | string | vector | array | none | other
  deriving DecidableEq, Repr

def LiteralKind.name : LiteralKind→String
  | number => "number"
  | string => "string"
  | vector => "vector"
  | array => "array"
  | none => "none"
  | other => "other"

def LiteralKind.ofLiteral (v : Literal) : LiteralKind :=
  if v.isNumber then .number
  else if v.isStr then .string
  else if v.isVector then .vector
  else if v.isSequence then .array
  else match v with
    | .none => .none
    | _ => .other

def literalKind? (e : Expr) : Option LiteralKind := (Literal.ofExpr? e).map LiteralKind.ofLiteral

def typeOfLiteral? : Literal→Option GateType
  | .int n => GateType.ofCode? n
  | .str s => GateType.named? s
  | _ => none

def typeOfJson? : Json→Option GateType
  | .int n => GateType.ofCode? n
  | .str s => GateType.named? s
  | _ => none

def isPlainNumber : Literal→Bool
  | .int _ => true
  | .float _ => true
  | _ => false

/-- Type of a literal value. A list has a type when its items are of one kind. -/
def literalType? (v : Literal) : Option GateType :=
  if v.isNumber then some .number
  else if v.isStr then some .string
  else if v.isVector then some .vector
  else
    let ofItems (items : List Literal) : Option GateType :=
      if items.isEmpty then none
      else if items.all isPlainNumber then some .arrayNumber
      else if items.all Literal.isStr then some .arrayString
      else if items.all Literal.isVector then some .arrayVector
      else none
    match v with
    | .list items => ofItems items
    | .tuple items => ofItems items
    | _ => none

/-- The value a wire of a type has when nothing is connected. -/
def emptyLiteral (typeName : String) : Literal :=
  if typeName == "Entity" then .none
  else if typeName == "String" then .str ""
  else if typeName == "Vector" then
    .dict [(.str "x",.float 0.0),(.str "y",.float 0.0),(.str "z",.float 0.0)]
  else if startsWith typeName "Array" then .list []
  else .float 0.0

/-- Letters and digits of a module name in small letters. -/
def typeKey (name : String) : String := String.ofList ((lower name).toList.filter isAlphanumeric)

abbrev OutputTypes := List (String×Option GateType)

namespace OutputTypes

/-- Sets an entry; the last one set is found first. -/
def put (types : OutputTypes) (name : String) (t : Option GateType) : OutputTypes :=
  (typeKey (canonicalModule name),t)::types

def find (types : OutputTypes) (name : String) : Option GateType :=
  (types.lookup (typeKey (canonicalModule name))).join

def firstOutput (module : Json) : Option GateType :=
  match module.get? "outputs" with
  | some (.arr (first::_)) => (first.get? "type").bind typeOfJson?
  | _ => none

def moduleNames (key : String) (module : Json) : List String :=
  let source := (module.get? "source_info").getD .null
  let given := [some (.str key),module.get? "id",source.get? "datatype_map_nodename",
    source.get? "chip_names_friendly_name"]
  given.filterMap fun v =>
    match v with
    | some (.str s) => if (trim s).isEmpty then none else some s
    | _ => none

def ofCatalogue (catalogue : Json) : OutputTypes :=
  match catalogue with
  | .obj fields =>
    fields.foldl (fun types (key,module) =>
      if module.isObj then
        (moduleNames key module).foldl (fun acc name => acc.put name (firstOutput module)) types
      else types) []
  | _ => []

end OutputTypes

/-- Two types that should be one. -/
structure TypeClash where
  line : Option Nat
  left : Option GateType
  right : Option GateType
  target : Option GateType

def mergeTypes (left right target : Option GateType) (line : Option Nat) : Except TypeClash (Option GateType) :=
  match [left,right,target].filterMap id with
  | [] => .ok none
  | first::rest => if rest.all (· == first) then .ok (some first) else .error ⟨line,left,right,target⟩

def binaryType (op : BinaryOp) (left right : Option GateType) : Option GateType :=
  if left == some .vector || right == some .vector then
    match op with
    | .add => if left == right then some .vector else none
    | .sub => if left == right then some .vector else none
    | .mul => if left == some .number || right == some .number then some .vector else none
    | .div => if left == some .number || right == some .number then some .vector else none
    | _ => none
  else if left == some .string || right == some .string then
    if op == .add && left == right then some .string else none
  else if left == some .number || right == some .number then some .number
  else none

/-- The type an argument names, as a literal or as a bare word. -/
def namedType? (e : Expr) : Option GateType :=
  match Literal.ofExpr? e with
  | some v => typeOfLiteral? v
  | none =>
    match e with
    | .name id => GateType.named? id
    | _ => none

def inputType? (args : List Expr) (keywords : List Keyword) : Option GateType :=
  let asked := keywords.find? fun k =>
    match k.name with
    | some n => lower n == "data_type" || lower n == "datatype"
    | none => false
  match asked with
  | some k => namedType? k.value
  | none =>
    match args with
    | _ :: second::_ => namedType? second
    | _ => none

/-- What the typing of expressions looks at. -/
structure TypeContext where
  names : List (String×GateType)
  outputs : OutputTypes

abbrev Typed := Except TypeClash (Option GateType)

def keywordResult? (name : String) (names : List (Option String)) (results : List Typed) : Option Typed :=
  ((names.zip results).reverse.find? fun (n,_) => n == some name).map (·.2)

mutual

def typeOfExpr (c : TypeContext) : Expr→Typed
  | .name id => .ok (c.names.lookup id)
  | .compare _ _ _ => .ok (some .number)
  | .boolOp _ _ _ => .ok (some .number)
  | .unary _ .not _ => .ok (some .number)
  | e@(.unary _ _ operand) =>
    match (Literal.ofExpr? e).bind literalType? with
    | some t => .ok (some t)
    | none => typeOfExpr c operand
  | e@(.binary left op right) =>
    match (Literal.ofExpr? e).bind literalType? with
    | some t => .ok (some t)
    | none => do
      let l ← typeOfExpr c left
      let r ← typeOfExpr c right
      pure (binaryType op l r)
  | .cond line _ body orelse => do
    let l ← typeOfExpr c body
    let r ← typeOfExpr c orelse
    mergeTypes l r none (some line)
  | .call line fn args keywords =>
    let module := canonicalModule (calledName fn)
    let word := lower module
    if word == "input" then .ok (inputType? args keywords)
    else if word == "set" && !args.isEmpty then
      match args with
      | .name id::_ => .ok (c.names.lookup id)
      | _ => .ok none
    else if word == "branch" then
      let given := typesOfExprs c args
      let named := typesOfKeywords c keywords
      let names := keywords.map Keyword.name
      let side (name : String) (i : Nat) : Typed :=
        match keywordResult? name names named with
        | some t => t
        | none => (given.drop i).headD (.ok none)
      do
        let l ← side "A" 1
        let r ← side "B" 2
        mergeTypes l r none (some line)
    else .ok (c.outputs.find module)
  | .subscript (.name id) _ => .ok (c.names.lookup id)
  | e => .ok ((Literal.ofExpr? e).bind literalType?)

def typesOfExprs (c : TypeContext) : List Expr→List Typed
  | [] => []
  | e::rest => typeOfExpr c e::typesOfExprs c rest

def typesOfKeywords (c : TypeContext) : List Keyword→List Typed
  | [] => []
  | .mk _ value::rest => typeOfExpr c value::typesOfKeywords c rest

end

end ChipForge.Wiring
