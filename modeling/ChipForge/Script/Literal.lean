import ChipForge.Script.Syntax
import ChipForge.Json.Basic

/-! Values that a script can write down literally, and the evaluation of literal expressions. -/
namespace ChipForge.Script

/-- A literal value. A table keeps its entries in the order of their first writing. -/
inductive Literal
  | none
  | bool (b : Bool)
  | int (n : Int)
  | float (x : Float)
  | complex (re im : Float)
  | str (s : String)
  | bytes (bs : List Nat)
  | ellipsis
  | tuple (items : List Literal)
  | list (items : List Literal)
  | set (items : List Literal)
  | dict (entries : List (Literal×Literal))

instance : Inhabited Literal := ⟨.none⟩

namespace Literal

/-- The number a value counts as, with an imaginary part. -/
inductive Numeric
  | int (n : Int)
  | float (x : Float)
  | complex (re im : Float)

def numeric? : Literal→Option Numeric
  | .bool b => some (.int (if b then 1 else 0))
  | .int n => some (.int n)
  | .float x => some (.float x)
  | .complex re im => some (.complex re im)
  | _ => Option.none

def Numeric.same : Numeric→Numeric→Bool
  | .int a, .int b => a == b
  | .int a, .float x => Json.intEqFloat a x
  | .float x, .int a => Json.intEqFloat a x
  | .float x, .float y => x == y
  | .complex a b, .complex c d => a == c && b == d
  | .complex a b, .int n => Json.intEqFloat n a && b == 0.0
  | .complex a b, .float x => a == x && b == 0.0
  | .int n, .complex a b => Json.intEqFloat n a && b == 0.0
  | .float x, .complex a b => a == x && b == 0.0

mutual

/-- Equality of values: numbers by value, sets and tables up to order. -/
def same : Literal→Literal→Bool
  | .none, .none => true
  | .ellipsis, .ellipsis => true
  | .str a, .str b => a == b
  | .bytes a, .bytes b => a == b
  | .tuple xs, .tuple ys => sameItems xs ys
  | .list xs, .list ys => sameItems xs ys
  | .set xs, .set ys => xs.length == ys.length && allIn xs ys
  | .dict xs, .dict ys => xs.length == ys.length && entriesIn xs ys
  | a, b =>
    match numeric? a, numeric? b with
    | some m, some n => m.same n
    | _, _ => false

def sameItems : List Literal→List Literal→Bool
  | [], [] => true
  | x::xs, y::ys => same x y && sameItems xs ys
  | _, _ => false

def allIn : List Literal→List Literal→Bool
  | [], _ => true
  | x::xs, ys => ys.any (same x) && allIn xs ys

def entriesIn : List (Literal×Literal)→List (Literal×Literal)→Bool
  | [], _ => true
  | (k,v)::rest, ys => ys.any (fun (k',v') => same k k' && same v v') && entriesIn rest ys

end

mutual

def hashable : Literal→Bool
  | .list _ => false
  | .set _ => false
  | .dict _ => false
  | .tuple items => allHashable items
  | _ => true

def allHashable : List Literal→Bool
  | [] => true
  | x::rest => hashable x && allHashable rest

end

def insertEntry (key value : Literal) : List (Literal×Literal)→List (Literal×Literal)
  | [] => [(key,value)]
  | (k,v)::rest => if same k key then (k,value)::rest else (k,v)::insertEntry key value rest

def insertMember (x : Literal) (items : List Literal) : List Literal :=
  if items.any (same x) then items else items++[x]

def get? (v : Literal) (key : String) : Option Literal :=
  match v with
  | .dict entries => (entries.find? fun (k,_) => same k (.str key)).map (·.2)
  | _ => Option.none

def hasKeys (v : Literal) (keys : List String) : Bool :=
  match v with
  | .dict _ => keys.all fun k => (v.get? k).isSome
  | _ => false

/-- A point in space is a table with at least the three coordinates. -/
def isVector (v : Literal) : Bool := v.hasKeys ["x","y","z"]

def isNumber : Literal→Bool
  | .bool _ => true
  | .int _ => true
  | .float _ => true
  | _ => false

def isStr : Literal→Bool
  | .str _ => true
  | _ => false

def isSequence : Literal→Bool
  | .list _ => true
  | .tuple _ => true
  | _ => false

def imaginaryText (x : Float) : String := { Decimal.Layout.standard with wholeTail := "" }.write x

def complexText (re im : Float) : String :=
  if re == 0.0 && !(Decimal.decode re).1 then imaginaryText im ++ "j"
  else
    let second := imaginaryText im
    let sign := if Text.startsWith second "-" then "" else "+"
    "(" ++ imaginaryText re++sign++second ++ "j)"

mutual

def shown : Literal→String
  | .none => "None"
  | .bool true => "True"
  | .bool false => "False"
  | .int n => toString n
  | .float x => Decimal.text x
  | .complex re im => complexText re im
  | .str s => Text.quoted s
  | .bytes bs => Text.quotedBytes bs
  | .ellipsis => "Ellipsis"
  | .tuple [x] => "(" ++ shown x ++ ",)"
  | .tuple items => "(" ++ String.intercalate ", " (shownItems items) ++ ")"
  | .list items => "[" ++ String.intercalate ", " (shownItems items) ++ "]"
  | .set [] => "set()"
  | .set items => "\x7b" ++ String.intercalate ", " (shownItems items) ++ "\x7d"
  | .dict entries => "\x7b" ++ String.intercalate ", " (shownEntries entries) ++ "\x7d"

def shownItems : List Literal→List String
  | [] => []
  | v::rest => shown v::shownItems rest

def shownEntries : List (Literal×Literal)→List String
  | [] => []
  | (k,v)::rest => (shown k ++ ": " ++ shown v)::shownEntries rest

end

def plain : Literal→String
  | .str s => s
  | v => shown v

def fieldName? : Literal→Option String
  | .str s => some s
  | .none => some "null"
  | .bool true => some "true"
  | .bool false => some "false"
  | .int n => some (toString n)
  | .float x => some ({ Decimal.Layout.standard with infinite := "Infinity", undefined := "NaN" }.write x)
  | _ => Option.none

mutual

/-- The value in the save format, unless it holds something the format lacks. Equal field names stay side by side. -/
def toJson? : Literal→Option Json
  | .none => some .null
  | .bool b => some (.bool b)
  | .int n => some (.int n)
  | .float x => some (.float x)
  | .str s => some (.str s)
  | .tuple items => (itemsToJson? items).map .arr
  | .list items => (itemsToJson? items).map .arr
  | .dict entries => (entriesToJson? entries).map .obj
  | _ => Option.none

def itemsToJson? : List Literal→Option (List Json)
  | [] => some []
  | v::rest => do
    let j ← toJson? v
    let js ← itemsToJson? rest
    pure (j::js)

def entriesToJson? : List (Literal×Literal)→Option (List (String×Json))
  | [] => some []
  | (k,v)::rest => do
    let name ← fieldName? k
    let j ← toJson? v
    let js ← entriesToJson? rest
    pure ((name,j)::js)

end

mutual

def ofJson : Json→Literal
  | .null => .none
  | .bool b => .bool b
  | .int n => .int n
  | .float x => .float x
  | .str s => .str s
  | .arr items => .list (ofJsonItems items)
  | .obj fields => .dict (ofJsonFields fields)

def ofJsonItems : List Json→List Literal
  | [] => []
  | v::rest => ofJson v::ofJsonItems rest

def ofJsonFields : List (String×Json)→List (Literal×Literal)
  | [] => []
  | (k,v)::rest => (.str k,ofJson v)::ofJsonFields rest

end

/-- Why an expression is no literal. -/
inductive Fault
  /-- It holds something that is no literal. -/
  | malformed
  /-- It uses a list, set or table as a key or member. -/
  | unhashable
  deriving DecidableEq, Repr

def ofConst : Const→Literal
  | .none => .none
  | .bool b => .bool b
  | .int n => .int n
  | .float x => .float x
  | .imaginary x => .complex 0.0 x
  | .str s _ => .str s
  | .bytes bs => .bytes bs
  | .ellipsis => .ellipsis

def ofNumber : Expr→Except Fault Literal
  | .const (.int n) => .ok (.int n)
  | .const (.float x) => .ok (.float x)
  | .const (.imaginary x) => .ok (.complex 0.0 x)
  | _ => .error .malformed

def negated : Literal→Literal
  | .int n => .int (-n)
  | .float x => .float (-x)
  | .complex re im => .complex (-re) (-im)
  | v => v

def ofSigned : Expr→Except Fault Literal
  | .unary _ .plus operand => ofNumber operand
  | .unary _ .minus operand => (ofNumber operand).map negated
  | e => ofNumber e

def ofSum (left right : Expr) (subtract : Bool) : Except Fault Literal := do
  let l ← ofSigned left
  let r ← ofNumber right
  let re ← match l with
    | .int n => pure (Decimal.ofInt n)
    | .float x => pure x
    | _ => throw .malformed
  match r with
  | .complex a b => pure (if subtract then .complex (re - a) (-b) else .complex (re+a) b)
  | _ => throw .malformed

def asKey (v : Literal) : Except Fault Literal := if v.hashable then .ok v else .error .unhashable

def setOf (items : List Literal) : Literal := .set (items.foldl (fun acc x => insertMember x acc) [])

def dictOf (entries : List (Literal×Literal)) : Literal :=
  .dict (entries.foldl (fun acc (k,v) => insertEntry k v acc) [])

mutual

def ofExpr : Expr→Except Fault Literal
  | .const c => .ok (ofConst c)
  | .tuple items => (ofExprs items).map .tuple
  | .list items => (ofExprs items).map .list
  | .set items => (ofMembers items).map setOf
  | .call _ (.name "set") [] [] => .ok (.set [])
  | .dict items => (ofItems items).map dictOf
  | .binary left .add right => ofSum left right false
  | .binary left .sub right => ofSum left right true
  | e => ofSigned e

def ofExprs : List Expr→Except Fault (List Literal)
  | [] => .ok []
  | e::rest => do
    let v ← ofExpr e
    let vs ← ofExprs rest
    pure (v::vs)

def ofMembers : List Expr→Except Fault (List Literal)
  | [] => .ok []
  | e::rest => do
    let v ← ofExpr e
    let v ← asKey v
    let vs ← ofMembers rest
    pure (v::vs)

def ofItems : List DictItem→Except Fault (List (Literal×Literal))
  | [] => .ok []
  | .mk Option.none _ :: _ => .error .malformed
  | .mk (some key) value::rest => do
    let k ← ofExpr key
    let v ← ofExpr value
    let k ← asKey k
    let vs ← ofItems rest
    pure ((k,v)::vs)

end

def ofExpr? (e : Expr) : Option Literal := (ofExpr e).toOption

end Literal

end ChipForge.Script
