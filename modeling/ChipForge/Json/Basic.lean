import ChipForge.Decimal.Shortest
import ChipForge.Text.Quoted

/-! Values of the save format: whole numbers and binary64 numbers are kept apart, and a record keeps the order in
which its fields were first written. -/
namespace ChipForge

/-- A value of the save format. -/
inductive Json
  | null
  | bool (b : Bool)
  | int (n : Int)
  | float (x : Float)
  | str (s : String)
  | arr (items : List Json)
  | obj (fields : List (String×Json))

instance : Inhabited Json := ⟨.null⟩

namespace Json

def lookup (key : String) : List (String×Json)→Option Json
  | [] => none
  | (k,v)::rest => if k == key then some v else lookup key rest

/-- Overwrites a field in place, or adds it at the end. -/
def insert (key : String) (value : Json) : List (String×Json)→List (String×Json)
  | [] => [(key,value)]
  | (k,v)::rest => if k == key then (k,value)::rest else (k,v)::insert key value rest

/-- Builds a record field by field; a repeated name keeps its first place and its last value. -/
def ofFields (fields : List (String×Json)) : Json :=
  .obj (fields.foldl (fun acc (k,v) => insert k v acc) [])

def get? (v : Json) (key : String) : Option Json :=
  match v with
  | .obj fields => lookup key fields
  | _ => none

def set (v : Json) (key : String) (value : Json) : Json :=
  match v with
  | .obj fields => .obj (insert key value fields)
  | other => other

/-- Truth of a value: empty, zero and null are false. -/
def truthy : Json→Bool
  | .null => false
  | .bool b => b
  | .int n => n != 0
  | .float x => !(x == 0.0)
  | .str s => !s.isEmpty
  | .arr items => !items.isEmpty
  | .obj fields => !fields.isEmpty

/-- A whole number; the truth values count as one and zero. -/
def asInt? : Json→Option Int
  | .int n => some n
  | .bool b => some (if b then 1 else 0)
  | _ => none

def asStr? : Json→Option String
  | .str s => some s
  | _ => none

def asArr? : Json→Option (List Json)
  | .arr items => some items
  | _ => none

def asObj? : Json→Option (List (String×Json))
  | .obj fields => some fields
  | _ => none

def isStr (v : Json) : Bool := v.asStr?.isSome

def isObj (v : Json) : Bool := v.asObj?.isSome

def isNull : Json→Bool
  | .null => true
  | _ => false

/-- Compares a whole number with a binary64 number exactly. -/
def intEqFloat (n : Int) (x : Float) : Bool := Decimal.isWhole x && Decimal.truncate x == some n

mutual

/-- Equality of values: numbers by value whatever their form, truth values as numbers, records up to order. -/
def same : Json→Json→Bool
  | .null, .null => true
  | .bool a, .bool b => a == b
  | .bool a, .int n => n == (if a then 1 else 0)
  | .bool a, .float x => intEqFloat (if a then 1 else 0) x
  | .int n, .bool b => n == (if b then 1 else 0)
  | .int n, .int m => n == m
  | .int n, .float x => intEqFloat n x
  | .float x, .bool b => intEqFloat (if b then 1 else 0) x
  | .float x, .int n => intEqFloat n x
  | .float x, .float y => x == y
  | .str a, .str b => a == b
  | .arr xs, .arr ys => sameItems xs ys
  | .obj xs, .obj ys => xs.length == ys.length && sameFields xs ys
  | _, _ => false

def sameItems : List Json→List Json→Bool
  | [], [] => true
  | x::xs, y::ys => same x y && sameItems xs ys
  | _, _ => false

/-- Every field of the first list has an equal field of the same name in the second. -/
def sameFields : List (String×Json)→List (String×Json)→Bool
  | [], _ => true
  | (k,v)::rest, ys =>
    (match lookup k ys with
      | some w => same v w
      | none => false) && sameFields rest ys

end

mutual

def shown : Json→String
  | .null => "None"
  | .bool true => "True"
  | .bool false => "False"
  | .int n => toString n
  | .float x => Decimal.text x
  | .str s => Text.quoted s
  | .arr items => "[" ++ String.intercalate ", " (shownItems items) ++ "]"
  | .obj fields => "\x7b" ++ String.intercalate ", " (shownFields fields) ++ "\x7d"

def shownItems : List Json→List String
  | [] => []
  | v::rest => shown v::shownItems rest

def shownFields : List (String×Json)→List String
  | [] => []
  | (k,v)::rest => (Text.quoted k ++ ": " ++ shown v)::shownFields rest

end

/-- Text of a value in running words: text itself without quotes, all else as shown. -/
def plain : Json→String
  | .str s => s
  | v => shown v

def kindName : Json→String
  | .null => "NoneType"
  | .bool _ => "bool"
  | .int _ => "int"
  | .float _ => "float"
  | .str _ => "str"
  | .arr _ => "list"
  | .obj _ => "dict"

end Json

end ChipForge
