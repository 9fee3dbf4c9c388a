import ChipForge.Json.Basic

/-! Numbers of a save: whole numbers and binary64 numbers are kept apart. A whole number joins a binary64 number as the
nearest one; comparison is exact. -/
namespace ChipForge

inductive Number
  | int (n : Int)
  | float (x : Float)

namespace Number

def toFloat : Number→Float
  | int n => Decimal.ofInt n
  | float x => x

def toJson : Number→Json
  | int n => .int n
  | float x => .float x

def ofJson? : Json→Option Number
  | .int n => some (int n)
  | .bool b => some (int (if b then 1 else 0))
  | .float x => some (float x)
  | _ => none

def add : Number→Number→Number
  | int a, int b => int (a+b)
  | a, b => float (a.toFloat+b.toFloat)

def sub : Number→Number→Number
  | int a, int b => int (a - b)
  | a, b => float (a.toFloat - b.toFloat)

def mul : Number→Number→Number
  | int a, int b => int (a * b)
  | a, b => float (a.toFloat * b.toFloat)

def div (a b : Number) : Number := float (a.toFloat / b.toFloat)

def intBelow (n : Int) (x : Float) : Bool :=
  match Decimal.truncate x with
  | some t => if Decimal.isWhole x || x < 0.0 then n < t else n ≤ t
  | none => x > 0.0

def belowInt (x : Float) (n : Int) : Bool :=
  match Decimal.truncate x with
  | some t => if Decimal.isWhole x || x > 0.0 then t < n else t ≤ n
  | none => x < 0.0

def lt : Number→Number→Bool
  | int a, int b => a < b
  | int a, float x => intBelow a x
  | float x, int b => belowInt x b
  | float x, float y => x < y

end Number

end ChipForge
