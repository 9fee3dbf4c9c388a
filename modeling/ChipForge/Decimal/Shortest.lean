/-! The shortest decimal that reads back as a given binary64 number, and the text written for it.

A finite number is `m * 2 ^ q`. The reals that round to it form an interval around it, with its ends included
exactly when `m` is even. Of the decimals with the fewest digits inside that interval the nearest is taken, and an
exact tie goes to the even last digit. -/
namespace ChipForge.Decimal

/-- A finite positive binary64 number `mantissa * 2 ^ exponent`. `narrowBelow` says that the next number below is
only half as far away as the next one above. -/
structure Dyadic where
  mantissa : Nat
  exponent : Int
  narrowBelow : Bool

/-- What the sixty-four bits of a number stand for, sign apart. -/
inductive Magnitude
  | zero
  | finite (d : Dyadic)
  | infinite
  | undefined

def decode (x : Float) : Bool×Magnitude :=
  let bits : Nat := x.toBits.toNat
  let negative := bits >>> 63 == 1
  let field : Nat := (bits >>> 52) % 2048
  let fraction : Nat := bits % (1 <<< 52)
  let magnitude :=
    if field == 2047 then (if fraction == 0 then .infinite else .undefined)
    else if field == 0 then
      (if fraction == 0 then .zero else .finite ⟨fraction,-1074,false⟩)
    else .finite ⟨fraction+(1 <<< 52),(field : Int) - 1075,fraction == 0 && field != 1⟩
  (negative,magnitude)

/-- A positive rational as numerator and denominator. -/
structure Ratio where
  num : Nat
  den : Nat

namespace Ratio

def scale (r : Ratio) (base : Nat) (e : Int) : Ratio :=
  if 0 ≤ e then ⟨r.num * base.pow e.toNat,r.den⟩ else ⟨r.num,r.den * base.pow (-e).toNat⟩

def lt (a b : Ratio) : Bool := a.num * b.den < b.num * a.den

def le (a b : Ratio) : Bool := a.num * b.den ≤ b.num * a.den

def dist (a b : Ratio) : Ratio :=
  let u := a.num * b.den
  let v := b.num * a.den
  ⟨(u - v)+(v - u),a.den * b.den⟩

end Ratio

namespace Dyadic

def value (d : Dyadic) : Ratio := Ratio.scale ⟨d.mantissa,1⟩ 2 d.exponent

def lower (d : Dyadic) : Ratio :=
  if d.narrowBelow then Ratio.scale ⟨4 * d.mantissa - 1,1⟩ 2 (d.exponent - 2)
  else Ratio.scale ⟨2 * d.mantissa - 1,1⟩ 2 (d.exponent - 1)

def upper (d : Dyadic) : Ratio := Ratio.scale ⟨2 * d.mantissa+1,1⟩ 2 (d.exponent - 1)

def catches (d : Dyadic) (r : Ratio) : Bool :=
  if d.mantissa % 2 == 0 then d.lower.le r && r.le d.upper else d.lower.lt r && r.lt d.upper

end Dyadic

/-- `digits * 10 ^ exponent`. -/
structure Digits where
  digits : Nat
  exponent : Int

/-- The exponent `k` with `10 ^ (k - 1) ≤ r < 10 ^ k`, searched from a starting guess. -/
def decimalExponent (r : Ratio) : Nat → Int → Int
  | 0, k => k
  | fuel+1, k =>
    if r.lt (Ratio.scale ⟨1,1⟩ 10 (k - 1)) then decimalExponent r fuel (k - 1)
    else if (Ratio.scale ⟨1,1⟩ 10 k).le r then decimalExponent r fuel (k+1)
    else k

/-- The best decimal with its last digit at `10 ^ e`, if one of the two neighbours on that grid reads back. -/
def onGrid (d : Dyadic) (e : Int) : Option Digits :=
  let v := d.value
  let scaled := v.scale 10 (-e)
  let below := scaled.num / scaled.den
  let point (n : Nat) : Ratio := Ratio.scale ⟨n,1⟩ 10 e
  let hit (n : Nat) : Bool := n != 0 && d.catches (point n)
  match hit below, hit (below+1) with
  | false, false => none
  | true, false => some ⟨below,e⟩
  | false, true => some ⟨below+1,e⟩
  | true, true =>
    let down := v.dist (point below)
    let up := v.dist (point (below+1))
    if down.lt up then some ⟨below,e⟩
    else if up.lt down then some ⟨below+1,e⟩
    else if below % 2 == 0 then some ⟨below,e⟩ else some ⟨below+1,e⟩

/-- Tries grids of growing fineness. Seventeen digits always suffice. -/
def searchGrids (d : Dyadic) (k : Int) : Nat → Int→Digits
  | 0, n => ⟨(d.value.scale 10 (n - k)).num / (d.value.scale 10 (n - k)).den,k - n⟩
  | fuel+1, n =>
    match onGrid d (k - n) with
    | some r => r
    | none => searchGrids d k fuel (n+1)

def Digits.trim (r : Digits) : Nat→Digits
  | 0 => r
  | fuel+1 =>
    if r.digits != 0 && r.digits % 10 == 0 then Digits.trim ⟨r.digits / 10,r.exponent+1⟩ fuel else r

/-- The decimal with the fewest digits that reads back as the number. -/
def shortest (d : Dyadic) : Digits :=
  let bits : Int := (Nat.log2 d.mantissa : Int)+d.exponent
  let guess : Int := Int.fdiv (bits * 30103) 100000+1
  let k := decimalExponent d.value 400 guess
  (searchGrids d k 17 1).trim 400

/-- How a decimal is laid out as text. -/
structure Layout where
  /-- Positional notation is used while the decimal point, counted from the first digit, lies in this range. -/
  firstPositional : Int
  lastPositional : Int
  wholeTail : String
  exponentMark : String
  exponentWidth : Nat
  infinite : String
  undefined : String

/-- Positional from `1e-4` up to below `1e16`, otherwise one digit before the point and a signed exponent. -/
def Layout.standard : Layout := ⟨-3,16,".0","e",2,"inf","nan"⟩

def zeros (n : Nat) : String := String.ofList (List.replicate n '0')

def Layout.digits (style : Layout) (r : Digits) : String :=
  let ds := (toString r.digits).toList
  let n : Int := ds.length
  let point := r.exponent+n
  if style.firstPositional ≤ point && point ≤ style.lastPositional then
    if point≤0 then "0." ++ zeros (-point).toNat++String.ofList ds
    else if n ≤ point then String.ofList ds++zeros (point - n).toNat++style.wholeTail
    else String.ofList (ds.take point.toNat) ++ "." ++ String.ofList (ds.drop point.toNat)
  else
    let e := point - 1
    let mag := toString e.natAbs
    let padded := zeros (style.exponentWidth - mag.length)++mag
    let fraction := if ds.length≤1 then "" else "." ++ String.ofList (ds.drop 1)
    String.ofList (ds.take 1)++fraction++style.exponentMark++(if e < 0 then "-" else "+")++padded

def Layout.write (style : Layout) (x : Float) : String :=
  let (negative,magnitude) := decode x
  let body := match magnitude with
    | .zero => "0" ++ style.wholeTail
    | .finite d => style.digits (shortest d)
    | .infinite => style.infinite
    | .undefined => style.undefined
  match magnitude with
  | .undefined => body
  | _ => if negative then "-" ++ body else body

/-- The shortest text of a number: `1.0`, `-0.0`, `1e+16`, `0.1`, `inf`. -/
def text (x : Float) : String := Layout.standard.write x

/-- Reads `digits * 10 ^ exponent`, rounded to the nearest number. -/
def ofDigits (digits : Nat) (exponent : Int) : Float :=
  if exponent < 0 then Float.ofScientific digits true (-exponent).toNat
  else Float.ofScientific digits false exponent.toNat

/-- The number nearest to `digits * 10 ^ exponent`; exponents far outside the range are clipped first. -/
def nearest (digits : Nat) (exponent : Int) : Float :=
  if digits == 0 then 0.0
  else if exponent > 400 then ofDigits 1 400
  else if exponent+(toString digits).length < -400 then 0.0
  else ofDigits digits exponent

def truncate (x : Float) : Option Int :=
  match decode x with
  | (_,.zero) => some 0
  | (negative,.finite d) =>
    let r := d.value
    let n : Int := Int.ofNat (r.num / r.den)
    some (if negative then -n else n)
  | _ => none

def isWhole (x : Float) : Bool :=
  match decode x with
  | (_,.zero) => true
  | (_,.finite d) => let r := d.value; r.num % r.den == 0
  | _ => false

def Ratio.round (r : Ratio) : Nat :=
  let low := r.num / r.den
  let rest := 2 * (r.num % r.den)
  if r.den < rest || (rest == r.den && low % 2 == 1) then low+1 else low

def round (x : Float) : Option Int :=
  match decode x with
  | (_,.zero) => some 0
  | (negative,.finite d) =>
    let n : Int := Int.ofNat d.value.round
    some (if negative then -n else n)
  | _ => none

def roundTenths (x : Float) : Float :=
  match decode x with
  | (negative,.finite d) =>
    let near := nearest (Ratio.round ⟨10 * d.value.num,d.value.den⟩) (-1)
    if negative then -near else near
  | _ => x

def ofInt (n : Int) : Float :=
  if n < 0 then -(Float.ofScientific n.natAbs false 0) else Float.ofScientific n.natAbs false 0

def ofInt? (n : Int) : Option Float := if n.natAbs < (1 <<< 1024) - (1 <<< 970) then some (ofInt n) else none

end ChipForge.Decimal
