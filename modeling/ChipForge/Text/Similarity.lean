import ChipForge.Failure

/-! The closest of several names. Two texts are compared by the share of characters in common blocks: the longest common
block, then likewise to its left and to its right. Of equally close names the greater one is taken. -/
namespace ChipForge.Text

def nameKey (s : String) : String :=
  String.ofList ((lower s).toList.filter fun c => ('a' ≤ c && c ≤ 'z') || ('0' ≤ c && c ≤ '9'))

namespace Similarity

/-- A common block: where it starts in both texts, and its size. -/
structure Block where
  left : Nat
  right : Nat
  size : Nat

/-- In long texts, characters that make up more than a hundredth are too common to start a block. -/
def tooCommon (b : List Char) (c : Char) : Bool := 200 ≤ b.length && b.length / 100+1 < b.count c

/-- Lengths of the common blocks that end at a character of the left text, for every place of the right text. -/
def row (skip : Char→Bool) (c : Char) (above : List Nat) (b : List Char) : List Nat :=
  (b.zip (0::above)).map fun (d,k) => if d == c && !skip d then k+1 else 0

/-- The better of a block and those that end at place `i`, looked at from the left. -/
def improve (i : Nat) : Nat→List Nat→Block→Block
  | _, [], best => best
  | j, k::rest, best => improve i (j+1) rest (if best.size < k then ⟨i+1 - k,j+1 - k,k⟩ else best)

def scan (skip : Char→Bool) (b : List Char) : Nat→List Char→List Nat→Block→Block
  | _, [], _, best => best
  | i, c::rest, above, best =>
    let lengths := row skip c above b
    scan skip b (i+1) rest lengths (improve i 0 lengths best)

def sharedStart : List Char→List Char→Nat
  | a::as, b::bs => if a == b then sharedStart as bs+1 else 0
  | _, _ => 0

/-- The first longest block that starts with characters not too common, drawn out to both sides. -/
def longest (skip : Char→Bool) (a b : List Char) : Block :=
  let core := scan skip b 0 a (List.replicate b.length 0) ⟨0,0,0⟩
  let before := sharedStart (a.take core.left).reverse (b.take core.right).reverse
  let after := sharedStart (a.drop (core.left+core.size)) (b.drop (core.right+core.size))
  ⟨core.left - before,core.right - before,before+core.size+after⟩

/-- Number of characters in common blocks. Each block takes up part of the left text, so its length bounds the depth. -/
def matched (skip : Char→Bool) : Nat→List Char→List Char→Nat
  | 0, _, _ => 0
  | fuel+1, a, b =>
    let m := longest skip a b
    if m.size == 0 then 0
    else
      m.size+matched skip fuel (a.take m.left) (b.take m.right) +
        matched skip fuel (a.drop (m.left+m.size)) (b.drop (m.right+m.size))

def score (name candidate : String) : Decimal.Ratio :=
  let a := candidate.toList
  let b := name.toList
  if a.length+b.length == 0 then ⟨1,1⟩
  else ⟨2 * matched (tooCommon b) a.length a b,a.length+b.length⟩

/-- How close a name must be. A share that rounds to the threshold reaches it. -/
structure Threshold where
  least : Decimal.Ratio
  included : Bool

def Threshold.reachedBy (t : Threshold) (r : Decimal.Ratio) : Bool :=
  if t.included then t.least.le r else t.least.lt r

def Threshold.ofFloat? (x : Float) : Option Threshold :=
  if 0.0 ≤ x && x≤1.0 then
    match (Decimal.decode x).2 with
    | .finite d => some ⟨d.lower,d.mantissa % 2 == 0⟩
    | _ => some ⟨⟨0,1⟩,true⟩
  else none

def closer (p q : Decimal.Ratio×String) : Decimal.Ratio×String :=
  if p.1.lt q.1 then q
  else if q.1.lt p.1 then p
  else if p.2 < q.2 then q else p

def best : List (Decimal.Ratio×String)→Option (Decimal.Ratio×String)
  | [] => none
  | p::rest => some (rest.foldl closer p)

def closest (t : Threshold) (name : String) (candidates : List String) : Option String :=
  (best ((candidates.map fun c => (score name c,c)).filter fun (r,_) => t.reachedBy r)).map (·.2)

/-- The candidate closest to a name. A threshold outside zero to one is refused. -/
def closestName (t : Option Threshold) (name : String) (candidates : List String) : Except Failure (Option String) :=
  match t with
  | some t => .ok (closest t name candidates)
  | none => .error (.fault .badValue "cutoff must be in [0.0, 1.0]")

end Similarity

end ChipForge.Text
