import ChipForge.Layout.Columns
import ChipForge.Layout.Wires

/-! Sweeps over the columns. Each column is sorted by where the neighbours of its nodes stand, first from left to right and
then back. -/
namespace ChipForge.Layout

/-- A mean place. -/
structure Mean where
  sum : Int
  count : Nat

def Mean.lt (a b : Mean) : Bool := a.sum * b.count < b.sum * a.count

def meanOf (places : Ranks) (near : List String) (own : Int) : Mean :=
  let found := near.filterMap places.find
  if found.isEmpty then ⟨own,1⟩ else ⟨found.foldl (·+·) 0,found.length⟩

/-- Columns with the places in them. -/
structure Sweep where
  columns : Columns
  places : ByColumn Ranks

def Sweep.ofColumns (columns : Columns) : Sweep := ⟨columns,columns.map ranksOf⟩

def Sweep.reorder (s : Sweep) (c : Int) (ids : List String) : Sweep :=
  ⟨s.columns.put c ids,s.places.put c (ranksOf ids)⟩

def Sweep.ranks (s : Sweep) (c : Int) : Ranks := (s.places.find c).getD Table.empty

/-- Sorts by a key, and by the place so far among equal keys. -/
def sortByKey {κ : Type} (lt : κ→κ→Bool) (keyed : List (κ×Int×String)) : List String :=
  (keyed.mergeSort fun (k,i,_) (l,j,_) => lt k l || (!lt l k && i ≤ j)).map (·.2.2)

/-- Sorts a column by the mean places of neighbours in the next column on a side. -/
def sweepColumn (near : Table (List String)) (side : Int) (s : Sweep) (c : Int) : Sweep :=
  let ids := s.columns.column c
  if ids.isEmpty then s
  else
    let own := s.ranks c
    let beside := s.ranks (c+side)
    let keyed := ids.map fun id =>
      let place := (own.find id).getD 0
      (meanOf beside (neighbours near id) place,place,id)
    s.reorder c (sortByKey Mean.lt keyed)

def sweepBoth (before after : Table (List String)) (columns : Columns) : Columns :=
  let numbers := columns.numbers
  let right := (numbers.drop 1).foldl (sweepColumn before (-1)) (Sweep.ofColumns columns)
  (numbers.dropLast.reverse.foldl (sweepColumn after 1) (Sweep.ofColumns right.columns)).columns

def sweeps (before after : Table (List String)) : Nat → Columns → Columns
  | 0, columns => columns
  | passes+1, columns => sweeps before after passes (sweepBoth before after columns)

def ranksAt (places : ByColumn Ranks) (c : Int) : Except Failure Ranks :=
  match places.find c with
  | some ranks => .ok ranks
  | none => Json.missingKey (toString c)

/-- Sum of weighted places and of weights. A neighbour weighs less the more columns lie between. -/
def weigh (columnOf : Table Int) (places : ByColumn Ranks) (c : Int) : Float→Float→List String→Float×Float
  | s, w, [] => (s,w)
  | s, w, id::rest =>
    match columnOf.find id with
    | none => weigh columnOf places c s w rest
    | some d =>
      match ((places.find d).getD Table.empty).find id with
      | none => weigh columnOf places c s w rest
      | some i =>
        let weight := 1.0 / Decimal.ofInt (c - d).natAbs
        weigh columnOf places c (s+weight * Decimal.ofInt i) (w+weight) rest

def weightedPlace (columnOf : Table Int) (places : ByColumn Ranks) (near : Table (List String)) (left : Bool)
    (id : String) : Except Failure Number := do
  match columnOf.find id with
  | none => Json.missingKey (Text.quoted id)
  | some c =>
    let beside := (neighbours near id).filter fun n =>
      match columnOf.find n with
      | some d => if left then d < c else c < d
      | none => false
    let own ← ranksAt places c
    if beside.isEmpty then pure (.int ((own.find id).getD 0))
    else
      let (s,w) := weigh columnOf places c 0.0 0.0 beside
      if w > 0.0 then pure (.float (s / w))
      else
        match own.find id with
        | some i => pure (.int i)
        | none => Json.missingKey (Text.quoted id)

def weightedPlaces (columnOf : Table Int) (places : ByColumn Ranks) (before after : Table (List String)) :
    List String→Except Failure (List (String×Number×Number))
  | [] => .ok []
  | id::rest => do
    let left ← weightedPlace columnOf places before true id
    let right ← weightedPlace columnOf places after false id
    pure ((id,left,right)::(← weightedPlaces columnOf places before after rest))

def weightedColumn (columnOf : Table Int) (near : Table (List String)) (left : Bool) (s : Sweep) (c : Int) :
    Except Failure Sweep := do
  let ids := s.columns.column c
  if ids.isEmpty then pure s
  else
    let own := s.ranks c
    let keyed ← ids.mapM fun id => do
      pure (← weightedPlace columnOf s.places near left id,(own.find id).getD 0,id)
    pure (s.reorder c (sortByKey Number.lt keyed))

def weightedSweeps (columnOf : Table Int) (before after : Table (List String)) :
    Nat → Columns→Except Failure Columns
  | 0, columns => .ok columns
  | passes+1, columns => do
    let numbers := columns.numbers
    let right ← (numbers.drop 1).foldlM (weightedColumn columnOf before true) (Sweep.ofColumns columns)
    let back ← numbers.dropLast.reverse.foldlM (weightedColumn columnOf after false) (Sweep.ofColumns right.columns)
    weightedSweeps columnOf before after passes back.columns

end ChipForge.Layout
