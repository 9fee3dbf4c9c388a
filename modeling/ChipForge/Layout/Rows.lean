import ChipForge.Layout.LongWires
import ChipForge.Layout.Sweeps

/-! Places of nodes. Rows are given by the order in the columns, pushed apart where they are too close, and centred. -/
namespace ChipForge.Layout

/-- Numbers that places are measured in. -/
class Coordinate (α : Type) where
  lt : α → α → Bool
  add : α → α → α
  sub : α → α → α
  middle : α → α → α
  rows : Int → α
  columns : Int → α
  nearestColumn : α → Int

def columnSpacing : Number := .float 800.0

def rowSpacing : Number := .float 600.0

instance : Coordinate Number where
  lt := Number.lt
  add := Number.add
  sub := Number.sub
  middle a b := (a.add b).div (.float 2.0)
  rows n := (Number.int n).mul rowSpacing
  columns n := (Number.int n).mul columnSpacing
  nearestColumn d := (Decimal.round (d.div columnSpacing).toFloat).getD 0

structure Position (α : Type) where
  x : α
  y : α

variable {α : Type} [Coordinate α]

def columnsOf (layers : Columns) : Columns×Table Int :=
  let sorted := layers.map fun ids => ids.mergeSort fun a b => decide (a ≤ b)
  (sorted,layers.toList.foldl (fun t (c,ids) => ids.foldl (fun t id => t.put id c) t) Table.empty)

def stack : Int→Table α→List String→Table α
  | _, ys, [] => ys
  | i, ys, id::rest => stack (i+1) (ys.put id (Coordinate.rows i)) rest

/-- Rows of nodes by the order that sweeps give to the columns. -/
def firstRows (layers : Columns) (after : Table (List String)) : Table α :=
  let (columns,columnOf) := columnsOf layers
  let split := Split.ofWires columns columnOf after
  let swept := sweeps split.before split.after 4 split.columns
  swept.numbers.foldl (fun ys c => stack 0 ys ((swept.column c).filter fun id => !isStandIn id)) Table.empty

def rowOf (ys : Table α) (id : String) : α := (ys.find id).getD (Coordinate.rows 0)

/-- Pushes each node down to keep its distance from the one above. -/
def pushApart : Table α→List String→Table α
  | ys, a::b::rest =>
    let least := Coordinate.add (rowOf ys a) (Coordinate.rows 1)
    pushApart (if Coordinate.lt (rowOf ys b) least then ys.put b least else ys) (b::rest)
  | ys, _ => ys

def byRow (ys : Table α) (ids : List String) : List String :=
  (ids.filter ys.has).mergeSort fun a b => !Coordinate.lt (rowOf ys b) (rowOf ys a)

def placeLayer (layers : Columns) (s : Table α×Table (Position α)) (c : Int) : Table α×Table (Position α) :=
  let ids := byRow s.1 (layers.column c)
  let ys := pushApart s.1 ids
  (ys,ids.foldl (fun t id => t.put id ⟨Coordinate.columns c,rowOf ys id⟩) s.2)

def leastOf : α→List α→α
  | m, [] => m
  | m, x::rest => leastOf (if Coordinate.lt x m then x else m) rest

def greatestOf : α→List α→α
  | m, [] => m
  | m, x::rest => greatestOf (if Coordinate.lt m x then x else m) rest

def centre (t : Table (Position α)) : Table (Position α) :=
  match t.toList.map fun (_,p) => p.y with
  | [] => t
  | y::rest =>
    let mid := Coordinate.middle (leastOf y rest) (greatestOf y rest)
    t.toList.map fun (id,p) => (id,{ p with y := Coordinate.sub p.y mid })

/-- Places of the nodes of layers by their rows, kept apart but not yet centred. -/
def separated (layers : Columns) (ys : Table α) : Table (Position α) :=
  (layers.numbers.foldl (placeLayer layers) (ys,Table.empty)).2

/-- Places of the nodes of layers by their rows, kept apart and centred. -/
def resolve (layers : Columns) (ys : Table α) : Table (Position α) := centre (separated layers ys)

end ChipForge.Layout
