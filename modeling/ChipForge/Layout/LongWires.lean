import ChipForge.Layout.Layers

/-! Wires across several columns are split: a stand-in takes a place in every column between the ends. -/
namespace ChipForge.Layout

/-- Columns with stand-ins, and wires between neighbouring columns only. -/
structure Split where
  columns : Columns
  columnOf : Table Int
  before : Table (List String)
  after : Table (List String)
  count : Nat

def standInMark : String := "__DUMMY__"

def standIn (n : Nat) : String := standInMark++toString n

def isStandIn (id : String) : Bool := Text.startsWith id standInMark

namespace Split

def link (s : Split) (a b : String) : Split :=
  { s with after := s.after.addTo a b, before := s.before.addTo b a }

def extend (s : Split) (prev : String) (c : Int) : String×Split :=
  let id := standIn (s.count+1)
  let s := { s with columns := s.columns.add c id, columnOf := s.columnOf.put id c, count := s.count+1 }
  (id,s.link prev id)

/-- Leads a wire on: so many columns are still to cross in steps of one. -/
def lead (target : String) (step : Int) : Nat→Split→String → Int→Split
  | 0, s, prev, _ => s.link prev target
  | between+1, s, prev, c =>
    let (id,s) := s.extend prev (c+step)
    lead target step between s id (c+step)

def addWire (source : String) (s : Split) (target : String) : Split :=
  match s.columnOf.find source, s.columnOf.find target with
  | some cu, some cv =>
    if cu == cv then s
    else lead target (if cu < cv then 1 else -1) ((cv - cu).natAbs - 1) s source cu
  | _, _ => s

def ofWires (columns : Columns) (columnOf : Table Int) (after : Table (List String)) : Split :=
  after.toList.foldl (fun s (source,targets) => targets.foldl (addWire source) s)
    ⟨columns,columnOf,Table.empty,Table.empty,0⟩

end Split

end ChipForge.Layout
