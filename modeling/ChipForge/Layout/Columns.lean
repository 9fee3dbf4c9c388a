import ChipForge.Table

/-! Columns of nodes, kept by number in order of first entry. -/
namespace ChipForge.Layout

abbrev ByColumn (α : Type) := Table α Int

namespace ByColumn

variable {α : Type}

def numbers (t : ByColumn α) : List Int := (t.toList.map (·.1)).mergeSort fun a b => decide (a ≤ b)

def map {β : Type} (f : α→β) (t : ByColumn α) : ByColumn β := t.toList.map fun (c,v) => (c,f v)

end ByColumn

abbrev Columns := ByColumn (List String)

namespace Columns

def column (t : Columns) (c : Int) : List String := (t.find c).getD []

def add (t : Columns) (c : Int) (id : String) : Columns := t.put c (t.column c++[id])

end Columns

abbrev Ranks := Table Int

def rankFrom : Int→Ranks→List String→Ranks
  | _, ranks, [] => ranks
  | i, ranks, id::rest => rankFrom (i+1) (ranks.put id i) rest

def ranksOf (ids : List String) : Ranks := rankFrom 0 Table.empty ids

end ChipForge.Layout
