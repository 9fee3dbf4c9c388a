/-! Tables that keep the order of first entry. -/
namespace ChipForge

/-- Tables in order of first entry, from names or from keys of another type. -/
def Table (α : Type) (κ : Type := String) := List (κ×α)

namespace Table

variable {α κ : Type} [BEq κ]

def empty : Table α κ := []

def find (t : Table α κ) (key : κ) : Option α := List.lookup key t

def has (t : Table α κ) (key : κ) : Bool := (t.find key).isSome

def putIn (key : κ) (value : α) : List (κ×α)→List (κ×α)
  | [] => [(key,value)]
  | (k,v)::rest => if k == key then (k,value)::rest else (k,v)::putIn key value rest

def put (t : Table α κ) (key : κ) (value : α) : Table α κ := putIn key value t

def putNew (t : Table α κ) (key : κ) (value : α) : Table α κ := if t.has key then t else t.put key value

def drop (t : Table α κ) (key : κ) : Table α κ := List.filter (fun (k,_) => k != key) t

def addTo {β : Type} (t : Table (List β) κ) (key : κ) (item : β) : Table (List β) κ :=
  t.put key ((t.find key).getD []++[item])

def toList (t : Table α κ) : List (κ×α) := t

end Table

end ChipForge
