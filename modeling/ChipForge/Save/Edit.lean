import ChipForge.Json.Update

/-! Editing of a save. An action may change the save, draw fresh ids, say something, and fail; what was done before a
failure stays done. -/
namespace ChipForge.Save

/-- What actions work on. -/
structure Desk where
  save : Json
  /-- The ids there are, by number. -/
  supply : Nat→String
  /-- How many of them were drawn. -/
  drawn : Nat
  said : List String

abbrev Edit := ExceptT Failure (StateM Desk)

def say (line : String) : Edit Unit := modify fun d => { d with said := d.said++[line ++ "\n"] }

def freshId : Edit String := do
  let d ← get
  set { d with drawn := d.drawn+1 }
  pure (d.supply d.drawn)

def getSave : Edit Json := do pure (← get).save

def setSave (save : Json) : Edit Unit := modify fun d => { d with save := save }

end ChipForge.Save
