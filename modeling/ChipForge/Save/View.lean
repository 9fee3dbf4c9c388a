import ChipForge.Json.Writer
import ChipForge.Table

/-! A save seen as texts by place, and what differs between two saves. -/
namespace ChipForge.Save

def listIn (v : Json) (key : String) : List Json := ((v.get? key).bind Json.asArr?).getD []

def containerTexts (number : Nat) (container : Json) : List (String×Json) :=
  let objects := (container.get? "saveObjects").getD .null
  let entries := (listIn objects "saveMetaDatas").map fun e =>
    (toString number ++ "/" ++ ((e.get? "key").getD .null).plain,(e.get? "stringValue").getD .null)
  let mechanics := (listIn objects "mechanicData").mapIdx fun j m =>
    (toString number ++ "/mech" ++ toString j,(m.get? "mechanicSerializedInputs").getD .null)
  entries++mechanics

/-- Texts of a save by place. Of two texts at one place the later counts. -/
def textsOf (save : Json) : Table Json :=
  let all := ((listIn save "saveObjectContainers").mapIdx containerTexts).flatten
  all.foldl (fun (t : Table Json) (place,text) => t.put place text) Table.empty

def sameWriting (a b : Json) : Bool := Json.write .compact a == Json.write .compact b

def changedTexts (before after : Table Json) : Table Json :=
  List.filter (fun (place,text) => !(before.find place).any (sameWriting text)) after.toList

end ChipForge.Save
