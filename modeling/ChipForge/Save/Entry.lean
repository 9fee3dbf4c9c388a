import ChipForge.Save.Edit

/-! Entries of a save: every container lists named texts, such as the graph of a chip and its inputs. -/
namespace ChipForge.Save

/-- Place of an entry: its container and its number there. -/
structure Slot where
  container : Nat
  index : Nat
  deriving DecidableEq, Repr

def isNamed (key : String) (entry : Json) : Except Failure Bool := do pure ((← entry.field "key").same (.str key))

def findInList (key : String) : Nat→List Json→Except Failure (Option (Nat×Json))
  | _, [] => .ok none
  | i, entry::rest => do
    if ← isNamed key entry then pure (some (i,entry)) else findInList key (i+1) rest

def listedEntries (container : Json) : Except Failure (List Json) := do
  let objects ← container.fieldOr "saveObjects" (.obj [])
  (← objects.fieldOr "saveMetaDatas" (.arr [])).each

def findInContainers (key : String) : Nat→List Json→Except Failure (Option (Slot×Json))
  | _, [] => .ok none
  | i, container::rest => do
    match ← findInList key 0 (← listedEntries container) with
    | some (j,entry) => pure (some (⟨i,j⟩,entry))
    | none => findInContainers key (i+1) rest

def findEntry (key : String) (save : Json) : Except Failure (Option (Slot×Json)) := do
  findInContainers key 0 (← (← save.fieldOr "saveObjectContainers" (.arr [])).each)

def firstEntries (save : Json) : Except Failure Json := do
  let container ← (← save.item "saveObjectContainers").itemAt 0
  (← container.item "saveObjects").item "saveMetaDatas"

def updateEntries (save : Json) (container : Nat) (f : Json→Json) : Json :=
  save.update "saveObjectContainers" fun containers =>
    containers.updateAt container fun c =>
      c.update "saveObjects" fun objects =>
        objects.update "saveMetaDatas" f

def setText (slot : Slot) (text : String) (save : Json) : Json :=
  updateEntries save slot.container fun entries =>
    entries.updateAt slot.index fun entry => entry.set "stringValue" (.str text)

def emptyText (key : String) : String :=
  if key == "chip_graph" then "\x7b\"ValidationState\":1,\"Nodes\":[]\x7d" else "[]"

def ensureEntry (entries : Json) (key : String) : Except Failure (Nat×Json×Json) := do
  let items ← entries.each
  match ← findInList key 0 items with
  | some (i,entry) => pure (i,entry,entries)
  | none =>
    let entry := Json.obj [("key",.str key),("stringValue",.str (emptyText key))]
    pure (items.length,entry,← entries.append entry)

/-- Finds an entry of the first container, or adds it. -/
def ensureFirst (key : String) : Edit (Slot×Json) := do
  let save ← getSave
  let (i,entry,entries) ← ensureEntry (← firstEntries save) key
  setSave (updateEntries save 0 fun _ => entries)
  pure (⟨0,i⟩,entry)

end ChipForge.Save
