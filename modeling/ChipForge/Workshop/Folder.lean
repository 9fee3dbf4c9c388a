import ChipForge.Failure
import ChipForge.Table

/-! Files of a folder by their paths. -/
namespace ChipForge.Workshop

/-- What stands under a path. -/
inductive Item
  | file (bytes : ByteArray)
  | folder
  | archive (entries : List (String×ByteArray))

def Item.isFolder : Item→Bool
  | .folder => true
  | _ => false

abbrev Folder := Table Item

namespace Folder

def parts (path : String) : List String := (path.splitOn "/").filter fun p => p != "" && p != "."

def tidy (path : String) : String :=
  let plain := String.intercalate "/" (parts path)
  if Text.startsWith path "/" then "/" ++ plain else if plain.isEmpty then "." else plain

def above (path : String) : List String :=
  let ps := parts path
  let lead := if Text.startsWith path "/" then "/" else ""
  (List.range (ps.length - 1)).map fun i => lead++String.intercalate "/" (ps.take (i+1))

def find (f : Folder) (path : String) : Option Item :=
  let plain := tidy path
  if plain == "." then some .folder else Table.find f plain

def has (f : Folder) (path : String) : Bool := (f.find path).isSome

def blocked (f : Folder) (path : String) : Bool :=
  (above path).any fun p => (f.find p).any fun item => !item.isFolder

/-- Are all paths above a path folders? -/
def reachable (f : Folder) (path : String) : Bool := (above path).all fun p => (f.find p).any Item.isFolder

def read (f : Folder) (path : String) : Except Failure ByteArray :=
  match f.find path with
  | some (.file bytes) => .ok bytes
  | some (.archive _) => .ok ByteArray.empty
  | some .folder => .error (.path .isFolder path)
  | none => .error (.path (if f.blocked path then .notFolder else .missing) path)

def write (f : Folder) (path : String) (item : Item) : Except Failure Folder :=
  match f.find path with
  | some .folder => .error (.path .isFolder path)
  | some _ => .ok (f.put (tidy path) item)
  | none =>
    if f.blocked path then .error (.path .notFolder path)
    else if f.reachable path then .ok (f.put (tidy path) item)
    else .error (.path .missing path)

def makeFolder (f : Folder) (path : String) : Except Failure Folder :=
  match f.find path with
  | some .folder => .ok f
  | some _ => .error (.path .exists path)
  | none => .ok (f.put (tidy path) .folder)

def remove (f : Folder) (path : String) : Folder := (Table.toList f).filter fun (p,_) => p != tidy path

def place (f : Folder) (path : String) (item : Item) : Folder :=
  let grounded := (above path).foldl (fun (f : Folder) p => Table.putNew f p .folder) f
  grounded.put (tidy path) item

def ofItems (items : List (String×Item)) : Folder := items.foldl (fun f (path,item) => f.place path item) Table.empty

def changedSince (before after : Folder) : Table ByteArray :=
  after.toList.filterMap fun (path,item) =>
    match item, before.find path with
    | .file bytes, some (.file old) => if old.data == bytes.data then none else some (path,bytes)
    | .file bytes, _ => some (path,bytes)
    | _, _ => none

def archive? (f : Folder) : Option (List (String×ByteArray)) :=
  f.toList.findSome? fun (_,item) =>
    match item with
    | .archive entries => some entries
    | _ => none

def textAt (f : Folder) (path : String) : String :=
  match f.find path with
  | some (.file bytes) => (String.fromUTF8? bytes).getD ""
  | _ => ""

end Folder

end ChipForge.Workshop
