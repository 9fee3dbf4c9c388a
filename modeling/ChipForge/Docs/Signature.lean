import ChipForge.Json.Access
import ChipForge.Table
import ChipForge.Text.Similarity

/-! Signatures of modules as a tutorial shows them: the name of a call and the names of its arguments. -/
namespace ChipForge.Docs
open Text

def isCapital (c : Char) : Bool := 'A' ≤ c && c ≤ 'Z'

def isSmall (c : Char) : Bool := ('a' ≤ c && c ≤ 'z') || c.isDigit

def spaceCapitals : List Char→List Char
  | a::b::rest => if isSmall a && isCapital b then a :: ' ' :: spaceCapitals (b::rest) else a::spaceCapitals (b::rest)
  | cs => cs

/-- Runs of letters and digits; `cur` is the run so far, backwards. -/
def runsFrom (cur : List Char) : List Char→List String
  | [] => if cur.isEmpty then [] else [String.ofList cur.reverse]
  | c::rest =>
    if isPlain c then runsFrom (c::cur) rest
    else if cur.isEmpty then runsFrom [] rest
    else String.ofList cur.reverse::runsFrom [] rest

def runs (cs : List Char) : List String := runsFrom [] cs

def words (s : String) : List String := (runs (spaceCapitals s.toList)).map lower

def wordKey (s : String) : String := String.intercalate "|" ((words s).mergeSort fun a b => !(b < a))

def capitalFirst (s : String) : String :=
  match s.toList with
  | [] => s
  | c::rest => String.ofList (c.toUpper::rest)

def callName (friendly : String) : String :=
  let parts := runs friendly.toList
  if parts.isEmpty then "Module" else String.join (parts.map capitalFirst)

def baseName (port : String) : String :=
  let joined := lower (String.intercalate "_" (runs port.toList))
  if joined.isEmpty then "arg"
  else if (joined.toList.head?.map Char.isDigit).getD false then "p_" ++ joined
  else joined

def freeName (used : List String) (base : String) : Nat→Nat→String
  | 0, i => base ++ "_" ++ toString i
  | fuel+1, i =>
    let name := base ++ "_" ++ toString i
    if used.contains name then freeName used base fuel (i+1) else name

def argumentName (used : List String) (port : String) : String :=
  let base := baseName port
  if used.contains base then freeName used base used.length 2 else base

def argumentNames : List String→List String→List String
  | _, [] => []
  | used, port::rest =>
    let name := argumentName used port
    name::argumentNames (used++[name]) rest

/-- A module as the tutorial knows it. -/
structure Entry where
  friendly : String
  inputs : List String

def marker : String := "位置参数签名:"

def Entry.line (e : Entry) : String :=
  "  " ++ marker ++ " " ++ callName e.friendly ++ "(" ++ String.intercalate ", " (argumentNames [] e.inputs) ++ ")"

structure Index where
  /-- By the letters and digits of a name. -/
  byName : Table Entry
  /-- By the words of a name in any order. -/
  byWords : Table Entry

def namedText (v : Json) : Option String :=
  match v with
  | .str s => if (trim s).isEmpty then none else some s
  | _ => none

def inputNames (ports : List Json) : List String :=
  ports.filterMap fun p =>
    match p with
    | .obj fields => ((Json.lookup "name" fields).bind namedText).map trim
    | _ => none

/-- Enters a module under a name; the first module of a name stays. -/
def Index.enter (index : Index) (entry : Entry) (name : String) : Index :=
  let key := wordKey name
  ⟨index.byName.putNew (nameKey name) entry,if key.isEmpty then index.byWords else index.byWords.putNew key entry⟩

def checkName (v : Json) : Except Failure Unit :=
  match v with
  | .arr _ => .error (.fault .wrongKind "unhashable type: 'list'")
  | .obj _ => .error (.fault .wrongKind "unhashable type: 'dict'")
  | _ => .ok ()

def Index.enterModule (index : Index) (module : Json) : Except Failure Index := do
  match module with
  | .obj fields =>
    let source := match (Json.lookup "source_info" fields).getD .null with
      | .obj s => s
      | _ => []
    let nameOf (key : String) : Json := (Json.lookup key source).getD .null
    match namedText (nameOf "chip_names_friendly_name") with
    | none => pure index
    | some friendly =>
      let inputs ← (((Json.lookup "inputs" fields).getD .null).orElse (.arr [])).each
      let others := [nameOf "datatype_map_nodename",nameOf "allmod_viewmodel"]
      for v in others do checkName v
      let names := friendly::others.filterMap namedText
      pure (names.foldl (fun i name => i.enter ⟨friendly,inputNames inputs⟩ name) index)
  | _ => pure index

def Index.enterAll : Index→List (String×Json)→Except Failure Index
  | index, [] => .ok index
  | index, (_,module)::rest => do Index.enterAll (← index.enterModule module) rest

def Index.ofCatalogue (catalogue : Json) : Except Failure Index := do
  Index.enterAll ⟨Table.empty,Table.empty⟩ (← catalogue.entries)

end ChipForge.Docs
