import ChipForge.Json.Access
import ChipForge.Table
import ChipForge.Text.Similarity

/-! The index of chips: what a script may call modules, and what the calls mean in the game. -/
namespace ChipForge.Assembly

/-- What is known of a kind of chip. -/
structure ChipKind where
  opType : Option String
  friendlyName : String
  gameName : Json
  inputs : List Json
  outputs : List Json
  modifiable : Bool

abbrev Index := Table ChipKind

def optionJson : Option String→Json
  | some s => .str s
  | none => .null

def ChipKind.toJson (k : ChipKind) : Json :=
  .obj [("op_type",optionJson k.opType),("friendly_name",.str k.friendlyName),("game_name",k.gameName),
    ("inputs",.arr k.inputs),("outputs",.arr k.outputs),("can_modify_data_type",.bool k.modifiable)]

def portNames (module : Json) (side default : String) : Except Failure (List Json) := do
  let ports ← (← module.fieldOr side (.arr [])).each
  ports.mapM fun p => p.fieldOr "name" (.str default)

/-- What the record of a module says, if it names the module for players and for the game. -/
def ChipKind.ofModule? (id : String) (module : Json) : Except Failure (Option ChipKind) := do
  let source ← module.fieldOr "source_info" (.obj [])
  let friendly ← source.field "chip_names_friendly_name"
  let game ← source.field "allmod_viewmodel"
  if !friendly.truthy || !game.truthy then pure none
  else
    let inputs ← portNames module "inputs" "Input"
    let outputs ← portNames module "outputs" "Output"
    let modifiable ← module.fieldOr "can_modify_data_type" (.bool true)
    let name ← friendly.text "lower"
    pure (some ⟨some id,name,game,inputs,outputs,modifiable.switch true⟩)

namespace Index

def enter (index : Index) (id : String) (kind : ChipKind) : Index :=
  let key := Text.nameKey kind.friendlyName
  let index := index.put key kind
  let index := if key == "remainder" then (index.putNew "modulo" kind).putNew "mod" kind else index
  if Text.allDigits id then index else index.put (Text.nameKey id) kind

def ofModules : Index→List (String×Json)→Except Failure Index
  | index, [] => .ok index
  | index, (id,module)::rest => do
    match ← ChipKind.ofModule? id module with
    | some kind => ofModules (index.enter id kind) rest
    | none => ofModules index rest

def inputKind : ChipKind := ⟨some "256","Input",.str "RootNodeViewModel",[],[.str "Number"],true⟩

def outputKind : ChipKind := ⟨some "255","Output",.str "ExitNodeViewModel",[.str "Number"],[],true⟩

def constantKind : ChipKind := ⟨some "257","Constant",.str "ConstantNodeViewModel",[],[.str "Output"],true⟩

def variableKind : ChipKind :=
  ⟨none,"Variable",.str "VariableNodeViewModel",[.str "Value",.str "Set"],[.str "Value"],true⟩

/-- The index of a catalogue. The ends of a chip and constants are known even if the catalogue lacks them, and variables
are always the game's own. -/
def ofCatalogue (catalogue : Json) : Except Failure Index := do
  let index ← ofModules Table.empty (← catalogue.entries)
  pure ((((index.putNew "input" inputKind).putNew "output" outputKind).putNew "constant" constantKind).put "variable"
    variableKind)

def keys (index : Index) : List String := index.toList.map (·.1)

def toJson (index : Index) : Json := .obj (index.toList.map fun (key,kind) => (key,kind.toJson))

end Index

end ChipForge.Assembly
