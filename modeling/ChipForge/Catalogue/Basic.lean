import ChipForge.Json.Basic

/-! Modules a chip can be built from: their names, ports and types, and the rules by which the types of ports follow the
type of the module. -/
namespace ChipForge.Catalogue

structure Port where
  type : String
  name : String

structure Module where
  id : String
  gateType : Int
  gameName : String
  view : String
  friendlyName : String
  inputs : List Port
  outputs : List Port
  modifiable : Bool

def Module.viewModel (m : Module) : String := m.view ++ "ViewModel"

def Port.toJson (p : Port) : Json := .obj [("type",.str p.type),("name",.str p.name)]

def Module.toJson (m : Module) : Json :=
  .obj [("id",.str m.id),("gate_data_type",.int m.gateType),
    ("source_info",.obj [("datatype_map_nodename",.str m.gameName),("allmod_viewmodel",.str m.viewModel),
      ("chip_names_friendly_name",.str m.friendlyName)]),
    ("inputs",.arr (m.inputs.map Port.toJson)),("outputs",.arr (m.outputs.map Port.toJson)),
    ("can_modify_data_type",.bool m.modifiable)]

def modulesJson (modules : List Module) : Json := .obj (modules.map fun m => (m.id,m.toJson))

/-- How the type of a port follows the type of its node. -/
inductive PortRule
  | same
  | any
  | fixed (code : Int)

structure Rule where
  id : String
  name : String
  inputs : List PortRule
  outputs : List PortRule

def PortRule.toJson : PortRule→Json
  | same => .str "same"
  | any => .str "any"
  | fixed code => .int code

def Rule.toJson (r : Rule) : Json :=
  .obj [("module_name",.str r.name),("inputs",.arr (r.inputs.map PortRule.toJson)),
    ("outputs",.arr (r.outputs.map PortRule.toJson))]

/-- Rules as a record by id, after the words the file says of itself. -/
def rulesJson (note : String) (rules : List Rule) : Json :=
  .obj (("comment",.str note)::rules.map fun r => (r.id,r.toJson))

end ChipForge.Catalogue
