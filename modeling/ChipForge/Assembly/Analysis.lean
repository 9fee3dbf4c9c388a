import ChipForge.Assembly.Instructions

/-! All that is worked out about a graph before a save is touched. -/
namespace ChipForge.Assembly

/-- What a graph asks for. Each part may fail on its own. -/
structure Analysis where
  requests : List Request
  placements : Table Placement
  types : Except Failure (Table GateType)
  typeChanges : Except Failure (List TypeInstruction)
  constants : Except Failure (List ConstantInstruction)
  connections : Except Failure (List Connection)
  said : List String

/-- Works out what a graph asks for; `settle` says where each node goes. -/
def analyse (settle : String→Placement→Placement) (graph rules modules : Json) : Except Failure Analysis := do
  let index ← Index.ofCatalogue modules
  let plan ← planOf graph index
  let placements : Table Placement := plan.placements.toList.map fun (id,p) => (id,settle id p)
  let (changes,changeLines) := typeInstructions graph placements index rules modules
  let (constants,constantLines) := constantInstructions graph placements
  pure
    { requests := plan.requests
      placements := placements
      types := typesOf graph placements index rules modules
      typeChanges := changes
      constants := constants
      connections := Assembly.connections (Fittings.ofPlan placements index) graph
      said := changeLines++constantLines }

end ChipForge.Assembly
