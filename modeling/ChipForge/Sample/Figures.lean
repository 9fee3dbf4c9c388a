import ChipForge.Assembly.Analysis
import ChipForge.Docs.Tutorial
import ChipForge.Sample.Graph
import ChipForge.Sample.Script
import ChipForge.Wiring.Build
import ChipForge.Workshop.Stages

/-! Figures of what the parts of the library make of the samples. -/
namespace ChipForge.Sample
open Assembly

def sorted (texts : List String) : List String := texts.mergeSort fun a b => !(b < a)

def textsJson (texts : List String) : Json := .arr (texts.map .str)

def scriptFigures (outputs : Wiring.OutputTypes) (size : Nat) : Except Failure Json := do
  let g ← Wiring.graphOfText outputs "input.py" (script size)
  pure (.arr [.int g.nodes.length,.int g.edges.length,.int g.definitions.length])

def scriptGraph (outputs : Wiring.OutputTypes) (size : Nat) : Except Failure Json := do
  (Json.str (← Wiring.buildGraph outputs "input.py" "graph.json" (script size).toUTF8)).parseText

/-- Counts of what the sample script asks for once its modules are in a save, and their names. -/
def assemblyFigures (outputs : Wiring.OutputTypes) (rules modules : Json) (supply : Nat→String) (size : Nat) :
    Except Failure Json := do
  let graph ← scriptGraph outputs size
  let index ← Index.ofCatalogue modules
  let plan ← planOf graph index
  let stage := Workshop.addStage (plan.requests.map Request.toJson) plan.placements modules
  let placements ← (stage.run ⟨emptySave,supply,0,[]⟩).1
  let settle (id : String) (p : Placement) : Placement := (placements.find id).getD p
  let a ← analyse settle graph rules modules
  pure (.arr [.int a.requests.length,.int (← a.typeChanges).length,.int (← a.constants).length,
    .int (← a.connections).length,textsJson (sorted (a.placements.toList.map fun (_,p) => p.friendlyName))])

def typeFigures (rules modules : Json) (size : Nat) : Except Failure Json := do
  let settle (id : String) (p : Placement) : Placement := { p with newId := .str (p.gameName.plain ++ " : " ++ id) }
  let types ← (← analyse settle (graph size) rules modules).types
  let found := GateType.all.filter fun t => types.toList.any fun (_,u) => u == t
  pure (.arr [.int types.toList.length,.arr (found.map fun t => .int t.code)])

def toTenths : Number→Number
  | .int n => .int n
  | .float x => .float (Decimal.roundTenths x)

def ascending (numbers : List Number) : List Number := numbers.mergeSort fun a b => !(b.lt a)

def greatest (numbers : List Number) : Except Failure Number :=
  match (ascending numbers).getLast? with
  | some n => .ok n
  | none => .error (.fault .outOfRange "list index out of range")

def layoutFigures (size : Nat) : Except Failure Json := do
  let w ← Layout.Wires.ofNodes (chipNodes size)
  let places : Table (Layout.Position Number) := Layout.placesOf w
  let xs := places.toList.map fun (_,p) => toTenths p.x
  let ys := places.toList.map fun (_,p) => toTenths p.y
  let least (numbers : List Number) : Json := .arr (((ascending numbers).take 3).map Number.toJson)
  pure (.arr [.int places.toList.length,least xs,least ys,(← greatest xs).toJson,(← greatest ys).toJson])

/-- Signatures for headings that repeat names, in a catalogue: how many there are, the first and the last of them. -/
def signatureFigures (modules : Json) (names : List String) (size : Nat) : Except Failure Json := do
  let index ← Docs.Index.ofCatalogue modules
  let headings := (List.range size).filterMap fun i => names[i % names.length]?
  let signatures := headings.filterMap fun h => (Docs.entryFor? index (Docs.headingName h)).map fun e =>
    Json.arr [.str (Docs.callName e.friendly),textsJson (Docs.argumentNames [] e.inputs)]
  pure (.arr [.int signatures.length,.arr (signatures.take 5),.arr (signatures.drop (signatures.length - 5))])

end ChipForge.Sample
