import ChipForge.Tools.AddEnds
import ChipForge.Tools.AddModule
import ChipForge.Tools.AddVariable
import ChipForge.Tools.ConnectBatch
import ChipForge.Tools.Convert
import ChipForge.Tools.LayOut
import ChipForge.Tools.Retype

/-! All tools, and the whole way from a script to a packed save among them. -/
namespace ChipForge.Tools
open Workshop

inductive Tool
  | produce | convert | addModule | addBatch | connectBatch | addVariable | addEnds | retype | layOut | archive
  deriving DecidableEq, Repr

def checkParts (needed : List Part) : Work Unit := do
  if (← get).lacking.any needed.contains then throw (.fault (.named "ModuleNotFoundError") "No module") else pure ()

/-- The whole way; a failure is told on the side and gives the status one. -/
def produceOrTell (outputs : Wiring.OutputTypes) : Work Unit :=
  tryCatch (produceReported outputs) fun f =>
    match f with
    | .exit status => stop status
    | report => do
      complain report.summary
      stop (.int 1)

def Tool.run (outputs : Wiring.OutputTypes) (args : List String) : Tool→Work Unit
  | .produce => do
    checkParts [.compiler,.settings,.other]
    checkBatchParts
    produceOrTell outputs
  | .convert => do
    checkParts [.compiler]
    Tools.convert outputs args
  | .addModule => Tools.addModule
  | .addBatch => Tools.addBatch args
  | .connectBatch => Tools.connectBatch
  | .addVariable => Tools.addVariable args
  | .addEnds => Tools.addEnds
  | .retype => Tools.retype args
  | .layOut => Tools.layOut
  | .archive => do
    checkParts [.settings]
    archiveStage

end ChipForge.Tools
