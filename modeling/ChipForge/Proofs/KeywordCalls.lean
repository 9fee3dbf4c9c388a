import ChipForge.Assembly.Ports
import ChipForge.Proofs.Plans
import ChipForge.Proofs.Words

/-! Arguments of a call by place and under keywords. Either way the call has the plan of its other keywords, with the arguments
put in front by their numbers or by their names. A number means the port in that place. -/
namespace ChipForge.Assembly
open Text

end ChipForge.Assembly

namespace ChipForge.Wiring
open Script List Text

variable {module word : String} {plan : CallPlan} {ports : List (String×Operand)}

def CallPlan.after (ports : List (String×Operand)) (plan : CallPlan) : CallPlan :=
  { plan with ports := ports++plan.ports }

end ChipForge.Wiring
