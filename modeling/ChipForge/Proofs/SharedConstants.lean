import ChipForge.Proofs.CompiledExpression

/-! Where constants are shared, a constant that is wanted again is the node that was made for it. The key it is found by is the
text of its value with the fields of tables in order, as far as they have one. -/
namespace ChipForge.Wiring
open Script List

variable {s t : State} {id : String} {v : Literal}

end ChipForge.Wiring
