import ChipForge.Layout.Swaps

/-! Layout of a graph: layers, rows by sweeps, rows kept apart, then swaps. -/
namespace ChipForge.Layout

def swapPasses : Nat := 3

variable {α : Type} [Coordinate α]

/-- Places of nodes with all steps taken but the swaps. -/
def settledPlaces (w : Wires) : Table (Position α) :=
  let layers := layersOf w
  resolve layers (firstRows layers w.after)

/-- Places with swaps tried on all nodes together. -/
def swappedPlaces (w : Wires) (places : Table (Position α)) : Table (Position α) :=
  (shuffle w.before w.after [places.toList.map (·.1)] swapPasses ⟨places,[]⟩).positions

def placesOf (w : Wires) : Table (Position α) := swappedPlaces w (settledPlaces w)

def arrange (nodes : List Json) : Save.Edit (Table (Position Number)) := do
  Save.say "1. 核心步骤: 执行 ALAP 分层..."
  let w ← Wires.ofNodes nodes
  Save.say ("   完成。图被分为 " ++ toString (layersOf w).toList.length ++ " 个层级。")
  Save.say "2. 核心步骤: 执行多轮质心迭代..."
  Save.say "   完成。"
  Save.say "3. 最终整理: 解决重叠并垂直居中..."
  Save.say "   完成."
  Save.say "4. 局部交换优化（鱼群式） …"
  let places := placesOf w
  Save.say "   局部交换优化完成。"
  pure places

def Position.toJson (p : Position Number) : Json := .obj [("x",p.x.toJson),("y",p.y.toJson)]

def placesJson (t : Table (Position Number)) : Json := .obj (t.toList.map fun (id,p) => (id,p.toJson))

end ChipForge.Layout
