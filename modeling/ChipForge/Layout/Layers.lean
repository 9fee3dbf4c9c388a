import ChipForge.Layout.Columns
import ChipForge.Layout.Wires

/-! Layers of a graph. A walk from the nodes without predecessor gives the depth; a walk back from the nodes without successor
puts every node as far to the right as its first visits allow. -/
namespace ChipForge.Layout

/-- A walk through a graph. -/
structure Walk where
  queue : List String
  seen : List String
  layers : Table Int

/-- How layers are passed on: the layer of a node not met before, and the layer after an offer from a visited one. -/
structure Passing where
  start : Int
  offer : Int → Int → Int

def Walk.layer (p : Passing) (w : Walk) (id : String) : Int := (w.layers.find id).getD p.start

def Walk.meet (p : Passing) (source : String) (w : Walk) (id : String) : Walk :=
  let layers := w.layers.put id (p.offer (w.layer p id) (w.layer p source))
  if w.seen.contains id then { w with layers := layers }
  else ⟨w.queue++[id],w.seen++[id],layers⟩

/-- Visits the queue. No node is queued twice, so their number bounds the visits. -/
def Walk.run (p : Passing) (next : Table (List String)) : Nat→Walk→Walk
  | 0, w => w
  | fuel+1, w =>
    match w.queue with
    | [] => w
    | id::rest =>
      Walk.run p next fuel ((neighbours next id).foldl (Walk.meet p id) { w with queue := rest })

def walkFrom (p : Passing) (ids : List String) (from_ next : Table (List String)) : Table Int :=
  let first := ids.filter fun id => (neighbours from_ id).isEmpty
  let layers := first.foldl (fun t id => t.put id p.start) Table.empty
  (Walk.run p next (ids.length+1) ⟨first,first,layers⟩).layers

def depths (w : Wires) : Table Int := walkFrom ⟨0,fun cur layer => max cur (layer+1)⟩ w.ids w.before w.after

def depth (w : Wires) : Int := (depths w).toList.foldl (fun m (_,d) => max m d) 0

def lateLayers (w : Wires) : Table Int :=
  walkFrom ⟨depth w,fun cur layer => min cur (layer - 1)⟩ w.ids w.after w.before

def layersOf (w : Wires) : Columns :=
  (lateLayers w).toList.foldl (fun cols (id,layer) => cols.add layer id) Table.empty

end ChipForge.Layout
