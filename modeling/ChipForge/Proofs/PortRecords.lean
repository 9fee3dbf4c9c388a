import ChipForge.Proofs.Fields
import Mathlib.Data.List.Nodup

/-! Nodes of a graph are told apart by their ids up to blanks, the ports of a node by theirs. Where the ids are
distinct, a change to the port at some place is a change to the port with the ids found there, and every other port is
as it was. -/
namespace ChipForge.Save
open Json
open List hiding lookup insert

/-- Ids of a node, of its inputs and of its outputs. -/
structure Labels where
  id : Option Json
  inputs : List (Option Json)
  outputs : List (Option Json)

namespace Labels

def of (node : Json) : Labels :=
  ⟨node.get? "Id",(itemsOf "Inputs" node).map (·.get? "Id"),(itemsOf "Outputs" node).map (·.get? "Id")⟩

def key (l : Labels) : Option String := (l.id.bind asStr?).map Text.squeeze

/-- The node has a text as id, and each of its ports has an id. -/
structure Complete (l : Labels) : Prop where
  id : ∃ text, l.id=some (.str text)
  inputs : none∉l.inputs
  outputs : none∉l.outputs

end Labels

/-- Ids of nodes differ by more than blanks, and so do the ids of inputs of a node and those of its outputs. -/
structure DistinctIds (graph : List Labels) : Prop where
  nodes : (graph.map Labels.key).Nodup
  inputs : ∀ l∈graph, l.inputs.Nodup
  outputs : ∀ l∈graph, l.outputs.Nodup

theorem find?_of_nodup {α κ : Type} {key : α→κ} {p : α→Bool} {k : κ} (hp : ∀ x, p x=true ↔ key x=k) {items : List α}
    (hnodup : (items.map key).Nodup) {i : Nat} {x : α} (hx : items[i]?=some x) (hkey : key x=k) :
    items.find? p=some x := by
  induction items generalizing i with
  | nil => cases hx
  | cons y rest ih =>
    rw [map_cons,nodup_cons] at hnodup
    cases i with
    | zero =>
      cases hx
      rw [find?_cons,(hp x).2 hkey]
    | succ i =>
      have hrest : rest[i]?=some x := hx
      have hy : p y=false := by
        refine Bool.eq_false_iff.2 fun hy => hnodup.1 (mem_map.2 ⟨x,mem_of_getElem? hrest,?_⟩)
        rw [hkey,(hp y).1 hy]
      rw [find?_cons,hy]
      exact ih hnodup.2 hrest

open Classical in
noncomputable def withId (values : List Json) (id : Json) : Option Json := values.find? fun v => v.get? "Id" = some id

section withId
variable {values : List Json} {i : Nat} {x : Json} {id : Json} {f : Json→Json}

theorem withId_eq_some (hnodup : (values.map (·.get? "Id")).Nodup) (hx : values[i]?=some x) (hid : x.get? "Id" = some id) :
    withId values id=some x :=
  find?_of_nodup (fun v => by simp) hnodup hx hid

theorem map_id_modify (hx : values[i]?=some x) (hf : (f x).get? "Id" = x.get? "Id") :
    (values.modify i f).map (·.get? "Id")=values.map (·.get? "Id") := by
  induction values generalizing i with
  | nil => cases hx
  | cons v rest ih =>
    cases i with
    | zero =>
      cases hx
      simp [hf]
    | succ i =>
      rw [modify_succ_cons,map_cons,map_cons,ih (i := i) hx]

theorem withId_modify_ne (hx : values[i]?=some x) (hf : (f x).get? "Id" = x.get? "Id") (hne : x.get? "Id" ≠ some id) :
    withId (values.modify i f) id=withId values id := by
  induction values generalizing i with
  | nil => cases hx
  | cons v rest ih =>
    cases i with
    | zero =>
      cases hx
      simp [withId,hf,hne]
    | succ i =>
      have hrest := ih (i := i) hx
      by_cases hv : v.get? "Id" = some id
      · simp [withId,hv]
      · simpa [withId,hv] using hrest

theorem withId_modify_self (hnodup : (values.map (·.get? "Id")).Nodup) (hx : values[i]?=some x)
    (hf : (f x).get? "Id" = x.get? "Id") (hid : x.get? "Id" = some id) : withId (values.modify i f) id=some (f x) := by
  refine withId_eq_some (i := i) ?_ ?_ (hf.trans hid)
  · rwa [map_id_modify hx hf]
  · rw [getElem?_modify_eq,hx]
    rfl

end withId

noncomputable def portOf (nodes : List Json) (side : String) (node port : Json) : Option Json :=
  (withId nodes node).bind fun record => withId (itemsOf side record) port

def withPort (nodes : List Json) (i : Nat) (side : String) (j : Nat) (f : Json→Json) : List Json :=
  nodes.modify i fun node => node.update side fun ports => ports.updateAt j f

/-- A port at its place, with the ids it is found by. -/
structure Placed (nodes : List Json) (i : Nat) (side : String) (j : Nat) (node port record : Json) : Prop where
  sided : side = "Inputs" ∨ side = "Outputs"
  at_node : ∃ n, nodes[i]?=some n ∧ n.get? "Id" = some node ∧ (itemsOf side n)[j]?=some record
  named : record.get? "Id" = some port

section withPort
variable {nodes : List Json} {i j : Nat} {side : String} {node port record : Json} {f : Json→Json} {side' : String}

theorem DistinctIds.nodup_ids (h : DistinctIds (nodes.map Labels.of)) : (nodes.map (·.get? "Id")).Nodup := by
  have hkeys := h.nodes
  rw [map_map] at hkeys
  have hkey : Labels.key ∘ Labels.of=(fun id : Option Json => (id.bind asStr?).map Text.squeeze) ∘ (·.get? "Id") := rfl
  rw [hkey,← map_map] at hkeys
  exact hkeys.of_map

theorem DistinctIds.nodup_ports (h : DistinctIds (nodes.map Labels.of)) {n : Json} (hn : n∈nodes)
    (hside : side = "Inputs" ∨ side = "Outputs") : ((itemsOf side n).map (·.get? "Id")).Nodup := by
  rcases hside with rfl | rfl
  · exact h.inputs (Labels.of n) (mem_map_of_mem hn)
  · exact h.outputs (Labels.of n) (mem_map_of_mem hn)

theorem get?_id_update (hside : side = "Inputs" ∨ side = "Outputs") (n : Json) (g : Json→Json) :
    (n.update side g).get? "Id" = n.get? "Id" := by
  rw [get?_update,if_neg]
  rcases hside with rfl | rfl <;> decide

variable (hplaced : Placed nodes i side j node port record)
include hplaced

theorem Placed.found (hids : DistinctIds (nodes.map Labels.of)) : portOf nodes side node port=some record := by
  obtain ⟨n,hn,hid,hport⟩ := hplaced.at_node
  rw [portOf,withId_eq_some hids.nodup_ids hn hid,Option.bind_some]
  exact withId_eq_some (hids.nodup_ports (mem_of_getElem? hn) hplaced.sided) hport hplaced.named

theorem Placed.changed (hf : (f record).get? "Id" = some port) :
    Placed (withPort nodes i side j f) i side j node port (f record) := by
  obtain ⟨n,hn,hid,hport⟩ := hplaced.at_node
  refine ⟨hplaced.sided,⟨n.update side fun ports => ports.updateAt j f,?_,?_,?_⟩,hf⟩
  · simp [withPort,hn]
  · rw [get?_id_update hplaced.sided,hid]
  · simp [itemsOf_update,hport]

theorem labels_withPort (hf : (f record).get? "Id" = some port) :
    (withPort nodes i side j f).map Labels.of=nodes.map Labels.of := by
  obtain ⟨n,hn,-,hport⟩ := hplaced.at_node
  have hitems : ∀ s, (itemsOf s (n.update side fun ports => ports.updateAt j f)).map (·.get? "Id") =
      (itemsOf s n).map (·.get? "Id") := by
    intro s
    rw [itemsOf_update]
    split_ifs with h
    · rw [h]
      exact map_id_modify hport (hf.trans hplaced.named.symm)
    · rfl
  have hsame : Labels.of (n.update side fun ports => ports.updateAt j f)=Labels.of n := by
    simp only [Labels.of,get?_id_update hplaced.sided,hitems]
  unfold withPort
  refine ext_getElem? fun k => ?_
  rw [getElem?_map,getElem?_map,getElem?_modify]
  by_cases hk : i=k
  · subst hk
    simp [hn,hsame]
  · simp [hk]

theorem portOf_withPort_self (hids : DistinctIds (nodes.map Labels.of)) (hf : (f record).get? "Id" = some port) :
    portOf (withPort nodes i side j f) side node port=some (f record) :=
  (hplaced.changed hf).found ((labels_withPort hplaced hf).symm ▸ hids)

theorem portOf_withPort_ne (hids : DistinctIds (nodes.map Labels.of)) (hf : (f record).get? "Id" = some port)
    {node' port' : Json} (hne : ¬(side'=side ∧ node'=node ∧ port'=port)) :
    portOf (withPort nodes i side j f) side' node' port'=portOf nodes side' node' port' := by
  obtain ⟨n,hn,hid,hport⟩ := hplaced.at_node
  have hkept := get?_id_update hplaced.sided n fun ports => ports.updateAt j f
  by_cases hnode : node'=node
  · subst hnode
    rw [portOf,portOf,withPort,withId_modify_self hids.nodup_ids hn hkept hid,withId_eq_some hids.nodup_ids hn hid,
      Option.bind_some,Option.bind_some,itemsOf_update]
    split_ifs with h
    · subst h
      refine withId_modify_ne hport (hf.trans hplaced.named.symm) fun heq => hne ⟨rfl,rfl,?_⟩
      exact Option.some.inj (heq.symm.trans hplaced.named)
    · rfl
  · have hfound : withId (withPort nodes i side j f) node'=withId nodes node' :=
      withId_modify_ne hn hkept fun heq => hnode (Option.some.inj (heq.symm.trans hid))
    rw [portOf,portOf,hfound]

theorem Placed.across {i' j' : Nat} (hside' : side' = "Inputs" ∨ side' = "Outputs") (hne : side≠side') :
    Placed (withPort nodes i' side' j' f) i side j node port record := by
  obtain ⟨n,hn,hid,hport⟩ := hplaced.at_node
  by_cases hi : i'=i
  · subst hi
    refine ⟨hplaced.sided,⟨n.update side' fun ports => ports.updateAt j' f,?_,?_,?_⟩,hplaced.named⟩
    · simp [withPort,hn]
    · rw [get?_id_update hside',hid]
    · rw [itemsOf_update,if_neg hne,hport]
  · refine ⟨hplaced.sided,⟨n,?_,hid,hport⟩,hplaced.named⟩
    simp [withPort,hi,hn]

end withPort

end ChipForge.Save
