import ChipForge.Proofs.OpTree

/-! How a graph grows while an expression is compiled: the nodes that were there and all wires to them stay as they are. -/
namespace ChipForge.Wiring
open Script Relation List

abbrev noIds : String→Prop := fun _ => False

/-- A sound later state in which the nodes of the earlier one and all wires to them are as they were. -/
structure Grown (s t : State) : Prop where
  later : Extends s.graph.nodes.length s t
  sound : Sound t
  drawn : ∀ id∈s.graph.ids, t.drawnInto id=s.drawnInto id
  waiting : ∀ id∈s.graph.ids, t.waitingInto id=s.waitingInto id

namespace Grown

variable {b s t : State} {id : String}

theorem refl (hs : Sound s) : Grown s s := ⟨Extends.refl _ s,hs,fun _ _ => rfl,fun _ _ => rfl⟩

theorem feeds (h : Grown s t) (hid : id∈s.graph.ids) : t.feeds id=s.feeds id := by
  rw [State.feeds,State.feeds,h.drawn id hid,h.waiting id hid]

theorem nodes (h : Grown s t) : s.graph.nodes <+: t.graph.nodes := by
  have htake := h.later.nodes (Nat.le_refl _)
  rw [take_length] at htake
  exact htake ▸ take_prefix _ _

theorem ids_eq (h : Grown s t) : t.graph.ids=s.graph.ids++t.graph.idsFrom s.graph.nodes.length := by
  have htake := h.later.nodes (Nat.le_refl _)
  rw [take_length] at htake
  rw [Graph.ids,Graph.ids,Graph.idsFrom,← htake,length_take,← map_append]
  rw [Nat.min_eq_left h.later.length_le,take_append_drop]

theorem mem_idsFrom_iff (h : Grown s t) (id : String) :
    id∈t.graph.idsFrom s.graph.nodes.length ↔ id∈t.graph.ids ∧ id∉s.graph.ids := by
  have hnodup := h.sound.nodup
  rw [h.ids_eq,nodup_append] at hnodup
  rw [h.ids_eq,mem_append]
  constructor
  · intro hid
    exact ⟨.inr hid,fun hs => hnodup.2.2 id hs id hid rfl⟩
  · rintro ⟨hs | hid,hnew⟩
    · exact absurd hs hnew
    · exact hid

theorem kind? (h : Grown s t) (hid : id∈s.graph.ids) : t.graph.kind? id=s.graph.kind? id := by
  obtain ⟨more,hmore⟩ := h.nodes
  have hskip : more.reverse.find? (·.id == id)=none := by
    refine find?_eq_none.2 fun node hnode hsame => ?_
    have hnodup := h.sound.nodup
    rw [Graph.ids,← hmore,map_append,nodup_append] at hnodup
    refine hnodup.2.2 id hid node.id ?_ (beq_iff_eq.1 hsame).symm
    exact mem_map.2 ⟨node,mem_reverse.1 hnode,rfl⟩
  rw [Graph.kind?,Graph.kind?,Graph.lastNode?,Graph.lastNode?,← hmore,reverse_append,find?_append,hskip,
    Option.none_or]

theorem constant? (h : Grown s t) (hid : id∈s.graph.ids) : t.constant? id=s.constant? id :=
  State.constant?_congr (h.kind? hid) (h.feeds hid)

theorem step (h : Grown b s) (hstep : Step noIds b.graph.nodes.length s t) : Grown b t := by
  have hfeeds : ∀ id∈b.graph.ids, t.drawnInto id=s.drawnInto id ∧ t.waitingInto id=s.waitingInto id := by
    intro id hid
    cases hstep with
    | wire ref dest port line href htarget =>
      have hne : dest≠id := fun heq => ((h.mem_idsFrom_iff dest).1 htarget.1).2 (heq ▸ hid)
      cases ref with
      | node source out =>
        rw [State.drawnInto_connect_node,if_neg hne,append_nil]
        exact ⟨rfl,rfl⟩
      | name source out =>
        rw [State.waitingInto_connect_name,if_neg hne,append_nil]
        exact ⟨rfl,rfl⟩
    | hold v t =>
      have hpending : (s.hold v t).pending=s.pending := by
        cases t <;> rfl
      rw [State.drawnInto,State.waitingInto,s.hold_graph,hpending]
      exact ⟨rfl,rfl⟩
    | grant id module label attrs hasked hfree => exact hasked.elim
    | draw module label attrs => exact ⟨rfl,rfl⟩
    | inputs place ports hplace => exact ⟨rfl,rfl⟩
    | attrs id f hid hf => exact ⟨rfl,rfl⟩
    | nodeType id t hid => exact ⟨rfl,rfl⟩
    | written name => exact ⟨rfl,rfl⟩
  refine ⟨h.later.trans hstep.extends,hstep.sound (fun _ hx => hx) h.sound,fun id hid => ?_,fun id hid => ?_⟩
  · exact (hfeeds id hid).1.trans (h.drawn id hid)
  · exact (hfeeds id hid).2.trans (h.waiting id hid)

end Grown

end ChipForge.Wiring
