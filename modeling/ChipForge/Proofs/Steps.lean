import ChipForge.Proofs.Graph
import ChipForge.Proofs.Outcome
import ChipForge.Proofs.Table
import Mathlib.Logic.Relation

/-! The changes that compiling an expression can make to the state, one by one. Every invariant of compilation is proved
once for a single change. -/
namespace ChipForge.Wiring
open Script Relation List

namespace State

def draw (s : State) (module label : String) (attrs : Attrs) : State :=
  { s with graph := (s.graph.nextId module).2.addNode ⟨(s.graph.nextId module).1,module,label,attrs,[],[]⟩ }.seeNode
    (s.graph.nextId module).1

def grant (s : State) (id module label : String) (attrs : Attrs) : State :=
  { s with graph := s.graph.addNode ⟨id,module,label,attrs,[],[]⟩ }.seeNode id

def constantAttrs (v : Literal) (t : Option GateType) : Attrs :=
  (.str "value",v)::(match t with
    | some t => [(.str "data_type",.str t.name)]
    | none => [])

/-- The state with a node that holds a constant. -/
def drawConstant (s : State) (v : Literal) (t : Option GateType) : State :=
  let drawn := s.draw "Constant" (autoLabel "Constant" (constantAttrs v t)) (constantAttrs v t)
  match t with
  | some t => drawn.setNodeType (s.graph.nextId "Constant").1 t
  | none => drawn

def hold (s : State) (v : Literal) (t : Option GateType) : State :=
  { s.drawConstant v t with
    shared := (s.drawConstant v t).shared.put (constantKey v t) (s.graph.nextId "Constant").1 }

def setInputs (s : State) (place : Nat) (ports : List String) : State :=
  { s with graph := s.graph.updateAt place fun node => { node with inputs := ports } }

def mapAttrs (s : State) (id : String) (f : Attrs→Attrs) : State :=
  { s with graph := s.graph.updateLast id fun node => { node with attrs := f node.attrs } }

/-- A reference to a name, to a node there is, or to one that a name stands for. -/
def Knows (s : State) : Ref→Prop
  | .node id _ => id∈s.graph.ids ∨ ∃ name, s.nodeOf.find name=some id
  | .name _ _ => True

/-- A node from place `n` on to which wires may be drawn. In a script that asks for no ids, no constant shares it. -/
def Target (s : State) (asked : String→Prop) (n : Nat) (id : String) : Prop :=
  id∈s.graph.idsFrom n ∧ ((∀ x, ¬asked x) → id∈s.graph.used ∧ ∀ key, s.shared.find key≠some id)

end State

/-- One change made by the compilation of an expression, in a graph whose first `n` nodes are finished. Ids are new
numbers, or texts that were asked for. -/
inductive Step (asked : String→Prop) (n : Nat) : State→State→Prop
  | draw (s : State) (module label : String) (attrs : Attrs) :
    Step asked n s (s.draw module label attrs)
  | grant (s : State) (id module label : String) (attrs : Attrs) (hasked : asked id)
    (hfree : id∉s.graph.used) : Step asked n s (s.grant id module label attrs)
  | hold (s : State) (v : Literal) (t : Option GateType) : Step asked n s (s.hold v t)
  | wire (s : State) (ref : Ref) (id port : String) (line : Option Nat) (href : s.Knows ref)
    (hid : s.Target asked n id) : Step asked n s (s.connect ref id port line)
  | inputs (s : State) (place : Nat) (ports : List String) (hplace : n ≤ place) :
    Step asked n s (s.setInputs place ports)
  | attrs (s : State) (id : String) (f : Attrs→Attrs)
    (hid : id∈s.graph.idsFrom n) (hf : ∀ attrs, attr? (f attrs) "value" = attr? attrs "value") :
    Step asked n s (s.mapAttrs id f)
  | nodeType (s : State) (id : String) (t : GateType) (hid : id∈s.graph.idsFrom n) : Step asked n s (s.setNodeType id t)
  | written (s : State) (name : String) : Step asked n s (s.markWritten name)

namespace State

theorem drawConstant_graph (s : State) (v : Literal) (t : Option GateType) : (s.drawConstant v t).graph =
    (s.draw "Constant" (autoLabel "Constant" (constantAttrs v t)) (constantAttrs v t)).graph := by
  cases t <;> rfl

theorem hold_graph (s : State) (v : Literal) (t : Option GateType) : (s.hold v t).graph =
    (s.draw "Constant" (autoLabel "Constant" (constantAttrs v t)) (constantAttrs v t)).graph :=
  s.drawConstant_graph v t

theorem hold_shared (s : State) (v : Literal) (t : Option GateType) :
    (s.hold v t).shared=s.shared.put (constantKey v t) (s.graph.nextId "Constant").1 := by
  cases t <;> rfl

theorem setInputs_ids (s : State) (place : Nat) (ports : List String) :
    (s.setInputs place ports).graph.ids=s.graph.ids :=
  Graph.ids_updateAt (by intro node; rfl) s.graph place

theorem mapAttrs_ids (s : State) (id : String) (f : Attrs→Attrs) :
    (s.mapAttrs id f).graph.ids=s.graph.ids :=
  Graph.ids_updateLast (by intro node; rfl) s.graph id

theorem knows_of_mem {s : State} {id : String} (h : id∈s.graph.ids) (port : String) : s.Knows (.node id port) := .inl h

end State

/-- A later state: nodes, wires and waiting wires are only added, the first `n` nodes are as they were and have the types
they had, and names stand for what they stood for. -/
structure Extends (n : Nat) (s t : State) : Prop where
  ids : s.graph.ids <+: t.graph.ids
  nodes : n ≤ s.graph.nodes.length → t.graph.nodes.take n=s.graph.nodes.take n
  nodeTypes : n ≤ s.graph.nodes.length→∀ id∉t.graph.idsFrom n, t.nodeTypes.find id=s.nodeTypes.find id
  edges : s.graph.edges <+: t.graph.edges
  pending : s.pending <+: t.pending
  nodeOf : t.nodeOf=s.nodeOf
  aliases : t.aliases=s.aliases
  nameTypes : t.nameTypes=s.nameTypes
  definitions : t.graph.definitions=s.graph.definitions
  guarded : t.guarded=s.guarded
  inGuard : t.inGuard=s.inGuard
  used : s.graph.used ⊆ t.graph.used
  shared : ∀ key id, t.shared.find key=some id → s.shared.find key=some id ∨ id∉s.graph.used

namespace Extends

variable {n : Nat} {s t u : State} {k : Nat} {id : String}

theorem refl (n : Nat) (s : State) : Extends n s s :=
  ⟨prefix_rfl,fun _ => rfl,fun _ _ _ => rfl,prefix_rfl,prefix_rfl,rfl,rfl,rfl,rfl,rfl,rfl,List.Subset.refl _,
    fun _ _ h => .inl h⟩

theorem length_le (h : Extends n s t) : s.graph.nodes.length ≤ t.graph.nodes.length := by
  simpa [Graph.ids] using h.ids.length_le

theorem mem_idsFrom (h : Extends n s t) (hid : id∈s.graph.idsFrom k) : id∈t.graph.idsFrom k := by
  obtain ⟨more,hmore⟩ := h.ids
  unfold Graph.ids at hmore
  unfold Graph.idsFrom at hid ⊢
  rw [map_drop] at hid ⊢
  rw [← hmore,drop_append]
  exact mem_append_left _ hid

theorem trans (hst : Extends n s t) (htu : Extends n t u) : Extends n s u where
  ids := hst.ids.trans htu.ids
  nodes h := (htu.nodes (Nat.le_trans h hst.length_le)).trans (hst.nodes h)
  nodeTypes h id hid := (htu.nodeTypes (Nat.le_trans h hst.length_le) id hid).trans
    (hst.nodeTypes h id fun hmem => hid (htu.mem_idsFrom hmem))
  edges := hst.edges.trans htu.edges
  pending := hst.pending.trans htu.pending
  nodeOf := htu.nodeOf.trans hst.nodeOf
  aliases := htu.aliases.trans hst.aliases
  nameTypes := htu.nameTypes.trans hst.nameTypes
  definitions := htu.definitions.trans hst.definitions
  guarded := htu.guarded.trans hst.guarded
  inGuard := htu.inGuard.trans hst.inGuard
  used := List.Subset.trans hst.used htu.used
  shared key id h := by
    rcases htu.shared key id h with ht | hnew
    · exact hst.shared key id ht
    · exact .inr fun hused => hnew (hst.used hused)

theorem knows (h : Extends n s t) {ref : Ref} (hs : s.Knows ref) : t.Knows ref := by
  cases ref with
  | node id port =>
    rcases hs with hid | ⟨name,hname⟩
    · exact .inl (h.ids.subset hid)
    · exact .inr ⟨name,by rw [h.nodeOf,hname]⟩
  | name id port => trivial

theorem target (h : Extends n s t) {asked : String→Prop} (hid : s.Target asked k id) : t.Target asked k id := by
  refine ⟨h.mem_idsFrom hid.1,fun hnone => ?_⟩
  obtain ⟨hused,hfree⟩ := hid.2 hnone
  refine ⟨h.used hused,fun key hkey => ?_⟩
  rcases h.shared key id hkey with hs | hnew
  · exact hfree key hs
  · exact hnew hused

theorem of_graph (hgraph : t.graph=s.graph) (hpending : t.pending=s.pending) (hnodeOf : t.nodeOf=s.nodeOf)
    (haliases : t.aliases=s.aliases) (hnameTypes : t.nameTypes=s.nameTypes)
    (hnodeTypes : ∀ id∉t.graph.idsFrom n, t.nodeTypes.find id=s.nodeTypes.find id) (hguarded : t.guarded=s.guarded)
    (hinGuard : t.inGuard=s.inGuard) (hshared : t.shared=s.shared) : Extends n s t := by
  refine ⟨?_,fun _ => ?_,fun _ => hnodeTypes,?_,?_,hnodeOf,haliases,hnameTypes,?_,hguarded,hinGuard,?_,
    fun key id h => ?_⟩
  · exact hgraph ▸ prefix_rfl
  · rw [hgraph]
  · exact hgraph ▸ prefix_rfl
  · exact hpending ▸ prefix_rfl
  · rw [hgraph]
  · exact hgraph ▸ List.Subset.refl _
  · exact .inl (hshared ▸ h)

end Extends

section Step
variable {asked : String→Prop} {n : Nat} {s t : State}

/-- The compilation of an expression only adds to the state. -/
theorem Step.extends (h : Step asked n s t) : Extends n s t := by
  cases h with
  | draw module label attrs =>
    refine ⟨?_,fun hn => ?_,fun _ _ _ => rfl,prefix_rfl,prefix_rfl,rfl,rfl,rfl,rfl,rfl,rfl,?_,
      fun _ _ h => .inl h⟩
    · exact (Graph.ids_addNode _ _).symm ▸ prefix_append _ _
    · exact take_append_of_le_length hn
    · exact subset_cons_self _ _
  | grant id module label attrs hasked hfree =>
    refine ⟨?_,fun hn => ?_,fun _ _ _ => rfl,prefix_rfl,prefix_rfl,rfl,rfl,rfl,rfl,rfl,rfl,List.Subset.refl _,
      fun _ _ h => .inl h⟩
    · exact (Graph.ids_addNode _ _).symm ▸ prefix_append _ _
    · exact take_append_of_le_length hn
  | hold v t =>
    refine ⟨?_,fun hn => ?_,fun hn id hid => ?_,?_,?_,?_,?_,?_,?_,?_,?_,?_,fun key id h => ?_⟩
    · rw [s.hold_graph]
      exact (Graph.ids_addNode _ _).symm ▸ prefix_append _ _
    · rw [s.hold_graph]
      exact take_append_of_le_length hn
    · cases t with
      | none => rfl
      | some t =>
        refine Table.find_put_ne _ _ fun hsame => hid ?_
        rw [s.hold_graph]
        exact (Graph.idsFrom_addNode hn _).symm ▸ mem_append_right _ (mem_singleton.2 hsame)
    · rw [s.hold_graph]
      exact prefix_rfl
    · cases t <;> exact prefix_rfl
    · cases t <;> rfl
    · cases t <;> rfl
    · cases t <;> rfl
    · rw [s.hold_graph]
      rfl
    · cases t <;> rfl
    · cases t <;> rfl
    · rw [s.hold_graph]
      exact subset_cons_self _ _
    · rw [s.hold_shared,Table.find_put] at h
      split_ifs at h
      · cases h
        exact .inr (s.graph.nextId_notMem_used "Constant")
      · exact .inl h
  | wire ref id port line href hid =>
    cases ref with
    | node source out =>
      exact ⟨prefix_rfl,fun _ => rfl,fun _ _ _ => rfl,prefix_append _ _,prefix_rfl,rfl,rfl,rfl,rfl,rfl,rfl,
        List.Subset.refl _,fun _ _ h => .inl h⟩
    | name source out =>
      exact ⟨prefix_rfl,fun _ => rfl,fun _ _ _ => rfl,prefix_rfl,prefix_append _ _,rfl,rfl,rfl,rfl,rfl,rfl,
        List.Subset.refl _,fun _ _ h => .inl h⟩
  | inputs place ports hplace =>
    refine ⟨?_,fun _ => s.graph.take_updateAt hplace _,fun _ _ _ => rfl,prefix_rfl,prefix_rfl,rfl,rfl,rfl,rfl,rfl,
      rfl,List.Subset.refl _,fun _ _ h => .inl h⟩
    exact s.setInputs_ids place ports ▸ prefix_rfl
  | attrs id f hid hf =>
    refine ⟨?_,fun _ => Graph.take_updateLast hid _,fun _ _ _ => rfl,prefix_rfl,prefix_rfl,rfl,rfl,rfl,rfl,rfl,rfl,
      List.Subset.refl _,fun _ _ h => .inl h⟩
    exact s.mapAttrs_ids id f ▸ prefix_rfl
  | nodeType id t hid =>
    refine Extends.of_graph rfl rfl rfl rfl rfl (fun other hother => ?_) rfl rfl rfl
    exact Table.find_put_ne _ _ fun hsame => hother (hsame ▸ hid)
  | written name => exact Extends.of_graph rfl rfl rfl rfl rfl (fun _ _ => rfl) rfl rfl rfl

end Step

end ChipForge.Wiring
