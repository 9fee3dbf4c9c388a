import ChipForge.Proofs.Steps

/-! Scripts that ask for no ids keep the state sound: nodes have different ids, wires lead to nodes, names stand for
nodes, and shared constants hold what their keys say and nothing is wired to them. -/
namespace ChipForge.Wiring
open Script Relation List

def Ref.isNode : Ref→Bool
  | .node _ _ => true
  | .name _ _ => false

namespace State

variable {s : State} {t : State} {id : String}

/-- Every node that a name stands for is there. -/
def Bound (s : State) : Prop := ∀ name id, s.nodeOf.find name=some id → id∈s.graph.ids

def drawnInto (s : State) (id : String) : List (String×Ref) :=
  (s.graph.edges.filter (·.toNode == id)).map fun e => (e.toPort,.node e.fromNode e.fromPort)

def waitingInto (s : State) (id : String) : List (String×Ref) :=
  (s.pending.filter (·.toNode == id)).map fun p => (p.toPort,.name p.name p.port)

/-- Ports of a node with what feeds them, those that wait last. -/
def feeds (s : State) (id : String) : List (String×Ref) := s.drawnInto id++s.waitingInto id

/-- The value of a constant: a node of that type to which nothing is wired. -/
def constant? (s : State) (id : String) : Option Literal :=
  (s.graph.kind? id).bind fun kind =>
    if kind.1 = "Constant" ∧ s.feeds id=[] then attr? kind.2 "value" else none

theorem feeds_congr (hedges : t.graph.edges=s.graph.edges) (hpending : t.pending=s.pending) (id : String) :
    t.feeds id=s.feeds id := by
  rw [feeds,feeds,drawnInto,drawnInto,waitingInto,waitingInto,hedges,hpending]

theorem constant?_congr (hkind : t.graph.kind? id=s.graph.kind? id) (hfeeds : t.feeds id=s.feeds id) :
    t.constant? id=s.constant? id := by
  rw [constant?,constant?,hkind,hfeeds]

theorem mem_ids_of_constant? {v : Literal} (h : s.constant? id=some v) : id∈s.graph.ids := by
  rw [← Graph.kind?_isSome_iff]
  unfold constant? at h
  cases hkind : s.graph.kind? id with
  | none =>
    rw [hkind] at h
    cases h
  | some kind => rfl

theorem drawnInto_connect_node (s : State) (source out dest port : String) (line : Option Nat) (id : String) :
    (s.connect (.node source out) dest port line).drawnInto id =
      s.drawnInto id++if dest=id then [(port,.node source out)] else [] := by
  have hedges : (s.connect (.node source out) dest port line).graph.edges =
      s.graph.edges++[⟨source,out,dest,port,line⟩] := rfl
  rw [drawnInto,drawnInto,hedges,filter_append,map_append]
  congr 1
  by_cases h : dest=id
  · simp [h]
  · simp [h]

theorem waitingInto_connect_name (s : State) (source out dest port : String) (line : Option Nat) (id : String) :
    (s.connect (.name source out) dest port line).waitingInto id =
      s.waitingInto id++if dest=id then [(port,.name source out)] else [] := by
  have hpending : (s.connect (.name source out) dest port line).pending =
      s.pending++[⟨source,out,dest,port,line⟩] := rfl
  rw [waitingInto,waitingInto,hpending,filter_append,map_append]
  congr 1
  by_cases h : dest=id
  · simp [h]
  · simp [h]

theorem feeds_connect_of_ne {ref : Ref} {dest port : String} {line : Option Nat} (h : dest≠id) :
    (s.connect ref dest port line).feeds id=s.feeds id := by
  cases ref with
  | node source out =>
    rw [feeds,drawnInto_connect_node,if_neg h,append_nil]
    rfl
  | name source out =>
    rw [feeds,waitingInto_connect_name,if_neg h,append_nil]
    rfl

theorem connect_kind? (s : State) (ref : Ref) (dest port : String) (line : Option Nat) (id : String) :
    (s.connect ref dest port line).graph.kind? id=s.graph.kind? id := by
  cases ref <;> rfl

end State

/-- What holds of every state of a script that asks for no ids. -/
structure Sound (s : State) : Prop where
  nodup : s.graph.ids.Nodup
  used : s.graph.ids ⊆ s.graph.used
  edges : ∀ e∈s.graph.edges, e.toNode∈s.graph.ids
  pending : ∀ p∈s.pending, p.toNode∈s.graph.ids
  bound : s.Bound
  shared : ∀ key id, s.shared.find key=some id→∃ v t, key=constantKey v t ∧ s.constant? id=some v

namespace Sound

variable {s t : State} {id : String}

theorem initial : Sound State.initial where
  nodup := nodup_nil
  used := nil_subset _
  edges _ h := nomatch h
  pending _ h := nomatch h
  bound _ _ h := nomatch h
  shared _ _ h := nomatch h

theorem mem_ids_of_shared (hs : Sound s) {key : String} (h : s.shared.find key=some id) : id∈s.graph.ids := by
  obtain ⟨v,t,-,hv⟩ := hs.shared key id h
  exact State.mem_ids_of_constant? hv

theorem not_shared (hs : Sound s) {node : Node} (hnode : s.graph.lastNode? id=some node) (htype : node.type ≠ "Constant")
    (key : String) : s.shared.find key≠some id := by
  intro hkey
  obtain ⟨v,t,-,hv⟩ := hs.shared key id hkey
  rw [State.constant?,Graph.kind?,hnode] at hv
  simp [Node.kind,htype] at hv

theorem feeds_eq_nil (hs : Sound s) (h : id∉s.graph.ids) : s.feeds id=[] := by
  have hdrawn : s.graph.edges.filter (·.toNode == id)=[] := by
    refine filter_eq_nil_iff.2 fun e he hid => h ?_
    exact (beq_iff_eq.1 hid) ▸ hs.edges e he
  have hwaiting : s.pending.filter (·.toNode == id)=[] := by
    refine filter_eq_nil_iff.2 fun p hp hid => h ?_
    exact (beq_iff_eq.1 hid) ▸ hs.pending p hp
  rw [State.feeds,State.drawnInto,State.waitingInto,hdrawn,hwaiting]
  rfl

theorem nextId_notMem_ids (hs : Sound s) (module : String) : (s.graph.nextId module).1∉s.graph.ids :=
  fun h => s.graph.nextId_notMem_used module (hs.used h)

theorem of_records (hs : Sound s) (hids : t.graph.ids=s.graph.ids) (hused : t.graph.used=s.graph.used)
    (hedges : t.graph.edges=s.graph.edges) (hpending : t.pending=s.pending) (hnodeOf : t.nodeOf=s.nodeOf)
    (hshared : t.shared=s.shared) (hconstant : ∀ id, t.constant? id=s.constant? id) : Sound t where
  nodup := hids ▸ hs.nodup
  used := hids ▸ hused ▸ hs.used
  edges := hids ▸ hedges ▸ hs.edges
  pending := hids ▸ hpending ▸ hs.pending
  bound name id h := hids ▸ hs.bound name id (hnodeOf ▸ h)
  shared key id h := by
    obtain ⟨v,u,hkey,hv⟩ := hs.shared key id (hshared ▸ h)
    exact ⟨v,u,hkey,(hconstant id).trans hv⟩

theorem of_graph (hs : Sound s) (hgraph : t.graph=s.graph) (hpending : t.pending=s.pending)
    (hnodeOf : t.nodeOf=s.nodeOf) (hshared : t.shared=s.shared) : Sound t := by
  refine hs.of_records (by rw [hgraph]) (by rw [hgraph]) (by rw [hgraph]) hpending hnodeOf hshared fun id => ?_
  exact State.constant?_congr (by rw [hgraph]) (State.feeds_congr (by rw [hgraph]) hpending id)

theorem kind?_draw (hs : Sound s) (module label : String) (attrs : Attrs) (h : id∈s.graph.ids) :
    (s.draw module label attrs).graph.kind? id=s.graph.kind? id := by
  have hne : (s.graph.nextId module).1≠id := fun heq => hs.nextId_notMem_ids module (heq ▸ h)
  show (Graph.addNode _ _).kind? id=_
  rw [Graph.kind?_addNode,if_neg hne]
  rfl

theorem constant?_draw (hs : Sound s) (module label : String) (attrs : Attrs) (h : id∈s.graph.ids) :
    (s.draw module label attrs).constant? id=s.constant? id :=
  State.constant?_congr (hs.kind?_draw module label attrs h) (State.feeds_congr rfl rfl id)

theorem draw (hs : Sound s) (module label : String) (attrs : Attrs) :
    Sound (s.draw module label attrs) := by
  have hids : (s.draw module label attrs).graph.ids=s.graph.ids++[(s.graph.nextId module).1] :=
    Graph.ids_addNode _ _
  refine ⟨?_,?_,?_,?_,?_,?_⟩
  · rw [hids,nodup_append]
    refine ⟨hs.nodup,nodup_singleton _,fun a ha b hb hab => ?_⟩
    exact hs.nextId_notMem_ids module (mem_singleton.1 hb ▸ hab ▸ ha)
  · rw [hids]
    refine append_subset.2 ⟨fun id hid => mem_cons_of_mem _ (hs.used hid),fun id hid => ?_⟩
    exact mem_singleton.1 hid ▸ mem_cons_self
  · exact fun e he => hids ▸ mem_append_left _ (hs.edges e he)
  · exact fun p hp => hids ▸ mem_append_left _ (hs.pending p hp)
  · exact fun name id h => hids ▸ mem_append_left _ (hs.bound name id h)
  · intro key id h
    obtain ⟨v,t,hkey,hv⟩ := hs.shared key id h
    exact ⟨v,t,hkey,(hs.constant?_draw module label attrs (State.mem_ids_of_constant? hv)).trans hv⟩

theorem drawConstant (hs : Sound s) (v : Literal) (u : Option GateType) : Sound (s.drawConstant v u) := by
  refine (hs.draw "Constant" _ _).of_graph (s.drawConstant_graph v u) ?_ ?_ ?_ <;> cases u <;> rfl

theorem hold (hs : Sound s) (v : Literal) (u : Option GateType) : Sound (s.hold v u) := by
  let label := autoLabel "Constant" (State.constantAttrs v u)
  have hdraw : Sound (s.draw "Constant" label (State.constantAttrs v u)) := hs.draw _ _ _
  have hpending : (s.hold v u).pending=(s.draw "Constant" label (State.constantAttrs v u)).pending := by
    cases u <;> rfl
  have hnodeOf : (s.hold v u).nodeOf=s.nodeOf := by
    cases u <;> rfl
  have hconstant : ∀ id, (s.hold v u).constant? id=(s.draw "Constant" label (State.constantAttrs v u)).constant? id :=
    fun id => State.constant?_congr (by rw [s.hold_graph]) (State.feeds_congr (by rw [s.hold_graph]) hpending id)
  refine ⟨?_,?_,?_,?_,?_,?_⟩
  · rw [s.hold_graph]
    exact hdraw.nodup
  · rw [s.hold_graph]
    exact hdraw.used
  · rw [s.hold_graph]
    exact hdraw.edges
  · rw [s.hold_graph,hpending]
    exact hdraw.pending
  · intro name id h
    rw [s.hold_graph]
    exact hdraw.bound name id (hnodeOf ▸ h)
  · intro key id h
    rw [s.hold_shared,Table.find_put] at h
    split_ifs at h with hkey
    · cases h
      refine ⟨v,u,hkey,?_⟩
      have hkind : (s.draw "Constant" label (State.constantAttrs v u)).graph.kind? (s.graph.nextId "Constant").1 =
          some ("Constant",State.constantAttrs v u) := by
        show (Graph.addNode _ _).kind? _ = _
        rw [Graph.kind?_addNode,if_pos rfl]
        rfl
      have hfeeds : (s.draw "Constant" label (State.constantAttrs v u)).feeds (s.graph.nextId "Constant").1=[] :=
        hs.feeds_eq_nil (hs.nextId_notMem_ids "Constant")
      rw [hconstant,State.constant?,hkind,hfeeds]
      simp [attr?,State.constantAttrs,Literal.get?,Literal.same]
    · obtain ⟨w,t,hw,hconst⟩ := hs.shared key id h
      refine ⟨w,t,hw,?_⟩
      rw [hconstant,hs.constant?_draw _ _ _ (State.mem_ids_of_constant? hconst),hconst]

theorem connect (hs : Sound s) (ref : Ref) (port : String) (line : Option Nat) (hid : id∈s.graph.ids)
    (hfree : ∀ key, s.shared.find key≠some id) : Sound (s.connect ref id port line) := by
  have hids : (s.connect ref id port line).graph.ids=s.graph.ids := by
    cases ref <;> rfl
  refine ⟨?_,?_,?_,?_,?_,?_⟩
  · rw [hids]
    exact hs.nodup
  · rw [hids]
    cases ref <;> exact hs.used
  · rw [hids]
    cases ref with
    | name source out => exact hs.edges
    | node source out =>
      intro e he
      rcases mem_append.1 (show e∈s.graph.edges++[⟨source,out,id,port,line⟩] from he) with he | he
      · exact hs.edges e he
      · exact mem_singleton.1 he ▸ hid
  · rw [hids]
    cases ref with
    | node source out => exact hs.pending
    | name source out =>
      intro p hp
      rcases mem_append.1 (show p∈s.pending++[⟨source,out,id,port,line⟩] from hp) with hp | hp
      · exact hs.pending p hp
      · exact mem_singleton.1 hp ▸ hid
  · intro name other h
    rw [hids]
    cases ref <;> exact hs.bound name other h
  · intro key other h
    have h' : s.shared.find key=some other := by
      cases ref <;> exact h
    obtain ⟨v,t,hkey,hv⟩ := hs.shared key other h'
    have hne : id≠other := fun heq => hfree key (heq ▸ h')
    refine ⟨v,t,hkey,?_⟩
    rw [State.constant?_congr (s.connect_kind? ref id port line other) (State.feeds_connect_of_ne hne),hv]

end Sound

theorem State.kind?_mapAttrs (s : State) (id : String) (f : Attrs→Attrs)
    (other : String) : (s.mapAttrs id f).graph.kind? other =
      if other=id then (s.graph.kind? id).map fun kind => (kind.1,f kind.2) else s.graph.kind? other := by
  show ((s.graph.updateLast id _).lastNode? other).map Node.kind=_
  rw [Graph.lastNode?_updateLast (by intro node; rfl),Graph.kind?,Graph.kind?]
  split_ifs
  · cases s.graph.lastNode? id <;> rfl
  · rfl

theorem State.constant?_mapAttrs (s : State) (id : String) {f : Attrs→Attrs}
    (hf : ∀ attrs, attr? (f attrs) "value" = attr? attrs "value") (other : String) :
    (s.mapAttrs id f).constant? other=s.constant? other := by
  have hfeeds : (s.mapAttrs id f).feeds other=s.feeds other := State.feeds_congr rfl rfl other
  rw [State.constant?,State.constant?,s.kind?_mapAttrs,hfeeds]
  split_ifs with h
  · subst h
    cases s.graph.kind? other with
    | none => rfl
    | some kind => simp [hf]
  · rfl

theorem State.constant?_setInputs (s : State) (place : Nat) (ports : List String) (id : String) :
    (s.setInputs place ports).constant? id=s.constant? id :=
  State.constant?_congr (Graph.kind?_congr (Graph.map_updateAt (by intro node; rfl) s.graph place) id)
    (State.feeds_congr rfl rfl id)

section Step
variable {asked : String→Prop} {n : Nat} {s t : State}

/-- Where no ids are asked for, emission keeps the state sound. -/
theorem Step.sound (hnone : ∀ x, ¬asked x) (h : Step asked n s t) (hs : Sound s) : Sound t := by
  cases h with
  | draw module label attrs => exact hs.draw module label attrs
  | grant id module label attrs hasked hfree => exact absurd hasked (hnone id)
  | hold v t => exact hs.hold v t
  | wire ref id port line href hid =>
    exact hs.connect ref port line (Graph.mem_ids_of_mem_idsFrom hid.1) (hid.2 hnone).2
  | inputs place ports hplace =>
    exact hs.of_records (s.setInputs_ids place ports) rfl rfl rfl rfl rfl (s.constant?_setInputs place ports)
  | attrs id f hid hf => exact hs.of_records (s.mapAttrs_ids id f) rfl rfl rfl rfl rfl (s.constant?_mapAttrs id hf)
  | nodeType id t hid => exact hs.of_graph rfl rfl rfl rfl
  | written name => exact hs.of_graph rfl rfl rfl rfl

end Step

end ChipForge.Wiring
