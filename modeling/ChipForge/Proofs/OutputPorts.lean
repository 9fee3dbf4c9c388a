import ChipForge.Proofs.CompiledExpression
import ChipForge.Proofs.ForwardReferences

/-! In a script that asks for no ids the noted output ports hold exactly one entry for each node, so the lists made from
them are those of the wires that leave the nodes. -/
namespace ChipForge.Wiring
open Script Relation List Table

variable {s t : State}

/-- The notes about outputs are those of the wires: one entry per node, each port once. -/
structure Tallied (s : State) : Prop where
  sources : ∀ e∈s.graph.edges, e.fromNode∈s.graph.ids
  keys : s.outputs.keys.Nodup
  nodes : ∀ id, (s.outputs.find id).isSome ↔ id∈s.graph.ids
  ports : ∀ id ports, s.outputs.find id=some ports →
    ports.Nodup ∧ ∀ port, port∈ports ↔ ∃ e∈s.graph.edges, e.fromNode=id ∧ e.fromPort=port

namespace Tallied

variable {s t : State}

theorem initial : Tallied State.initial where
  sources _ h := nomatch h
  keys := nodup_nil
  nodes _ := by simp [State.initial,Graph.ids,Graph.empty]
  ports _ _ h := nomatch h

theorem congr (hs : Tallied s) (hids : t.graph.ids=s.graph.ids) (hedges : t.graph.edges=s.graph.edges)
    (houtputs : t.outputs=s.outputs) : Tallied t where
  sources := hids ▸ hedges ▸ hs.sources
  keys := houtputs ▸ hs.keys
  nodes := hids ▸ houtputs ▸ hs.nodes
  ports := hedges ▸ houtputs ▸ hs.ports

theorem addNode (hs : Tallied s) {id : String} (hid : id∉s.graph.ids) (hids : t.graph.ids=s.graph.ids++[id])
    (hedges : t.graph.edges=s.graph.edges) (houtputs : t.outputs=s.outputs.putNew id []) : Tallied t := by
  have hnone : s.outputs.find id=none := by
    rw [← Option.not_isSome_iff_eq_none,hs.nodes]
    exact hid
  refine ⟨fun e he => ?_,?_,fun other => ?_,fun other ports h => ?_⟩
  · rw [hids]
    exact mem_append_left _ (hs.sources e (hedges ▸ he))
  · rw [houtputs]
    exact nodup_keys_putNew hs.keys id []
  · rw [houtputs,hids,find_putNew,mem_append,mem_singleton,← hs.nodes]
    by_cases h : other=id <;> simp [h]
  · rw [houtputs,find_putNew,hnone] at h
    rw [hedges]
    split_ifs at h with hother
    · cases h
      refine ⟨nodup_nil,fun port => ?_⟩
      constructor
      · intro hport
        cases hport
      · rintro ⟨e,he,hfrom,-⟩
        exact absurd (hother ▸ hfrom ▸ hs.sources e he) hid
    · exact hs.ports other ports h

theorem addEdge (hs : Tallied s) {e : Edge} (he : e.fromNode∈s.graph.ids) : Tallied (s.addEdge e) := by
  have hedges : (s.addEdge e).graph.edges=s.graph.edges++[e] := rfl
  obtain ⟨old,hold⟩ : ∃ old, s.outputs.find e.fromNode=some old := by
    rw [← Option.isSome_iff_exists,hs.nodes]
    exact he
  have houtputs : (s.addEdge e).outputs =
      s.outputs.put e.fromNode (if old.contains e.fromPort then old else old++[e.fromPort]) := by
    show s.outputs.put _ _ = _
    rw [show (s.outputs.find e.fromNode).getD []=old by rw [hold]; rfl]
  obtain ⟨hnodup,hports⟩ := hs.ports _ _ hold
  refine ⟨fun f hf => ?_,?_,fun id => ?_,fun id ports h => ?_⟩
  · rw [hedges] at hf
    rcases mem_append.1 hf with hf | hf
    · exact hs.sources f hf
    · exact mem_singleton.1 hf ▸ he
  · rw [houtputs]
    exact nodup_keys_put hs.keys _ _
  · rw [houtputs,find_put]
    by_cases hid : id=e.fromNode
    · rw [if_pos hid]
      exact iff_of_true rfl (hid ▸ he)
    · rw [if_neg hid]
      exact hs.nodes id
  · rw [houtputs,find_put] at h
    have hlater : ∀ port, (∃ f∈s.graph.edges++[e], f.fromNode=id ∧ f.fromPort=port) ↔
        (∃ f∈s.graph.edges, f.fromNode=id ∧ f.fromPort=port) ∨ e.fromNode=id ∧ e.fromPort=port := by
      intro port
      simp only [mem_append,mem_singleton,or_and_right,exists_or,exists_eq_left]
    simp only [hedges,hlater]
    split_ifs at h with hid hseen
    · cases h
      subst hid
      refine ⟨hnodup,fun port => (hports port).trans ⟨.inl,?_⟩⟩
      rintro (hport | ⟨-,rfl⟩)
      · exact hport
      · exact (hports _).1 (by simpa using hseen)
    · cases h
      subst hid
      refine ⟨?_,fun port => ?_⟩
      · rw [nodup_append]
        refine ⟨hnodup,pairwise_singleton _ _,fun a ha b hb hab => hseen ?_⟩
        rw [mem_singleton.1 hb] at hab
        simpa [hab] using ha
      · rw [mem_append,mem_singleton,hports]
        exact or_congr_right ⟨fun hport => ⟨rfl,hport.symm⟩,fun hport => hport.2.symm⟩
    · obtain ⟨hnodup,hports⟩ := hs.ports id ports h
      refine ⟨hnodup,fun port => (hports port).trans ⟨.inl,?_⟩⟩
      rintro (hport | ⟨hfrom,-⟩)
      · exact hport
      · exact absurd hfrom.symm hid

theorem addEdges {wires : List Edge} (hs : Tallied s) (hwires : ∀ e∈wires, e.fromNode∈s.graph.ids) :
    Tallied (s.addEdges wires) := by
  induction wires generalizing s with
  | nil => exact hs
  | cons e rest ih =>
    exact ih (hs.addEdge (hwires e mem_cons_self)) fun f hf => hwires f (mem_cons_of_mem _ hf)

theorem connect (hs : Tallied s) (hbound : s.Bound) {ref : Ref} (href : s.Knows ref) (id port : String)
    (line : Option Nat) : Tallied (s.connect ref id port line) := by
  cases ref with
  | node source out => exact hs.addEdge (hbound.has href)
  | name source out => exact hs.congr rfl rfl rfl

end Tallied

/-- Where no ids are asked for, emission keeps the notes. -/
theorem Step.tallied {n : Nat} (h : Step noIds n s t) (hsound : Sound s) (hs : Tallied s) : Tallied t := by
  cases h with
  | draw module label attrs =>
    exact hs.addNode (hsound.nextId_notMem_ids module) (Graph.ids_addNode _ _) rfl rfl
  | grant id module label attrs hasked hfree => exact hasked.elim
  | hold v u =>
    refine hs.addNode (hsound.nextId_notMem_ids "Constant") ?_ ?_ ?_
    · rw [s.hold_graph]
      exact Graph.ids_addNode _ _
    · rw [s.hold_graph]
      rfl
    · cases u <;> rfl
  | wire ref id port line href hid => exact hs.connect hsound.bound href id port line
  | inputs place ports hplace => exact hs.congr (s.setInputs_ids place ports) rfl rfl
  | attrs id f hid hf => exact hs.congr (s.mapAttrs_ids id f) rfl rfl
  | nodeType id u hid => exact hs.congr rfl rfl rfl
  | written name => exact hs.congr rfl rfl rfl

theorem Changes.tallied (h : ReflTransGen (Change noIds) s t) (hsound : Sound s) (hs : Tallied s) :
    Sound t ∧ Tallied t := by
  induction h with
  | refl => exact ⟨hsound,hs⟩
  | tail _ hchange ih =>
    refine ⟨hchange.sound (fun _ h => h) ih.1,?_⟩
    cases hchange with
    | step hstep => exact hstep.tallied ih.1 ih.2
    | scope scope hscope => exact ih.2.congr rfl rfl rfl
    | define v => exact ih.2.congr rfl rfl rfl
    | guard guarded inGuard => exact ih.2.congr rfl rfl rfl

/-- Every node gets the list made from its entry. -/
theorem State.listed_nodes (hids : s.graph.ids.Nodup) (hkeys : s.outputs.keys.Nodup) :
    s.listed.nodes=s.graph.nodes.map fun n =>
      match s.outputs.find n.id with
      | some ports => { n with outputs := sortedPorts ports }
      | none => n := by
  have hfold : ∀ (entries : List (String×List String)) (g : Graph), (entries.map (·.1)).Nodup → g.ids.Nodup →
      (entries.foldl (fun g entry => g.updateLast entry.1 fun n => { n with outputs := sortedPorts entry.2 }) g).nodes =
        g.nodes.map fun n =>
          match find entries n.id with
          | some ports => { n with outputs := sortedPorts ports }
          | none => n := by
    intro entries
    induction entries with
    | nil => exact fun g _ _ => g.nodes.map_id'.symm
    | cons entry rest ih =>
      intro g hkeys hids
      obtain ⟨id,ports⟩ := entry
      obtain ⟨hid,hrest⟩ := nodup_cons.1 hkeys
      have hnone : find rest id=none :=
        Option.not_isSome_iff_eq_none.1 fun h => hid ((find_isSome_iff rest id).1 h)
      have hlater : (g.updateLast id fun n => { n with outputs := sortedPorts ports }).ids.Nodup := by
        rw [Graph.ids_updateLast (by intro n; rfl)]
        exact hids
      rw [List.foldl_cons,ih _ hrest hlater,Graph.updateLast_of_nodup hids,List.map_map]
      refine map_congr_left fun n _ => ?_
      by_cases h : n.id=id
      · simp [find_cons,h,hnone]
      · simp [find_cons,h]
  exact hfold s.outputs.toList s.graph hkeys hids

/-- A script that asks for no ids and whose waiting wires can all be drawn has a graph: every entry of the notes is about
a node, every wire starts from a node and leads to one, and the outputs of a node are the ports that wires start from, in
order and each once. -/
theorem compiled_graph_wellFormed {d : Dialect} {stmts : List Stmt} {s t : State} (hids : askedIds stmts = [])
    (hscript : outcome (compileScript d stmts) State.initial = (.ok (), s))
    (hresolve : outcome resolvePending s = (.ok (), t)) :
    (∀ entry ∈ t.outputs.toList, t.graph.hasNode entry.1 = true) ∧ ∃ g, graphOf d stmts = .ok g ∧
      (∀ e ∈ g.edges, e.fromNode ∈ g.ids ∧ e.toNode ∈ g.ids) ∧
      ∀ n ∈ g.nodes, n.outputs.Pairwise (· < ·) ∧
        ∀ port, port ∈ n.outputs ↔ ∃ e ∈ g.edges, e.fromNode = n.id ∧ e.fromPort = port := by
  have hreachable : Reachable s := by
    have h := Reachable.script d hids
    rwa [hscript] at h
  obtain ⟨hsound,htallied⟩ := Changes.tallied hreachable Sound.initial Tallied.initial
  obtain ⟨hall,rfl⟩ := resolvePending_eq_ok_iff.1 hresolve
  let wires := s.pending.filterMap s.lateWire?
  have hwires : ∀ e ∈ wires, e.fromNode ∈ s.graph.ids ∧ e.toNode ∈ s.graph.ids := by
    intro e he
    obtain ⟨p,hp,hwire⟩ := mem_filterMap.1 he
    obtain ⟨id,hid,rfl⟩ := Option.map_eq_some_iff.1 hwire
    exact ⟨hsound.bound p.name id hid,hsound.pending p hp⟩
  have hlast : Tallied (s.addEdges wires) := htallied.addEdges fun e he => (hwires e he).1
  have hgraph := s.addEdges_graph wires
  have hlastIds : (s.addEdges wires).graph.ids = s.graph.ids := by rw [hgraph]; rfl
  obtain ⟨hedges,-,hkept⟩ := (s.addEdges wires).listed_spec
  have hlistedIds : (s.addEdges wires).listed.ids = s.graph.ids :=
    (hkept (k := Node.id) fun _ _ => rfl).trans hlastIds
  refine ⟨fun entry hentry => ?_,_,(graphOf_eq_ok_iff hscript).2 ⟨hall,rfl⟩,fun e he => ?_,fun n hn => ?_⟩
  · rw [Graph.hasNode_iff]
    exact (hlast.nodes _).1 ((Table.find_isSome_iff _ _).2 (mem_map_of_mem hentry))
  · rw [hlistedIds]
    rw [hedges,hgraph] at he
    rcases mem_append.1 he with he | he
    · exact ⟨htallied.sources e he,hsound.edges e he⟩
    · exact hwires e he
  · rw [State.listed_nodes (hlastIds ▸ hsound.nodup) hlast.keys] at hn
    obtain ⟨m,hm,rfl⟩ := mem_map.1 hn
    obtain ⟨ports,hports⟩ := Option.isSome_iff_exists.1 ((hlast.nodes m.id).2 (mem_map_of_mem hm))
    obtain ⟨hnodup,hexact⟩ := hlast.ports _ _ hports
    simp only [hports]
    refine ⟨pairwise_lt_mergeSort hnodup,fun port => ?_⟩
    rw [hedges,← hexact]
    exact (mergeSort_perm ports _).mem_iff

def portsScript : List Stmt :=
  let text (s : String) : Expr := .const (.str s false)
  let port (s : String) : Expr := .subscript (.name "n") (text s)
  [.expr 1 (.call 1 (.name "OUTPUT") [.name "y",text "Y",text "Number"] []),
    .assign 2 [.name "n"] (.call 2 (.name "Foo") [.const (.int 1),.const (.int 1)] []),
    .assign 3 [.name "y"] (.call 3 (.name "Bar") [port "B",port "A",port "B"] [])]

/-- One wire waits, three start from the call, and the graph lists the ports of every node once and in order. -/
theorem compiled_graph_portsScript : ∃ s t g, askedIds portsScript = [] ∧
    outcome (compileScript (.full []) portsScript) State.initial = (.ok (), s) ∧ s.pending.length = 1 ∧
    outcome resolvePending s = (.ok (), t) ∧ graphOf (.full []) portsScript = .ok g ∧
    (t.graph.edges.map fun e => (e.fromNode, e.fromPort)) = [("constant_0", "Output"), ("constant_0", "Output"),
      ("foo_0", "B"), ("foo_0", "A"), ("foo_0", "B"), ("bar_0", autoPort)] ∧
    (∀ e ∈ g.edges, e.fromNode ∈ g.ids ∧ e.toNode ∈ g.ids) ∧
    ∀ n ∈ g.nodes, n.outputs.Pairwise (· < ·) ∧
      ∀ port, port ∈ n.outputs ↔ ∃ e ∈ g.edges, e.fromNode = n.id ∧ e.fromPort = port := by
  have hrun := outcome_eq_ok (m := compileScript (.full []) portsScript) (s := State.initial) (a := ()) (by decide +kernel)
  have hresolve := outcome_eq_ok (m := resolvePending) (s := (outcome (compileScript (.full []) portsScript) State.initial).2)
    (a := ()) (by decide +kernel)
  obtain ⟨-,g,hg,hedges,hports⟩ := compiled_graph_wellFormed (by decide +kernel) hrun hresolve
  exact ⟨_,_,g,by decide +kernel,hrun,by decide +kernel,hresolve,hg,by decide +kernel,hedges,hports⟩

end ChipForge.Wiring
