import ChipForge.Proofs.Acts
import ChipForge.Proofs.Growth

/-! While acts go on, every reference in hand unfolds to its tree, and the wires to a node under construction lead from such
references. Acts only touch the node that was begun last, which no reference leads to before it is closed. -/
namespace ChipForge.Wiring
open Script List Text

variable {b s t : State} {F G : List (Begun OpTree)} {R : List (Ref×OpTree)} {f g : Begun OpTree} {ref : Ref} {tree : OpTree}
  {x : String} {d : Dialect}

/-- Nodes that are there and not under construction. -/
def Done (F : List (Begun OpTree)) (s : State) (x : String) : Prop := x∈s.graph.ids ∧ ∀ f∈F, f.id≠x

/-- The tree of a reference, down to the nodes that were there at `b`. -/
abbrev State.Unfolds (b : State) (F : List (Begun OpTree)) (s : State) : Ref→OpTree→Prop :=
  Wiring.Unfolds (·∈b.graph.ids) (Done F s) s

/-- A new node to which wires with these trees lead. -/
structure Begins (b : State) (F : List (Begun OpTree)) (s : State) (f : Begun OpTree) : Prop where
  here : f.id∈s.graph.ids
  new : f.id∉b.graph.ids
  free : ∀ key, s.shared.find key≠some f.id
  kind : s.graph.kind? f.id=some (f.module,f.attrs)
  fed : ∃ wires, s.drawnInto f.id=wires.filter (·.2.isNode) ∧ s.waitingInto f.id=wires.filter (!·.2.isNode) ∧
    Fed (·∈b.graph.ids) (Done F s) s wires f.fed

structure Builds (b : State) (S : Bench OpTree) (s : State) : Prop where
  grown : Grown b s
  nodup : (S.begun.map (·.id)).Nodup
  begun : ∀ f∈S.begun, Begins b S.begun s f
  held : ∀ r∈S.held, b.Unfolds S.begun s r.1 r.2

/-- A change that leaves the finished nodes as they are. -/
structure Spares (F G : List (Begun OpTree)) (s t : State) : Prop where
  done : ∀ x, Done F s x→Done G t x
  kind : ∀ x, Done F s x → t.graph.kind? x=s.graph.kind? x
  feeds : ∀ x, Done F s x → t.feeds x=s.feeds x

private theorem fed_settle {old later : String→Prop} {wires : List (String×Ref)} {trees : List (String×OpTree)}
    (h : Fed old later t wires trees) :
    Fed old later t (wires.filter (·.2.isNode)++wires.filter (!·.2.isNode)) (OpTree.settle trees) := by
  have hnode : ∀ {w : String×Ref} {f : String×OpTree}, w.1=f.1 ∧ Unfolds old later t w.2 f.2 →
      (w.2.isNode=true ↔ (!f.2.isLater)=true) := by
    rintro ⟨port,ref⟩ ⟨port',tree⟩ ⟨-,htree⟩
    cases htree <;> simp [Ref.isNode,OpTree.isLater]
  refine rel_append (rel_filter (fun w f hw => hnode hw) h) (rel_filter (fun w f hw => ?_) h)
  have := hnode hw
  cases hw' : w.2.isNode <;> cases hf : f.2.isLater <;> simp_all

namespace Builds

theorem start (hs : Sound s) : Builds s ⟨[],[]⟩ s := ⟨.refl hs,.nil,forall_mem_nil _,forall_mem_nil _⟩

variable (h : Builds b ⟨F,R⟩ s)
include h

theorem old (hx : x∈b.graph.ids) : Done F s x :=
  ⟨h.grown.later.ids.subset hx,fun f hf heq => (h.begun f hf).new (heq ▸ hx)⟩

theorem unfolds (hs : Spares F G s t) (htree : b.Unfolds F s ref tree) : b.Unfolds G t ref tree :=
  htree.mono (fun _ hx => h.old hx) hs.done hs.kind hs.feeds

theorem begins (hs : Spares F G s t) (hg : g∈F) (hhere : g.id∈t.graph.ids) (hfree : ∀ key, t.shared.find key≠some g.id)
    (hkind : t.graph.kind? g.id=s.graph.kind? g.id) (hdrawn : t.drawnInto g.id=s.drawnInto g.id)
    (hwaiting : t.waitingInto g.id=s.waitingInto g.id) : Begins b G t g := by
  obtain ⟨-,hnew,-,hkind',wires,hd,hw,hfed⟩ := h.begun g hg
  exact ⟨hhere,hnew,hfree,hkind.trans hkind',wires,hdrawn.trans hd,hwaiting.trans hw,
    hfed.imp fun _ _ hp => ⟨hp.1,h.unfolds hs hp.2⟩⟩

/-- Only new nodes are touched. -/
theorem grow (hst : Grown s t) (hF : ∀ f∈G, f∈F ∨ f.id∉s.graph.ids) : Spares F G s t ∧ ∀ g∈F, Begins b G t g := by
  have hs : Spares F G s t := by
    refine ⟨fun x hx => ⟨hst.later.ids.subset hx.1,fun f hf => ?_⟩,fun x hx => hst.kind? hx.1,fun x hx => hst.feeds hx.1⟩
    rcases hF f hf with hf | hnew
    · exact hx.2 f hf
    · exact fun heq => hnew (heq ▸ hx.1)
  refine ⟨hs,fun g hg => ?_⟩
  have hhere := (h.begun g hg).here
  refine h.begins hs hg (hst.later.ids.subset hhere) (fun key hkey => ?_) (hst.kind? hhere) (hst.drawn _ hhere)
    (hst.waiting _ hhere)
  rcases hst.later.shared key g.id hkey with hkey | hnew
  · exact (h.begun g hg).free key hkey
  · exact hnew (h.grown.sound.used hhere)

theorem same (hstep : Step noIds b.graph.nodes.length s t) (hids : t.graph.ids=s.graph.ids) (hshared : t.shared=s.shared)
    (hkinds : ∀ x, t.graph.kind? x=s.graph.kind? x) (hedges : t.graph.edges=s.graph.edges) (hpending : t.pending=s.pending) :
    Builds b ⟨F,R⟩ t := by
  have hs : Spares F F s t := ⟨fun x hx => ⟨hids ▸ hx.1,hx.2⟩,fun x _ => hkinds x,fun x _ => State.feeds_congr hedges hpending x⟩
  refine ⟨h.grown.step hstep,h.nodup,fun g hg => ?_,fun r hr => h.unfolds hs (h.held r hr)⟩
  refine h.begins hs hg (hids ▸ (h.begun g hg).here) (fun key => hshared ▸ (h.begun g hg).free key) (hkinds _) ?_ ?_
  · rw [State.drawnInto,State.drawnInto,hedges]
  · rw [State.waitingInto,State.waitingInto,hpending]

omit h

/-- A node that nothing under construction is, with what its wires lead from, unfolds to its tree. -/
theorem closed (h : Builds b ⟨f::F,R⟩ s) :
    Builds b ⟨F,(.node f.id autoPort,.made f.module f.attrs f.fed)::R⟩ s := by
  have hs : Spares (f::F) F s s :=
    ⟨fun x hx => ⟨hx.1,fun g hg => hx.2 g (mem_cons_of_mem f hg)⟩,fun _ _ => rfl,fun _ _ => rfl⟩
  obtain ⟨hhere,hnew,hfree,hkind,wires,hdrawn,hwaiting,hfed⟩ := h.begun f mem_cons_self
  have hnodup := nodup_cons.1 h.nodup
  have hdone : Done F s f.id := ⟨hhere,fun g hg heq => hnodup.1 (mem_map.2 ⟨g,hg,heq⟩)⟩
  have hfeeds : Fed (·∈b.graph.ids) (Done F s) s (s.feeds f.id) (OpTree.settle f.fed) := by
    rw [State.feeds,hdrawn,hwaiting]
    exact (fed_settle hfed).imp fun w p hw => ⟨hw.1,h.unfolds hs hw.2⟩
  have hempty : s.feeds f.id=[] ↔ (OpTree.settle f.fed).isEmpty=true := by
    rw [List.isEmpty_iff]
    constructor
    · intro hnil
      rw [hnil] at hfeeds
      exact List.forall₂_nil_left_iff.1 hfeeds
    · intro hnil
      rw [hnil] at hfeeds
      exact List.forall₂_nil_right_iff.1 hfeeds
  have hconstant : s.constant? f.id =
      if f.module = "Constant" ∧ (OpTree.settle f.fed).isEmpty then attr? f.attrs "value" else none := by
    rw [State.constant?,hkind]
    simp only [Option.bind_some,hempty]
  refine ⟨h.grown,hnodup.2,fun g hg => ?_,forall_mem_cons.2 ⟨?_,fun r hr => h.unfolds hs (h.held r hr)⟩⟩
  · have hg := mem_cons_of_mem f hg
    exact h.begins hs hg (h.begun g hg).here (h.begun g hg).free rfl rfl rfl
  rw [OpTree.made,OpTree.ofNode,← hconstant]
  cases hv : s.constant? f.id with
  | some v => exact .constant autoPort hdone hv
  | none =>
    refine .node autoPort hdone hnew hv hkind hfeeds.ports fun w hw => ?_
    exact ((List.forall₂_iff_zip.1 hfeeds).2 hw).2

section Change
variable {module : String} {attrs attrs' : Attrs} {fed fed' : List (String×OpTree)} {ports ports' : List String}
  {R' : List (Ref×OpTree)}

theorem target (h : Builds b ⟨⟨x,module,attrs,fed,ports⟩::F,R⟩ s) : s.Target noIds b.graph.nodes.length x := by
  obtain ⟨hhere,hnew,hfree,-⟩ := h.begun _ mem_cons_self
  exact ⟨(h.grown.mem_idsFrom_iff x).2 ⟨hhere,hnew⟩,fun _ => ⟨h.grown.sound.used hhere,hfree⟩⟩

theorem change (h : Builds b ⟨⟨x,module,attrs,fed,ports⟩::F,R⟩ s) (hR : R' ⊆ R)
    (hstep : Step noIds b.graph.nodes.length s t) (hids : t.graph.ids=s.graph.ids) (hshared : t.shared=s.shared)
    (hothers : ∀ y, y≠x → t.graph.kind? y=s.graph.kind? y ∧ t.drawnInto y=s.drawnInto y ∧ t.waitingInto y=s.waitingInto y)
    (hkind : t.graph.kind? x=some (module,attrs')) {wires : List (String×Ref)}
    (hdrawn : t.drawnInto x=wires.filter (·.2.isNode)) (hwaiting : t.waitingInto x=wires.filter (!·.2.isNode))
    (hfed : Fed (·∈b.graph.ids) (Done (⟨x,module,attrs,fed,ports⟩::F) s) s wires fed') :
    Builds b ⟨⟨x,module,attrs',fed',ports'⟩::F,R'⟩ t := by
  have hne : ∀ y, Done (⟨x,module,attrs,fed,ports⟩::F) s y → y≠x := fun y hy => (hy.2 _ mem_cons_self).symm
  have hs : Spares (⟨x,module,attrs,fed,ports⟩::F) (⟨x,module,attrs',fed',ports'⟩::F) s t := by
    refine ⟨fun y hy => ⟨hids ▸ hy.1,forall_mem_cons.2 (forall_mem_cons.1 hy.2)⟩,fun y hy => (hothers y (hne y hy)).1,
      fun y hy => ?_⟩
    obtain ⟨-,hd,hw⟩ := hothers y (hne y hy)
    rw [State.feeds,State.feeds,hd,hw]
  obtain ⟨hhere,hnew,hfree,-⟩ := h.begun _ mem_cons_self
  refine ⟨h.grown.step hstep,h.nodup,forall_mem_cons.2 ⟨⟨hids ▸ hhere,hnew,fun key => hshared ▸ hfree key,hkind,wires,hdrawn,
    hwaiting,hfed.imp fun _ _ hp => ⟨hp.1,h.unfolds hs hp.2⟩⟩,fun g hg => ?_⟩,fun r hr => h.unfolds hs (h.held r (hR hr))⟩
  obtain ⟨hk,hd,hw⟩ := hothers g.id fun heq => (nodup_cons.1 h.nodup).1 (mem_map.2 ⟨g,hg,heq⟩)
  have hg := mem_cons_of_mem ⟨x,module,attrs,fed,ports⟩ hg
  exact h.begins hs hg (hids ▸ (h.begun g hg).here) (fun key => hshared ▸ (h.begun g hg).free key) hk hd hw

end Change

theorem leaf (h : Builds b ⟨F,R⟩ s) (hb : b.Bound) (name port : String) :
    b.Unfolds F s (s.refOfPort name port) (b.leaf (s.refOfPort name port)) := by
  rw [State.refOfPort,h.grown.later.nodeOf]
  cases hname : b.nodeOf.find name with
  | none => exact .later name port
  | some id =>
    have hid : id∈b.graph.ids := hb name id hname
    have hconstant := h.grown.constant? hid
    simp only [State.leaf]
    cases hv : b.constant? id with
    | some v => exact .constant port (h.old hid) (hconstant.trans hv)
    | none => exact .before port hid (hconstant.trans hv)

theorem knows (h : Builds b ⟨F,R⟩ s) (htree : b.Unfolds F s ref tree) : s.Knows ref := by
  cases htree with
  | later name port => trivial
  | constant port hdone hv => exact State.knows_of_mem hdone.1 port
  | before port hold hv => exact State.knows_of_mem (h.old hold).1 port
  | node port hdone => exact State.knows_of_mem hdone.1 port

theorem place (h : Builds b ⟨F,R⟩ s) (module label : String) (attrs : Attrs) (ports : List String) :
    Builds b ⟨⟨(s.graph.nextId module).1,module,attrs,[],ports⟩::F,R⟩ (s.draw module label attrs) := by
  have hsound := h.grown.sound
  have hnew := hsound.nextId_notMem_ids module
  have hst : Grown s (s.draw module label attrs) := (Grown.refl hsound).step (.draw s module label attrs)
  obtain ⟨hs,hbegun⟩ := h.grow hst (G := ⟨(s.graph.nextId module).1,module,attrs,[],ports⟩::F)
    (forall_mem_cons.2 ⟨.inr hnew,fun f hf => .inl hf⟩)
  obtain ⟨hdrawn,hwaiting⟩ := append_eq_nil_iff.1 (hsound.feeds_eq_nil hnew)
  refine ⟨h.grown.step (.draw s module label attrs),nodup_cons.2 ⟨fun hmem => ?_,h.nodup⟩,forall_mem_cons.2
    ⟨⟨?_,fun hold => hnew (h.grown.later.ids.subset hold),fun key hkey => hnew (hsound.mem_ids_of_shared hkey),?_,
      [],hdrawn,hwaiting,.nil⟩,hbegun⟩,fun r hr => h.unfolds hs (h.held r hr)⟩
  · obtain ⟨f,hf,hid⟩ : ∃ f∈F, f.id=(s.graph.nextId module).1 := mem_map.1 hmem
    exact hnew (hid ▸ (h.begun f hf).here)
  · exact (Graph.ids_addNode _ _).symm ▸ mem_append_right _ (mem_singleton.2 rfl)
  · show (Graph.addNode _ _).kind? _ = _
    rw [Graph.kind?_addNode,if_pos rfl]
    rfl

section Change
variable {module port : String} {attrs : Attrs} {fed : List (String×OpTree)} {ports : List String}

theorem wire (h : Builds b ⟨⟨x,module,attrs,fed,port::ports⟩::F,(ref,tree)::R⟩ s) (line : Option Nat) :
    Builds b ⟨⟨x,module,attrs,fed++[(port,tree)],ports⟩::F,R⟩ (s.connect ref x port line) := by
  have htree := h.held _ mem_cons_self
  obtain ⟨-,-,-,hkind,wires,hdrawn,hwaiting,hfed⟩ := h.begun _ mem_cons_self
  have hadd := rel_append hfed (.cons ⟨rfl,htree⟩ .nil : Forall₂ _ [(port,ref)] [(port,tree)])
  refine h.change (subset_cons_self _ _) (.wire _ _ _ _ _ (h.knows htree) h.target) ?_ ?_
    (fun y hy => ⟨s.connect_kind? ref x port line y,?_⟩) ((s.connect_kind? ref x port line x).trans hkind) ?_ ?_ hadd
  · cases ref <;> rfl
  · cases ref <;> rfl
  · cases ref with
    | node source out =>
      rw [State.drawnInto_connect_node,if_neg (Ne.symm hy),append_nil]
      exact ⟨rfl,rfl⟩
    | name source out =>
      rw [State.waitingInto_connect_name,if_neg (Ne.symm hy),append_nil]
      exact ⟨rfl,rfl⟩
  · rw [filter_append,← hdrawn]
    cases ref with
    | node source out =>
      rw [State.drawnInto_connect_node,if_pos rfl]
      rfl
    | name source out => exact (append_nil _).symm
  · rw [filter_append,← hwaiting]
    cases ref with
    | node source out => exact (append_nil _).symm
    | name source out =>
      rw [State.waitingInto_connect_name,if_pos rfl]
      rfl

theorem mapAttrs (h : Builds b ⟨⟨x,module,attrs,fed,ports⟩::F,R⟩ s) {f : Attrs→Attrs}
    (hf : ∀ attrs, attr? (f attrs) "value" = attr? attrs "value") :
    Builds b ⟨⟨x,module,f attrs,fed,ports⟩::F,R⟩ (s.mapAttrs x f) := by
  obtain ⟨-,-,-,hkind,wires,hdrawn,hwaiting,hfed⟩ := h.begun _ mem_cons_self
  refine h.change (fun _ hr => hr) (.attrs _ _ _ h.target.1 hf) (s.mapAttrs_ids x f) rfl (fun y hy => ⟨?_,rfl,rfl⟩) ?_ hdrawn
    hwaiting hfed
  · rw [s.kind?_mapAttrs,if_neg hy]
  · rw [s.kind?_mapAttrs,if_pos rfl,hkind]
    rfl

end Change

end Builds

/-- The node of a constant is found by its key from then on. -/
theorem emitConstant_shared (hd : d.sharing=true) (hs : Grown b s) {v : Literal} {id : String}
    (hrun : outcome (emitConstant d v none) s=(.ok id,t)) :
    Grown b t ∧ t.shared.find (constantKey v none)=some id := by
  rcases outcome_emitConstant d v none s with ⟨-,found,hfound,-,hout⟩ | ⟨-,-,hout⟩ | ⟨hnot,-⟩
  · rw [hout] at hrun
    cases hrun
    exact ⟨hs,hfound⟩
  · rw [hout] at hrun
    cases hrun
    refine ⟨hs.step (.hold _ _ _),?_⟩
    rw [s.hold_shared,Table.find_put_self]
  · exact absurd (hd.symm.trans hnot) (by decide)

theorem Builds.constant (h : Builds b ⟨F,R⟩ s) (hd : d.sharing=true) {v : Literal}
    (hrun : outcome (emitConstant d v none) s=(.ok x,t)) :
    Builds b ⟨F,(.node x "Output",.constant (reading v) "Output")::R⟩ t := by
  obtain ⟨hst,hkey⟩ := emitConstant_shared hd (Grown.refl h.grown.sound) hrun
  obtain ⟨w,u,hsame,hw⟩ := hst.sound.shared _ _ hkey
  obtain ⟨hs,hbegun⟩ := h.grow hst fun f hf => .inl hf
  refine ⟨(emitConstant_shared hd h.grown hrun).1,h.nodup,hbegun,forall_mem_cons.2 ⟨?_,fun r hr => h.unfolds hs (h.held r hr)⟩⟩
  rw [reading_eq_of_constantKey hsame]
  exact .constant _ ⟨hst.sound.mem_ids_of_shared hkey,fun f hf heq => (hbegun f hf).free _ (heq ▸ hkey)⟩ hw

/-- References are worth the trees they unfold to. -/
abbrev treeWorth (outputs : OutputTypes) (b : State) : Worth (.full outputs) b where
  Val := OpTree
  leaf := b.leaf
  constant v := .constant (reading v) "Output"
  made := OpTree.made
  output := OpTree.withPort
  Makes _ asked _ := asked.isNone
  makes _ _ := rfl

theorem Builds.act {outputs : OutputTypes} (hb : b.Bound) {p q : Bench (treeWorth outputs b).Val×State}
    (hact : Act (treeWorth outputs b) p q) (h : Builds b p.1 p.2) : Builds b q.1 q.2 := by
  cases hact with
  | order hperm => exact ⟨h.grown,h.nodup,h.begun,fun r hr => h.held r (hperm.mem_iff.2 hr)⟩
  | port name port => exact ⟨h.grown,h.nodup,h.begun,forall_mem_cons.2 ⟨h.leaf hb name port,h.held⟩⟩
  | constant v hrun => exact h.constant rfl hrun
  | output port =>
    obtain ⟨hfirst,hheld⟩ := forall_mem_cons.1 h.held
    exact ⟨h.grown,h.nodup,h.begun,forall_mem_cons.2 ⟨hfirst.outputOf port,hheld⟩⟩
  | place attrs hnone hports =>
    rw [State.place_eq_draw (Option.isNone_iff_eq_none.1 hnone)]
    exact h.place _ _ attrs _
  | wire line => exact h.wire line
  | inputs ports hplace =>
    exact h.same (.inputs _ _ _ hplace) (State.setInputs_ids _ _ _) rfl
      (Graph.kind?_congr (Graph.map_updateAt (by intro node; rfl) _ _)) rfl rfl
  | attrs hf => exact h.mapAttrs hf
  | nodeType t => exact h.same (.nodeType _ _ _ h.target.1) rfl rfl (fun _ => rfl) rfl rfl
  | close => exact h.closed
  | written name => exact h.same (.written _ _) rfl rfl (fun _ => rfl) rfl rfl

theorem Builds.acts {outputs : OutputTypes} (hb : b.Bound) {p q : Bench (treeWorth outputs b).Val×State}
    (hacts : Acts (treeWorth outputs b) p q) (h : Builds b p.1 p.2) : Builds b q.1 q.2 := by
  induction hacts with
  | refl => exact h
  | tail _ hact ih => exact ih.act hb hact

end ChipForge.Wiring
