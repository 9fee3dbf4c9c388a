import ChipForge.Proofs.TrackedScripts

/-! A statement makes the changes of emission, lets names stand for other nodes, and defines variables. Names only ever
stand for nodes that are there. -/
namespace ChipForge.Wiring
open Script Relation List

/-- What a run may do to the state: the changes of emission beyond the first `n` nodes and maybe others, with what holds all
along and the nodes that are known. -/
structure Course (asked : String→Prop) (n : Nat) where
  Later : State→State→Prop
  Holds : State→Prop
  Here : State→String→Prop
  refl : ∀ s, Later s s
  trans : ∀ {s t u}, Later s t→Later t u→Later s u
  step : ∀ {s t}, Step asked n s t→Later s t
  holds : ∀ {s t}, Step asked n s t→Holds s→Holds t
  here_later : ∀ {s t x}, Later s t→Here s x→Here t x
  here : ∀ {s x}, x∈s.graph.ids→Here s x
  named : ∀ {s name x}, Holds s → s.nodeOf.find name=some x→Here s x
  knows : ∀ {s x}, Here s x→∀ port, s.Knows (.node x port)
  length : ∀ {s}, Holds s → n ≤ s.graph.nodes.length
  sound : ∀ {s}, Holds s→(∀ x, ¬asked x)→Sound s

namespace Course

variable {asked : String→Prop} {n : Nat} {K : Course asked n} {σ τ : List Frame} {t s : State} {d : Dialect}

abbrev ground (K : Course asked n) : Ground where
  Point σ := { s : State // K.Holds s ∧ ∀ f∈σ, s.Target asked n f.id }
  state c := c.1
  Later c c' := K.Later c.1 c'.1
  Node c x := K.Here c.1 x
  Source c x := K.Here c.1 x
  Fed c x := c.1.Target asked n x
  Name _ := True
  Makes _ id _ := ∀ x∈id, asked x

theorem after (c : K.ground.Point σ) (h : Step asked n c.1 t) : K.Holds t ∧ ∀ f∈σ, t.Target asked n f.id :=
  ⟨K.holds h c.2.1,fun f hf => h.extends.target (c.2.2 f hf)⟩

theorem moves (c : K.ground.Point σ) (h : Step asked n c.1 t) : K.ground.Moves c σ t := ⟨⟨t,K.after c h⟩,K.step h,rfl⟩

theorem place (hs : K.Holds s) (module : String) {plan : CallPlan} (attrs : Attrs) (hids : ∀ x∈plan.id, asked x) :
    Step asked n s (s.place module plan attrs).2 ∧
      (s.place module plan attrs).2.Target asked n (s.place module plan attrs).1 := by
  have hlength : n≤(chooseId s.graph module plan.id).2.nodes.length := by
    rw [chooseId_nodes]
    exact K.length hs
  have hfrom : (s.place module plan attrs).1∈(s.place module plan attrs).2.graph.idsFrom n := by
    show _ ∈ ((chooseId s.graph module plan.id).2.addNode _).idsFrom n
    rw [Graph.idsFrom_addNode hlength]
    exact mem_append_right _ (mem_singleton.2 rfl)
  rcases chooseId_cases s.graph module plan.id with ⟨id,hid,hfree,hchosen⟩ | hchosen
  · refine ⟨?_,hfrom,fun hnone => absurd (hids id hid) (hnone id)⟩
    rw [State.place,hchosen]
    exact .grant _ _ _ _ _ (hids id hid) hfree
  · rw [State.place,hchosen] at hfrom ⊢
    refine ⟨.draw _ _ _ _,hfrom,fun hnone => ⟨mem_cons_self,fun key hkey => ?_⟩⟩
    exact (K.sound hs hnone).nextId_notMem_ids module ((K.sound hs hnone).mem_ids_of_shared hkey)

theorem constant (c : K.ground.Point σ) (d : Dialect) (v : Literal) (t : Option GateType) :
    ∃ (c' : K.ground.Point σ) (x : String), K.Later c.1 c'.1 ∧ outcome (emitConstant d v t) c.1=(.ok x,c'.1) ∧
      x∈c'.1.graph.ids := by
  have hnew : (c.1.graph.nextId "Constant").1 ∈
      (c.1.draw "Constant" (autoLabel "Constant" (State.constantAttrs v t)) (State.constantAttrs v t)).graph.ids := by
    rw [ids_draw]
    exact mem_append_right _ (mem_singleton.2 rfl)
  rcases outcome_emitConstant d v t c.1 with ⟨-,id,-,hid,hrun⟩ | ⟨-,-,hrun⟩ | ⟨-,hrun⟩
  · exact ⟨c,id,K.refl _,hrun,hid⟩
  · have hstep : Step asked n c.1 (c.1.hold v t) := .hold _ _ _
    exact ⟨⟨_,K.after c hstep⟩,_,K.step hstep,hrun,c.1.hold_graph v t ▸ hnew⟩
  · have hstep : Step asked n c.1
        (c.1.draw "Constant" (autoLabel "Constant" (State.constantAttrs v t)) (State.constantAttrs v t)) := .draw _ _ _ _
    cases t with
    | none => exact ⟨⟨_,K.after c hstep⟩,_,K.step hstep,hrun,hnew⟩
    | some t =>
      let c' : K.ground.Point σ := ⟨_,K.after c hstep⟩
      have hplace : (c.1.graph.nextId "Constant").1∈c'.1.graph.idsFrom n :=
        (Graph.idsFrom_addNode (K.length c.2.1) _).symm ▸ mem_append_right _ (mem_singleton.2 rfl)
      have hstep' : Step asked n c'.1 (c'.1.setNodeType (c.1.graph.nextId "Constant").1 t) := .nodeType _ _ _ hplace
      exact ⟨⟨_,K.after c' hstep'⟩,_,K.trans (K.step hstep) (K.step hstep'),hrun,hnew⟩

def track (K : Course asked n) (d : Dialect) : Track d where
  toGround := K.ground
  later_refl c := K.refl c.1
  later_trans := K.trans
  node_later hlater _ h := K.here_later hlater h
  source_later hlater _ h := K.here_later hlater h
  source_node h := h
  made _ _ := fun x hx => nomatch hx
  names c _ _ hname := ⟨K.named c.2.1 hname,trivial⟩
  close {f σ} c := ⟨⟨c.1,c.2.1,fun g hg => c.2.2 g (mem_cons_of_mem f hg)⟩,K.refl c.1,rfl,
    K.here (Graph.mem_ids_of_mem_idsFrom (c.2.2 f mem_cons_self).1)⟩
  place c module plan names ports attrs hids _ := by
    obtain ⟨hstep,htarget⟩ := place c.2.1 module attrs hids
    exact ⟨⟨_,K.holds hstep c.2.1,forall_mem_cons.2 ⟨htarget,(K.after c hstep).2⟩⟩,K.step hstep,rfl⟩
  inputs c c' _ _ h := moves c' (.inputs _ _ _ (Nat.le_trans (K.length c.2.1) h))
  wire {x port rest σ} c ref line href := by
    obtain ⟨htarget,hothers⟩ := forall_mem_cons.1 c.2.2
    have hknows : c.1.Knows ref := by
      cases ref with
      | node y out => exact K.knows href out
      | name y out => trivial
    have hstep : Step asked n c.1 (c.1.connect ref x port line) := .wire _ _ _ _ _ hknows htarget
    have hafter := fun f hf => hstep.extends.target (hothers f hf)
    exact ⟨⟨_,K.holds hstep c.2.1,forall_mem_cons.2 ⟨hstep.extends.target htarget,hafter⟩⟩,K.step hstep,rfl⟩
  attrs {f σ} c g hvalue := moves c (.attrs _ _ _ (c.2.2 f mem_cons_self).1 hvalue)
  nodeType {f σ} c t := moves c (.nodeType _ _ _ (c.2.2 f mem_cons_self).1)
  constant c v t := by
    obtain ⟨c',x,hlater,hrun,hx⟩ := constant c d v t
    exact ⟨c',x,hlater,hrun,K.here hx⟩
  written c name := moves c (.written _ _)

/-- A step that follows the track goes on its course. -/
theorem later_of_follows {α : Type} {m : Compile α} {Q : α→(K.track d).Point []→Prop}
    (h : Follows (K.track d) (fun _ => True) m Q) (hs : K.Holds s) :
    K.Later s (outcome m s).2 := by
  obtain ⟨c',hlater,hstate⟩ := h.later (c := ⟨s,hs,by simp⟩) trivial
  exact hstate ▸ hlater

theorem admits {call : Expr} (hids : ∀ x∈call.ownIds, asked x) : (K.track d).Admits call :=
  fun _ _ _ _ _ _ _ hasked x hx => hids x (hasked x hx)

theorem emitExpr_later (K : Course asked n) (d : Dialect) {e : Expr} (hids : ∀ x∈e.askedIds, asked x) (hs : K.Holds s) :
    K.Later s (outcome (emitExpr d e) s).2 :=
  later_of_follows (emitExpr_follows e fun _ hcall => admits fun _ hx => hids _ (mem_flatMap.2 ⟨_,hcall,hx⟩)) hs

end Course

/-- All nodes that names stand for in a scope are there. -/
def State.Holds (s : State) (scope : Scope) : Prop := ∀ name id, scope.nodeOf.find name=some id → id∈s.graph.ids

theorem State.Bound.has {s : State} (hs : s.Bound) {id port : String} (h : s.Knows (.node id port)) : id∈s.graph.ids := by
  rcases h with h | ⟨name,hname⟩
  · exact h
  · exact hs name id hname

theorem State.Bound.initial : State.initial.Bound := fun _ _ h => nomatch h

/-- One change made by a statement. -/
inductive Change (asked : String→Prop) : State→State→Prop
  | step {s t : State} (h : Step asked 0 s t) : Change asked s t
  | scope (s : State) (scope : Scope) (h : s.Holds scope) : Change asked s (s.withScope scope)
  | define (s : State) (v : VariableDef) : Change asked s (s.define v)
  | guard (s : State) (guarded inGuard : Bool) : Change asked s { s with guarded := guarded, inGuard := inGuard }

section Changes
variable {asked : String→Prop} {s t : State} {x : String} {d : Dialect}

theorem Change.ids (h : Change asked s t) : s.graph.ids <+: t.graph.ids := by
  cases h with
  | step h => exact h.extends.ids
  | scope scope h => exact prefix_rfl
  | define v => exact prefix_rfl
  | guard guarded inGuard => exact prefix_rfl

theorem Change.bound (h : Change asked s t) (hs : s.Bound) : t.Bound := by
  cases h with
  | step h =>
    intro name id hname
    rw [h.extends.nodeOf] at hname
    exact h.extends.ids.subset (hs name id hname)
  | scope scope h => exact h
  | define v => exact hs
  | guard guarded inGuard => exact hs

theorem Changes.ids (h : ReflTransGen (Change asked) s t) : s.graph.ids <+: t.graph.ids := by
  induction h with
  | refl => exact prefix_rfl
  | tail _ hchange ih => exact ih.trans hchange.ids

theorem Change.sound (hnone : ∀ x, ¬asked x) (h : Change asked s t) (hs : Sound s) : Sound t := by
  cases h with
  | step h => exact h.sound hnone hs
  | scope scope h =>
    refine ⟨hs.nodup,hs.used,hs.edges,hs.pending,h,fun key id hkey => ?_⟩
    obtain ⟨v,u,hv,hconst⟩ := hs.shared key id hkey
    exact ⟨v,u,hv,(State.constant?_congr rfl (State.feeds_congr rfl rfl id)).trans hconst⟩
  | define v => exact hs.of_records rfl rfl rfl rfl rfl rfl fun id => State.constant?_congr rfl (State.feeds_congr rfl rfl id)
  | guard guarded inGuard => exact hs.of_graph rfl rfl rfl rfl

/-- Names stand for nodes that are there, and where no ids are asked for the state is sound. -/
structure Settled (asked : String→Prop) (s : State) : Prop where
  bound : s.Bound
  sound : (∀ x, ¬asked x)→Sound s

theorem Settled.initial : Settled asked State.initial := ⟨State.Bound.initial,fun _ => Sound.initial⟩

theorem Changes.settled (h : ReflTransGen (Change asked) s t) (hs : Settled asked s) : Settled asked t := by
  induction h with
  | refl => exact hs
  | tail _ hchange ih => exact ⟨hchange.bound ih.bound,fun hnone => hchange.sound hnone (ih.sound hnone)⟩

theorem Change.target (h : Change asked s t) (hx : s.Target asked 0 x) : t.Target asked 0 x := by
  cases h with
  | step h => exact h.extends.target hx
  | scope scope h => exact hx
  | define v => exact hx
  | guard guarded inGuard => exact hx

theorem Changes.target (h : ReflTransGen (Change asked) s t) (hx : s.Target asked 0 x) : t.Target asked 0 x := by
  induction h with
  | refl => exact hx
  | tail _ hchange ih => exact hchange.target ih

def Change.course (asked : String→Prop) : Course asked 0 where
  Later := ReflTransGen (Change asked)
  Holds := Settled asked
  Here s x := x∈s.graph.ids
  refl _ := .refl
  trans := .trans
  step h := .single (.step h)
  holds h hs := Changes.settled (.single (.step h)) hs
  here_later h hx := (Changes.ids h).subset hx
  here h := h
  named hs h := hs.bound _ _ h
  knows h _ := .inl h
  length _ := Nat.zero_le _
  sound hs := hs.sound

theorem Change.moves (c : ((Change.course asked).track d).Point []) (h : Change asked c.1 t) :
    ((Change.course asked).track d).Moves c [] t :=
  ⟨⟨t,Changes.settled (.single h) c.2.1,by simp⟩,.single h,rfl⟩

theorem Change.statements (asked : String→Prop) (d : Dialect) : ((Change.course asked).track d).Statements where
  note c _ _ hvalue _ hx := Change.moves c (.step (.attrs _ _ _ hx hvalue))
  nodeType c _ _ hx := Change.moves c (.step (.nodeType _ _ _ hx))
  scope c _ h := Change.moves c (.scope _ _ fun name id hname => (h name id hname).1)
  define c v := Change.moves c (.define _ v)
  guard c _ _ := Change.moves c (.guard _ _ _)

theorem Change.feeding (asked : String→Prop) (d : Dialect) : ((Change.course asked).track d).Feeding where
  fed c x hx hvariable := by
    refine ⟨hx,fun hnone => ⟨(c.2.1.sound hnone).used hx,?_⟩⟩
    obtain ⟨type,htype,hword⟩ := (Option.any_eq_true _ _).1 hvariable
    obtain ⟨node,hnode,rfl⟩ := Option.map_eq_some_iff.1 htype
    refine (c.2.1.sound hnone).not_shared hnode fun hconstant => ?_
    rw [hconstant] at hword
    exact absurd hword (by decide)
  fed_later x c c' hlater h := Changes.target hlater h
  feed c x y out port line hx hy := Change.moves c (.step (.wire _ _ _ _ _ (.inl hx) hy))

theorem Change.runs {call : Expr} (hids : ∀ x∈call.ownIds, asked x) : ((Change.course asked).track d).Runs call :=
  ⟨Course.admits hids,fun hinput hadmits => Track.feeds_of_source (Change.feeding asked d) hadmits hinput fun h => h⟩

theorem compileScript_changes (d : Dialect) {stmts : List Stmt} (hids : ∀ x∈askedIds stmts, asked x)
    (hs : Settled asked s) : ReflTransGen (Change asked) s (outcome (compileScript d stmts) s).2 :=
  Course.later_of_follows (K := Change.course asked) ((Change.statements asked d).walk.goes_script ()
    (fun _ _ => trivial) (fun call hcall => Change.runs fun x hx => hids x (mem_flatMap.2 ⟨call,hcall,hx⟩)) _) hs

end Changes

end ChipForge.Wiring
