import ChipForge.Proofs.Plans

/-! A track says at which states a run of the compiler may be, and what each single change does there. That whole scripts
stay on their track is proved once for all tracks; each of them is an invariant of the compiler. -/
namespace ChipForge.Wiring
open Script

/-- A change that leaves wires and nodes alone, but for the names of their inputs. -/
structure Still (s t : State) : Prop where
  ids : t.graph.ids=s.graph.ids
  used : t.graph.used=s.graph.used
  kinds : ∀ id, t.graph.kind? id=s.graph.kind? id
  edges : t.graph.edges=s.graph.edges
  pending : t.pending=s.pending
  shared : t.shared=s.shared

theorem Still.of_graph (hgraph : t.graph=s.graph) (hpending : t.pending=s.pending) (hshared : t.shared=s.shared) :
    Still s t :=
  ⟨by rw [hgraph],by rw [hgraph],fun id => by rw [hgraph],by rw [hgraph],hpending,hshared⟩

theorem Still.setInputs (s : State) (place : Nat) (ports : List String) : Still s (s.setInputs place ports) :=
  ⟨s.setInputs_ids place ports,rfl,Graph.kind?_congr (Graph.map_updateAt (by intro node; rfl) s.graph place),rfl,rfl,
    rfl⟩

theorem Sound.of_still (hs : Sound s) (h : Still s t) (hbound : t.Bound) : Sound t where
  nodup := h.ids ▸ hs.nodup
  used := h.ids ▸ h.used ▸ hs.used
  edges := h.ids ▸ h.edges ▸ hs.edges
  pending := h.ids ▸ h.pending ▸ hs.pending
  bound := hbound
  shared key id hkey := by
    obtain ⟨v,u,hv,hconstant⟩ := hs.shared key id (h.shared ▸ hkey)
    exact ⟨v,u,hv,(State.constant?_congr (h.kinds id) (State.feeds_congr h.edges h.pending id)).trans hconstant⟩

def Graph.typeAt? (g : Graph) (id : String) : Option String := (g.lastNode? id).map (·.type)

theorem Graph.typeAt?_eq (g : Graph) (id : String) : g.typeAt? id=(g.kind? id).map (·.1) := by
  rw [typeAt?,kind?,Option.map_map]
  rfl

theorem State.typeAt?_mapAttrs (s : State) (id : String) (f : Attrs→Attrs)
    (other : String) : (s.mapAttrs id f).graph.typeAt? other=s.graph.typeAt? other := by
  rw [Graph.typeAt?_eq,Graph.typeAt?_eq,s.kind?_mapAttrs]
  split_ifs with h
  · rw [h,Option.map_map]
    rfl
  · rfl

section Draw
variable {s : State} {module label : String} {attrs : Attrs}

theorem ids_draw (s : State) : (s.draw module label attrs).graph.ids=s.graph.ids++[(s.graph.nextId module).1] :=
  Graph.ids_addNode _ _

theorem typeAt?_draw (hs : Sound s) {id : String} (hid : id∈s.graph.ids) :
    (s.draw module label attrs).graph.typeAt? id=s.graph.typeAt? id := by
  rw [Graph.typeAt?_eq,Graph.typeAt?_eq,hs.kind?_draw module label attrs hid]

theorem kind?_draw_new (s : State) :
    (s.draw module label attrs).graph.kind? (s.graph.nextId module).1=some (module,attrs) := by
  show (Graph.addNode _ _).kind? _ = _
  rw [Graph.kind?_addNode,if_pos rfl]
  rfl

theorem State.place_eq_draw {plan : CallPlan} (h : plan.id=none) (s : State) (module : String)
    (attrs : Attrs) :
    s.place module plan attrs =
      ((s.graph.nextId module).1,s.draw module (plan.label.getD (autoLabel module attrs)) attrs) := by
  rw [State.place,h]
  rfl

end Draw

def wiredPorts (word : String) (args : List Expr) (keywords : List Keyword) : List String :=
  ((callPorts word args (keywords.map Keyword.pair)).filter fun p => !leavesOpen p.2).map (·.1)

def Form.portNames (form : Form) : List String :=
  if form.shape == .twice then ["A","B"] else form.slots.map (·.port)

/-- In a script with these calls, nodes of a type are made to be wired on these ports. -/
inductive Wirable (calls : List Expr) : String→List String→Prop
  | constant : Wirable calls "Constant" []
  | declared : Wirable calls "VARIABLE" []
  | write : Wirable calls "VARIABLE" ["Value","Set"]
  | choice : Wirable calls "Branch" ["If","A","B"]
  | operator {op : BinaryOp} {type a b : String} (h : operatorPorts? op=some (type,a,b)) : Wirable calls type [a,b]
  | comparison {op : CompareOp} {type : String} (h : comparisonModule op=.ok type) : Wirable calls type ["A","B"]
  | logic (op : BoolOp) : Wirable calls (logicModule op) ["A","B"]
  | negation : Wirable calls "NOT" ["A"]
  | opposite : Wirable calls "Negate" ["Input"]
  | function {name : String} {form : Form} (h : Form.find? name=some form) : Wirable calls form.module form.portNames
  | call {line : Nat} {fn : Expr} {args : List Expr} {keywords : List Keyword} (h : .call line fn args keywords∈calls)
    (hform : Form.find? (canonicalModule (calledName fn))=none) :
    Wirable calls (canonicalModule (calledName fn)) (wiredPorts (Text.lower (canonicalModule (calledName fn))) args keywords)

/-- A node under construction, with the ports that are still to be wired. -/
structure Frame where
  id : String
  ports : List String

/-- States with what is known of their nodes. A point of a run is one at which certain nodes are under construction, the
last one first. -/
structure Ground where
  Point : List Frame→Type
  state : ∀ {σ}, Point σ→State
  /-- A point that a run may lead to. -/
  Later : ∀ {σ τ}, Point σ→Point τ→Prop
  /-- Nodes that are finished. -/
  Node : ∀ {σ}, Point σ→String→Prop
  /-- Nodes from which a wire may lead to one that is finished. -/
  Source : ∀ {σ}, Point σ→String→Prop
  /-- Finished nodes to which such a wire may lead. -/
  Fed : ∀ {σ}, Point σ→String→Prop
  /-- Names that may stand for nodes. -/
  Name : String→Prop
  /-- Nodes that may be made: of a module, with an id that is asked for, to be wired on these ports. -/
  Makes : String→Option String→List String→Prop

namespace Ground

variable (F : Ground) {σ : List Frame}

def Knows (c : F.Point σ) : Ref→Prop
  | .node x _ => F.Node c x
  | .name _ _ => True

def Moves (c : F.Point σ) (τ : List Frame) (t : State) : Prop := ∃ c' : F.Point τ, F.Later c c' ∧ F.state c'=t

end Ground

/-- What single changes of the compilation of expressions do at the points of a run. -/
structure Track (d : Dialect) extends Ground where
  later_refl : ∀ {σ} (c : Point σ), Later c c
  later_trans : ∀ {σ τ ρ} {a : Point σ} {b : Point τ} {c : Point ρ}, Later a b→Later b c→Later a c
  node_later : ∀ {σ τ} {c : Point σ} {c' : Point τ}, Later c c'→∀ {x}, Node c x→Node c' x
  source_later : ∀ {σ τ} {c : Point σ} {c' : Point τ}, Later c c'→∀ {x}, Source c x→Source c' x
  source_node : ∀ {σ} {c : Point σ} {x}, Source c x→Node c x
  made : ∀ {module ports}, Wirable [] module ports → module ≠ "Constant" → Makes module none ports
  names : ∀ {σ} (c : Point σ) {name x}, (state c).nodeOf.find name=some x→Node c x ∧ Name name
  /-- A node that is finished. -/
  close : ∀ {f σ} (c : Point (f::σ)), ∃ c' : Point σ, Later c c' ∧ state c'=state c ∧ Node c' f.id
  place : ∀ {σ} (c : Point σ) {module plan names ports} attrs, Makes module plan.id names → ports.Sublist names →
    toGround.Moves c (⟨((state c).place module plan attrs).1,ports⟩::σ) ((state c).place module plan attrs).2
  inputs : ∀ {σ τ} (c : Point σ) (c' : Point τ) place names, (state c).graph.nodes.length ≤ place →
    toGround.Moves c' τ ((state c').setInputs place names)
  wire : ∀ {x port rest σ} (c : Point (⟨x,port::rest⟩::σ)) {ref} line, toGround.Knows c ref →
    toGround.Moves c (⟨x,rest⟩::σ) ((state c).connect ref x port line)
  attrs : ∀ {f σ} (c : Point (f::σ)) {g}, (∀ attrs, attr? (g attrs) "value" = attr? attrs "value") →
    toGround.Moves c (f::σ) ((state c).mapAttrs f.id g)
  nodeType : ∀ {f σ} (c : Point (f::σ)) t, toGround.Moves c (f::σ) ((state c).setNodeType f.id t)
  constant : ∀ {σ} (c : Point σ) v t, ∃ (c' : Point σ) (x : String), Later c c' ∧
    outcome (emitConstant d v t) (state c)=(.ok x,state c') ∧ Source c' x
  written : ∀ {σ} (c : Point σ) name, toGround.Moves c σ ((state c).markWritten name)

variable {d : Dialect} {α β : Type} {s t : State}

/-- From a point with `P` the step leads to a later one, and to one with `Q` if it ends well. -/
def Follows (C : Track d) (P : C.Point []→Prop) (m : Compile α) (Q : α → C.Point []→Prop) : Prop :=
  ∀ c, P c→∃ c' : C.Point [], C.Later c c' ∧ C.state c'=(outcome m (C.state c)).2 ∧ ∀ a, (outcome m (C.state c)).1=.ok a→Q a c'

section Rules
variable {C : Track d} {P P' R R' : C.Point []→Prop} {Q Q' : α → C.Point []→Prop}

def Track.Lasting (C : Track d) (R : C.Point []→Prop) : Prop := ∀ ⦃c c'⦄, C.Later c c'→R c→R c'

theorem Track.Lasting.and (hR : C.Lasting R) (hR' : C.Lasting R') : C.Lasting fun c => R c ∧ R' c :=
  fun _ _ hlater h => ⟨hR hlater h.1,hR' hlater h.2⟩

theorem Track.lasting_true (C : Track d) : C.Lasting fun _ => True := fun _ _ _ h => h

theorem Track.lasting_node (C : Track d) (x : String) : C.Lasting fun c => C.Node c x := fun _ _ hlater h => C.node_later hlater h

theorem Track.lasting_source (C : Track d) (x : String) : C.Lasting fun c => C.Source c x :=
  fun _ _ hlater h => C.source_later hlater h

theorem Track.knows_later {σ τ : List Frame} {c : C.Point σ} {c' : C.Point τ} (hlater : C.Later c c') {ref : Ref}
    (h : C.Knows c ref) : C.Knows c' ref := by
  cases ref with
  | node x port => exact C.node_later hlater h
  | name x port => trivial

theorem Track.lasting_knows (C : Track d) (ref : Ref) : C.Lasting fun c => C.Knows c ref :=
  fun _ _ hlater h => C.knows_later hlater h

namespace Follows

variable {m : Compile α} {f : α → Compile β} {Q'' : β → C.Point []→Prop}

theorem reach {r : Except Issue α} {c c' : C.Point []} (hlater : C.Later c c') (hrun : outcome m (C.state c)=(r,C.state c'))
    (hQ : ∀ a, r=.ok a→Q a c') :
    ∃ c', C.Later c c' ∧ C.state c'=(outcome m (C.state c)).2 ∧ ∀ a, (outcome m (C.state c)).1=.ok a→Q a c' :=
  ⟨c',hlater,by rw [hrun],fun a ha => hQ a (by rw [← ha,hrun])⟩

/-- A step that changes nothing. -/
theorem still (hm : Reads m) (h : ∀ a c, P c→Q a c) : Follows C P m Q :=
  fun c hP => ⟨c,C.later_refl c,by rw [hm],fun a _ => h a c hP⟩

theorem pure {a : α} (h : ∀ c, P c→Q a c) : Follows C P (pure a) Q := by
  refine fun c hP => ⟨c,C.later_refl c,rfl,fun b hb => ?_⟩
  cases hb
  exact h c hP

theorem throw {e : Issue} : Follows C P (throw e : Compile α) Q := fun c _ => ⟨c,C.later_refl c,rfl,fun _ h => nomatch h⟩

theorem bind (hm : Follows C P m Q) (hf : ∀ a, Follows C (Q a) (f a) Q'') : Follows C P (m >>= f) Q'' := by
  intro c hP
  obtain ⟨c₁,hlater,hstate,hQ⟩ := hm c hP
  rw [outcome_bind]
  rcases hrun : outcome m (C.state c) with ⟨e | a,t⟩ <;> rw [hrun] at hstate hQ
  · exact ⟨c₁,hlater,hstate,fun _ h => nomatch h⟩
  · obtain rfl := hstate
    obtain ⟨c₂,hlater',hrest⟩ := hf a c₁ (hQ a rfl)
    exact ⟨c₂,C.later_trans hlater hlater',hrest⟩

theorem imp (h : Follows C P m Q) (hP : ∀ c, P' c→P c) (hQ : ∀ a c, Q a c→Q' a c) : Follows C P' m Q' := by
  intro c hP'
  obtain ⟨c',hlater,hstate,hQc⟩ := h c (hP c hP')
  exact ⟨c',hlater,hstate,fun a ha => hQ a c' (hQc a ha)⟩

theorem keep (h : Follows C P m Q) (hR : C.Lasting R) : Follows C (fun c => P c ∧ R c) m fun a c => Q a c ∧ R c := by
  rintro c ⟨hP,hRc⟩
  obtain ⟨c',hlater,hstate,hQ⟩ := h c hP
  exact ⟨c',hlater,hstate,fun a ha => ⟨hQ a ha,hR hlater hRc⟩⟩

theorem pre (h : Follows C P m Q) (hP : ∀ c, P' c→P c) : Follows C P' m Q := fun c hP' => h c (hP c hP')

theorem bindKeep (hR : C.Lasting R) (hm : Follows C R m Q) (hf : ∀ a, Follows C (fun c => Q a c ∧ R c) (f a) Q'') :
    Follows C R (m >>= f) Q'' :=
  bind ((hm.keep hR).pre fun _ h => ⟨h,h⟩) hf

theorem reads (hm : Reads m) (hf : ∀ a, Follows C P (f a) Q'') : Follows C P (m >>= f) Q'' :=
  bind (still hm fun _ _ h => h) hf

theorem lift {x : Except Issue α} (hf : ∀ a, x=.ok a→Follows C P (f a) Q'') : Follows C P (liftM x >>= f) Q'' := by
  cases x with
  | error e => exact throw
  | ok a => exact hf a rfl

theorem get {f : State → Compile α} (h : ∀ c, P c→Follows C (fun c' => c'=c) (f (C.state c)) Q) :
    Follows C P (get >>= f) Q := fun c hP => h c hP c rfl

theorem modify {f : State→State} (hR : C.Lasting R) (h : ∀ c : C.Point [], R c → C.Moves c [] (f (C.state c))) :
    Follows C R (modify f) fun _ => R := by
  intro c hRc
  obtain ⟨c',hlater,hstate⟩ := h c hRc
  exact ⟨c',hlater,hstate,fun _ _ => hR hlater hRc⟩

theorem assume {φ : Prop} (hφ : ∀ c, P c→φ) (h : φ→Follows C P m Q) : Follows C P m Q :=
  fun c hP => h (hφ c hP) c hP

theorem discard (h : Follows C P m Q) : Follows C P (discard m) fun _ _ => True := by
  intro c hP
  obtain ⟨c',hlater,hstate,-⟩ := h c hP
  exact ⟨c',hlater,by rw [hstate,outcome_discard],fun _ _ => trivial⟩

theorem later (h : Follows C P m Q) {c : C.Point []} (hP : P c) : C.Moves c [] (outcome m (C.state c)).2 := by
  obtain ⟨c',hlater,hstate,-⟩ := h c hP
  exact ⟨c',hlater,hstate⟩

end Follows

end Rules

namespace Track

variable {C : Track d} {σ τ ρ : List Frame} {c : C.Point σ} {u : State}

theorem moves_trans (h : C.Moves c τ t) (hnext : ∀ c' : C.Point τ, C.Later c c' → C.state c'=t → C.Moves c' ρ u) :
    C.Moves c ρ u := by
  obtain ⟨c',hlater,hstate⟩ := h
  obtain ⟨c₂,hlater',hrest⟩ := hnext c' hlater hstate
  exact ⟨c₂,C.later_trans hlater hlater',hrest⟩

theorem moves_refl (c : C.Point σ) : C.Moves c σ (C.state c) := ⟨c,C.later_refl c,rfl⟩

end Track

end ChipForge.Wiring
