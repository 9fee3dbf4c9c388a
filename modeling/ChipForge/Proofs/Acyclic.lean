import ChipForge.Proofs.ForwardReferences

/-! A wire leads from a finished node to one under construction, or from a node that nothing is wired to. Scripts
without wires that wait therefore have graphs without cycles. -/
namespace ChipForge.Wiring
open Script Relation List Option

namespace Graph

variable {g : Graph} {h : Graph} {e : Edge} {a b : String}

def Feeds (g : Graph) (a b : String) : Prop := ∃ e∈g.edges, e.fromNode=a ∧ e.toNode=b

/-- No wires lead from a node back to it, through however many others. -/
def Acyclic (g : Graph) : Prop := ∀ id, ¬TransGen g.Feeds id id

theorem feeds_congr (hedges : h.edges=g.edges) (a b : String) : h.Feeds a b ↔ g.Feeds a b := by
  rw [Feeds,Feeds,hedges]

theorem Acyclic.congr (hg : g.Acyclic) (hedges : h.edges=g.edges) : h.Acyclic :=
  fun id hcycle => hg id (TransGen.mono (fun a b => (feeds_congr hedges a b).1) _ _ hcycle)

theorem feeds_addEdge (h : (g.addEdge e).Feeds a b) : g.Feeds a b ∨ a=e.fromNode ∧ b=e.toNode := by
  obtain ⟨e',he',rfl,rfl⟩ := h
  rcases mem_append.1 he' with he' | he'
  · exact .inl ⟨e',he',rfl,rfl⟩
  · rw [mem_singleton.1 he']
    exact .inr ⟨rfl,rfl⟩

theorem path_addEdge (h : TransGen (g.addEdge e).Feeds a b) :
    TransGen g.Feeds a b ∨ ReflTransGen g.Feeds a e.fromNode ∧ ReflTransGen g.Feeds e.toNode b := by
  induction h with
  | single hab =>
    rcases feeds_addEdge hab with hab | ⟨rfl,rfl⟩
    · exact .inl (.single hab)
    · exact .inr ⟨.refl,.refl⟩
  | tail _ hbc ih =>
    rcases feeds_addEdge hbc with hbc | ⟨rfl,rfl⟩
    · rcases ih with hab | ⟨hto,hfrom⟩
      · exact .inl (hab.tail hbc)
      · exact .inr ⟨hto,hfrom.tail hbc⟩
    · rcases ih with hab | ⟨hto,-⟩
      · exact .inr ⟨hab.to_reflTransGen,.refl⟩
      · exact .inr ⟨hto,.refl⟩

/-- A wire between two nodes makes no cycle if nothing leads on from its end or up to its start. -/
theorem Acyclic.addEdge (hg : g.Acyclic) (hne : e.fromNode≠e.toNode)
    (h : (∀ b, ¬g.Feeds e.toNode b) ∨ ∀ a, ¬g.Feeds a e.fromNode) : (g.addEdge e).Acyclic := by
  intro id hcycle
  rcases path_addEdge hcycle with hold | ⟨hto,hfrom⟩
  · exact hg id hold
  · have hback : ReflTransGen g.Feeds e.toNode e.fromNode := hfrom.trans hto
    rcases h with h | h
    · rcases ReflTransGen.cases_head hback with heq | ⟨b,hb,-⟩
      · exact hne heq.symm
      · exact h b hb
    · rcases ReflTransGen.cases_tail hback with heq | ⟨a,-,ha⟩
      · exact hne heq
      · exact h a ha

end Graph

/-- A state in the midst of emission: the nodes under construction are known to no name and no constant, and no wire
starts from them. -/
structure Woven (opened : List String) (s : State) : Prop where
  sound : Sound s
  sources : ∀ e∈s.graph.edges, e.fromNode∈s.graph.ids
  acyclic : s.graph.Acyclic
  here : opened ⊆ s.graph.ids
  distinct : opened.Nodup
  unbound : ∀ name id, s.nodeOf.find name=some id → id∉opened
  unshared : ∀ key id, s.shared.find key=some id → id∉opened
  ends : ∀ id∈opened, ∀ b, ¬s.graph.Feeds id b

/-- A finished node other than a variable, to which nothing is wired. -/
structure IsRoot (opened : List String) (s : State) (id : String) : Prop where
  here : id∈s.graph.ids
  finished : id∉opened
  unfed : ∀ a, ¬s.graph.Feeds a id
  type : (s.graph.typeAt? id).any (Text.lower · == "variable")=false

/-- Nodes stay with their types, finished ones stay so, and nothing is wired to what was a root. -/
structure Weaves (opened opened' : List String) (s t : State) : Prop where
  ids : s.graph.ids ⊆ t.graph.ids
  finished : ∀ id∈s.graph.ids, id∉opened → id∉opened'
  types : ∀ id∈s.graph.ids, t.graph.typeAt? id=s.graph.typeAt? id
  roots : ∀ id, IsRoot opened s id→∀ a, ¬t.graph.Feeds a id

section Weaving
variable {opened opened' opened₂ : List String} {s t u : State} {x : String} {id y : String}

theorem Weaves.refl (opened : List String) (s : State) : Weaves opened opened s s :=
  ⟨List.Subset.refl _,fun _ _ h => h,fun _ _ => rfl,fun _ h => h.unfed⟩

theorem Weaves.isRoot (h : Weaves opened opened' s t) (hid : IsRoot opened s id) : IsRoot opened' t id :=
  ⟨h.ids hid.here,h.finished id hid.here hid.finished,h.roots id hid,h.types id hid.here ▸ hid.type⟩

theorem Weaves.trans (hst : Weaves opened opened' s t) (htu : Weaves opened' opened₂ t u) : Weaves opened opened₂ s u where
  ids := List.Subset.trans hst.ids htu.ids
  finished id hid h := htu.finished id (hst.ids hid) (hst.finished id hid h)
  types id hid := (htu.types id (hst.ids hid)).trans (hst.types id hid)
  roots id hid := htu.roots id (hst.isRoot hid)

theorem Weaves.of_same (hids : t.graph.ids=s.graph.ids) (hedges : t.graph.edges=s.graph.edges)
    (htypes : ∀ id, t.graph.typeAt? id=s.graph.typeAt? id) : Weaves opened opened s t :=
  ⟨hids ▸ List.Subset.refl _,fun _ _ h => h,fun id _ => htypes id,
    fun id hid a ha => hid.unfed a ((Graph.feeds_congr hedges a id).1 ha)⟩

theorem Weaves.close (x : String) (opened : List String) (s : State) : Weaves (x::opened) opened s s :=
  ⟨List.Subset.refl _,fun _ _ h hid => h (mem_cons_of_mem x hid),fun _ _ => rfl,fun _ h => h.unfed⟩

theorem Woven.initial : Woven [] State.initial where
  sound := Sound.initial
  sources _ h := nomatch h
  acyclic id hcycle := by
    obtain ⟨b,⟨e,he,-⟩,-⟩ := TransGen.head'_iff.1 hcycle
    cases he
  here := nil_subset _
  distinct := nodup_nil
  unbound _ _ h := nomatch h
  unshared _ _ h := nomatch h
  ends _ h := nomatch h

theorem Woven.of_same (hs : Woven opened s) (hids : t.graph.ids=s.graph.ids) (hedges : t.graph.edges=s.graph.edges)
    (hsound : Sound t) (hunbound : ∀ name id, t.nodeOf.find name=some id → id∉opened)
    (hshared : t.shared=s.shared) : Woven opened t where
  sound := hsound
  sources := hids ▸ hedges ▸ hs.sources
  acyclic := hs.acyclic.congr hedges
  here := hids ▸ hs.here
  distinct := hs.distinct
  unbound := hunbound
  unshared key id h := hs.unshared key id (hshared ▸ h)
  ends id hid b hb := hs.ends id hid b ((Graph.feeds_congr hedges id b).1 hb)

theorem Woven.close (hs : Woven (x::opened) s) : Woven opened s where
  sound := hs.sound
  sources := hs.sources
  acyclic := hs.acyclic
  here _ hid := hs.here (mem_cons_of_mem _ hid)
  distinct := (nodup_cons.1 hs.distinct).2
  unbound name id h hid := hs.unbound name id h (mem_cons_of_mem _ hid)
  unshared key id h hid := hs.unshared key id h (mem_cons_of_mem _ hid)
  ends id hid := hs.ends id (mem_cons_of_mem _ hid)

section Draw
variable {module label : String} {attrs : Attrs}

theorem Woven.feeds_new (hs : Woven opened s) (a : String) :
    ¬s.graph.Feeds a (s.graph.nextId module).1 ∧ ¬s.graph.Feeds (s.graph.nextId module).1 a := by
  constructor
  · rintro ⟨e,he,-,hto⟩
    exact hs.sound.nextId_notMem_ids module (hto ▸ hs.sound.edges e he)
  · rintro ⟨e,he,hfrom,-⟩
    exact hs.sound.nextId_notMem_ids module (hfrom ▸ hs.sources e he)

theorem Weaves.draw (hs : Sound s) (hgraph : t.graph=(s.draw module label attrs).graph) : Weaves opened opened s t := by
  refine ⟨?_,fun _ _ h => h,fun id hid => ?_,fun id hid a ha => ?_⟩
  · rw [hgraph,ids_draw]
    exact subset_append_left _ _
  · rw [hgraph,typeAt?_draw hs hid]
  · rw [hgraph] at ha
    exact hid.unfed a ha

theorem Woven.draw (hs : Woven opened s) (hgraph : t.graph=(s.draw module label attrs).graph) (hsound : Sound t)
    (hnodeOf : t.nodeOf=s.nodeOf)
    (hshared : ∀ key id, t.shared.find key=some id → s.shared.find key=some id ∨ id=(s.graph.nextId module).1) :
    Woven opened t where
  sound := hsound
  sources e he := by
    rw [hgraph] at he
    rw [hgraph,ids_draw]
    exact mem_append_left _ (hs.sources e he)
  acyclic := hs.acyclic.congr (by rw [hgraph]; rfl)
  here id hid := by
    rw [hgraph,ids_draw]
    exact mem_append_left _ (hs.here hid)
  distinct := hs.distinct
  unbound name id h := hs.unbound name id (hnodeOf ▸ h)
  unshared key id h hid := by
    rcases hshared key id h with h | rfl
    · exact hs.unshared key id h hid
    · exact hs.sound.nextId_notMem_ids module (hs.here hid)
  ends id hid b hb := by
    rw [hgraph] at hb
    exact hs.ends id hid b hb

theorem Woven.isRoot_draw (hs : Woven opened s) (hgraph : t.graph=(s.draw module label attrs).graph)
    (htype : Text.lower module ≠ "variable") : IsRoot opened t (s.graph.nextId module).1 := by
  refine ⟨?_,fun hid => hs.sound.nextId_notMem_ids module (hs.here hid),fun a ha => ?_,?_⟩
  · rw [hgraph,ids_draw]
    exact mem_append_right _ (mem_singleton.2 rfl)
  · rw [hgraph] at ha
    exact (hs.feeds_new a).1 ha
  · rw [hgraph,Graph.typeAt?_eq,kind?_draw_new,map_some,any_some,beq_eq_false_iff_ne]
    exact htype

theorem Weaves.open (hs : Sound s) (module label : String) (attrs : Attrs) :
    Weaves opened ((s.graph.nextId module).1::opened) s (s.draw module label attrs) := by
  have hdraw : Weaves opened opened s (s.draw module label attrs) := .draw hs rfl
  refine ⟨hdraw.ids,fun id hid h => ?_,hdraw.types,hdraw.roots⟩
  rw [mem_cons,not_or]
  exact ⟨fun heq => hs.nextId_notMem_ids module (heq ▸ hid),h⟩

theorem Woven.open (hs : Woven opened s) (module label : String) (attrs : Attrs) :
    Woven ((s.graph.nextId module).1::opened) (s.draw module label attrs) := by
  have hdraw : Woven opened (s.draw module label attrs) := hs.draw rfl (hs.sound.draw module label attrs) rfl fun _ _ h => .inl h
  have hnew := hs.sound.nextId_notMem_ids module
  refine ⟨hdraw.sound,hdraw.sources,hdraw.acyclic,cons_subset.2 ⟨?_,hdraw.here⟩,
    nodup_cons.2 ⟨fun hid => hnew (hs.here hid),hs.distinct⟩,fun name id h => ?_,
    fun key id h => ?_,fun id hid b hb => ?_⟩
  · rw [ids_draw]
    exact mem_append_right _ (mem_singleton.2 rfl)
  · rw [mem_cons,not_or]
    exact ⟨fun heq => hnew (heq ▸ hs.sound.bound name id h),hdraw.unbound name id h⟩
  · rw [mem_cons,not_or]
    exact ⟨fun heq => hnew (heq ▸ hs.sound.mem_ids_of_shared h),hdraw.unshared key id h⟩
  · rcases mem_cons.1 hid with rfl | hid
    · exact (hs.feeds_new b).2 hb
    · exact hdraw.ends id hid b hb

end Draw

theorem Woven.wait (hs : Woven opened s) (name out port : String) (line : Option Nat) (hx : x∈s.graph.ids)
    (hfree : ∀ key, s.shared.find key≠some x) : Woven opened (s.connect (.name name out) x port line) :=
  hs.of_same rfl rfl (hs.sound.connect _ port line hx hfree) hs.unbound rfl

/-- A wire from a finished node to one under construction, or from a root to another node. -/
theorem Woven.wire (hs : Woven opened s) (out port : String) (line : Option Nat) (hx : x∈s.graph.ids)
    (hy : y∈s.graph.ids) (hfinished : y∉opened) (hfree : ∀ key, s.shared.find key≠some x) (hne : y≠x)
    (hend : x∈opened ∨ IsRoot opened s y) : Woven opened (s.connect (.node y out) x port line) where
  sound := hs.sound.connect _ port line hx hfree
  sources e he := by
    rcases mem_append.1 (show e∈s.graph.edges++[⟨y,out,x,port,line⟩] from he) with he | he
    · exact hs.sources e he
    · exact mem_singleton.1 he ▸ hy
  acyclic := by
    refine Graph.Acyclic.addEdge (e := ⟨y,out,x,port,line⟩) hs.acyclic hne ?_
    rcases hend with hx | hroot
    · exact .inl (hs.ends x hx)
    · exact .inr hroot.unfed
  here := hs.here
  distinct := hs.distinct
  unbound := hs.unbound
  unshared := hs.unshared
  ends id hid b hb := by
    rcases Graph.feeds_addEdge (e := ⟨y,out,x,port,line⟩) hb with hb | ⟨rfl,-⟩
    · exact hs.ends id hid b hb
    · exact hfinished hid

theorem Weaves.wire (out port : String) (line : Option Nat) (hx : ¬IsRoot opened s x) :
    Weaves opened opened s (s.connect (.node y out) x port line) := by
  refine ⟨List.Subset.refl _,fun _ _ h => h,fun _ _ => rfl,fun id hid a ha => ?_⟩
  rcases Graph.feeds_addEdge (e := ⟨y,out,x,port,line⟩) ha with ha | ⟨-,rfl⟩
  · exact hid.unfed a ha
  · exact hx hid

theorem Woven.isRoot_shared (hs : Woven opened s) {key : String} (h : s.shared.find key=some id) :
    IsRoot opened s id := by
  obtain ⟨v,t,-,hv⟩ := hs.sound.shared key id h
  refine ⟨hs.sound.mem_ids_of_shared h,hs.unshared key id h,?_,?_⟩
  · rintro a ⟨e,he,-,hto⟩
    have hfeeds : s.feeds id=[] := by
      unfold State.constant? at hv
      obtain ⟨kind,-,hkind⟩ := bind_eq_some_iff.1 hv
      split_ifs at hkind with hconstant
      exact hconstant.2
    have hdrawn : s.drawnInto id=[] := (append_eq_nil_iff.1 hfeeds).1
    have hnone := filter_eq_nil_iff.1 (map_eq_nil_iff.1 hdrawn) e he
    exact hnone (beq_iff_eq.2 hto)
  · unfold State.constant? at hv
    obtain ⟨kind,hkind,hconstant⟩ := bind_eq_some_iff.1 hv
    split_ifs at hconstant with htype
    rw [Graph.typeAt?_eq,hkind,map_some,any_some,htype.1]
    decide

theorem Woven.constant (hs : Woven opened s) (d : Dialect) (v : Literal) (u : Option GateType) :
    ∃ id t, outcome (emitConstant d v u) s=(.ok id,t) ∧ Woven opened t ∧ Weaves opened opened s t ∧ IsRoot opened t id := by
  rcases outcome_emitConstant d v u s with ⟨-,id,hkey,-,hrun⟩ | ⟨-,-,hrun⟩ | ⟨-,hrun⟩
  · exact ⟨id,s,hrun,hs,.refl opened s,hs.isRoot_shared hkey⟩
  · have hgraph := s.hold_graph v u
    refine ⟨_,_,hrun,hs.draw hgraph (hs.sound.hold v u) (by cases u <;> rfl) fun key id h => ?_,
      .draw hs.sound hgraph,hs.isRoot_draw hgraph (by decide)⟩
    rw [s.hold_shared,Table.find_put] at h
    split_ifs at h
    · exact .inr (some.inj h).symm
    · exact .inl h
  · have hgraph := s.drawConstant_graph v u
    exact ⟨_,_,hrun,hs.draw hgraph (hs.sound.drawConstant v u) (by cases u <;> rfl) fun _ _ h => .inl (by cases u <;> exact h),
      .draw hs.sound hgraph,hs.isRoot_draw hgraph (by decide)⟩

end Weaving

abbrev Loom (σ : List Frame) : Type := { s : State // Woven (σ.map Frame.id) s }

namespace Loom

variable {σ : List Frame} {t : State}

abbrev ground : Ground where
  Point := Loom
  state c := c.1
  Later {σ τ} c c' := Weaves (σ.map Frame.id) (τ.map Frame.id) c.1 c'.1
  Node {σ} c x := x∈c.1.graph.ids ∧ x∉σ.map Frame.id
  Source {σ} c x := IsRoot (σ.map Frame.id) c.1 x
  Fed c x := x∈c.1.graph.ids ∧ (c.1.graph.typeAt? x).any (Text.lower · == "variable")
  Name _ := True
  Makes _ id _ := id=none

theorem moves (c : Loom σ) (ht : Woven (σ.map Frame.id) t)
    (hweaves : Weaves (σ.map Frame.id) (σ.map Frame.id) c.1 t) : ground.Moves c σ t :=
  ⟨⟨t,ht⟩,hweaves,rfl⟩

theorem still (c : Loom σ) (h : Still c.1 t)
    (hnames : ∀ name id, t.nodeOf.find name=some id → id∈c.1.graph.ids ∧ id∉σ.map Frame.id) :
    ground.Moves c σ t := by
  have hbound : t.Bound := fun name id hname => h.ids ▸ (hnames name id hname).1
  refine c.moves (c.2.of_same h.ids h.edges (c.2.sound.of_still h hbound) (fun name id hname => (hnames name id hname).2)
    h.shared) (.of_same h.ids h.edges fun id => ?_)
  rw [Graph.typeAt?_eq,Graph.typeAt?_eq,h.kinds]

theorem finished (c : Loom σ) {name id : String} (h : c.1.nodeOf.find name=some id) :
    id∈c.1.graph.ids ∧ id∉σ.map Frame.id :=
  ⟨c.2.sound.bound name id h,c.2.unbound name id h⟩

theorem attrs (c : Loom σ) (x : String) {f : Attrs→Attrs}
    (hvalue : ∀ attrs, attr? (f attrs) "value" = attr? attrs "value") : ground.Moves c σ (c.1.mapAttrs x f) := by
  have hids := c.1.mapAttrs_ids x f
  refine c.moves (c.2.of_same hids rfl ?_ c.2.unbound rfl) (.of_same hids rfl (c.1.typeAt?_mapAttrs x f))
  exact c.2.sound.of_records hids rfl rfl rfl rfl rfl (c.1.constant?_mapAttrs x hvalue)

def track (d : Dialect) : Track d where
  toGround := ground
  later_refl c := .refl _ c.1
  later_trans hab hbc := hab.trans hbc
  node_later hlater _ h := ⟨hlater.ids h.1,hlater.finished _ h.1 h.2⟩
  source_later hlater _ h := hlater.isRoot h
  source_node h := ⟨h.here,h.finished⟩
  made _ _ := rfl
  names c _ _ hname := ⟨c.finished hname,trivial⟩
  close {f σ} c := ⟨⟨c.1,c.2.close⟩,.close f.id _ c.1,rfl,c.2.here mem_cons_self,(nodup_cons.1 c.2.distinct).1⟩
  place c module plan names ports attrs hid _ := by
    rw [State.place_eq_draw hid]
    exact ⟨⟨_,c.2.open module _ attrs⟩,.open c.2.sound module _ attrs,rfl⟩
  inputs c c' _ _ _ := still c' (.setInputs _ _ _) fun _ _ hname => finished c' hname
  wire {x port rest σ} c ref line href := by
    have hx : x∈x::σ.map Frame.id := mem_cons_self
    have hhere := c.2.here hx
    have hfree : ∀ key, c.1.shared.find key≠some x := fun key h => c.2.unshared key x h hx
    cases ref with
    | node y out =>
      obtain ⟨hy,hfinished⟩ := href
      exact ⟨⟨_,c.2.wire _ port line hhere hy hfinished hfree (fun heq => hfinished (heq ▸ hx)) (.inl hx)⟩,
        .wire _ port line fun hroot => hroot.finished hx,rfl⟩
    | name y out => exact ⟨⟨_,c.2.wait _ _ port line hhere hfree⟩,.of_same rfl rfl fun _ => rfl,rfl⟩
  attrs {f σ} c g hvalue := attrs c f.id hvalue
  nodeType c t := still c (.of_graph rfl rfl rfl) fun _ _ hname => finished c hname
  constant c v t := by
    obtain ⟨id,u,hrun,hu,hweaves,hroot⟩ := c.2.constant d v t
    exact ⟨⟨u,hu⟩,id,hweaves,hrun,hroot⟩
  written c name := still c (.of_graph rfl rfl rfl) fun _ _ hname => finished c hname

theorem statements (d : Dialect) : (track d).Statements where
  note c x _ hvalue _ _ := attrs c x hvalue
  nodeType c _ _ _ := still c (.of_graph rfl rfl rfl) fun _ _ hname => finished c hname
  scope c _ h := still c (.of_graph rfl rfl rfl) fun name id hname => (h name id hname).1
  define c _ := still c ⟨rfl,rfl,fun _ => rfl,rfl,rfl,rfl⟩ fun _ _ hname => finished c hname
  guard c _ _ := still c (.of_graph rfl rfl rfl) fun _ _ hname => finished c hname

theorem feeding (d : Dialect) : (track d).Feeding where
  fed c x h htype := ⟨h.1,htype⟩
  fed_later x c c' hlater h := ⟨hlater.ids h.1,by rw [hlater.types x h.1]; exact h.2⟩
  feed c x y out port line hroot hy := by
    obtain ⟨hy,htype⟩ := hy
    have hvariable : ¬IsRoot [] c.1 y := by
      intro h
      rw [h.type] at htype
      cases htype
    exact moves c (c.2.wire out port line hy hroot.here hroot.finished (fun key hkey => hvariable (c.2.isRoot_shared hkey))
      (fun heq => hvariable (heq ▸ hroot)) (.inr hroot)) (.wire out port line hvariable)

end Loom

def takesSettingsOnly : Expr→Bool
  | .call _ _ _ keywords => keywords.all fun k => k.name.all (isSetting "input")
  | _ => false

theorem ports_input {line : Option Nat} {module : String} {args : List Operand} {keywords : List Keyword} {plan : CallPlan}
    {d : Dialect} (hmodule : Text.lower module = "input")
    (hsettings : ∀ k∈keywords, k.name.all (isSetting "input")=true)
    (hplan : planCall ⟨line,module,args,namedOperands d keywords⟩=.ok plan) : plan.ports=[] := by
  rw [planCall_ports hplan,callPorts,hmodule,givenPorts,if_pos (by decide),nil_append,filterMap_eq_nil_iff]
  intro pair hpair
  obtain ⟨k,hk,rfl⟩ := mem_map.1 hpair
  rw [namedOperands_eq] at hk
  obtain ⟨k,hmem,rfl⟩ := mem_map.1 hk
  have hsetting := hsettings k hmem
  cases hname : k.name with
  | none => simp [keywordPort?,NamedOperand.pair]
  | some key =>
    rw [hname,all_some] at hsetting
    simp [keywordPort?,NamedOperand.pair,hsetting]

theorem outcome_emitInput (d : Dialect) {call : Expr} (hids : call.ownIds=[]) (hinput : isInputCall call=true)
    (hsettings : takesSettingsOnly call=true) (s : State) :
    (∃ issue, outcome (emitExpr d call) s=(.error issue,s)) ∨
      ∃ module label attrs, Text.lower module = "input" ∧ outcome (emitExpr d call) s =
        (.ok (.node (s.graph.nextId module).1 autoPort),
          (s.draw module label attrs).setInputs s.graph.nodes.length []) := by
  obtain ⟨line,fn,args,keywords,rfl,hmodule,hemit⟩ := emitExpr_input d hinput
  rw [hemit]
  generalize canonicalModule (calledName fn)=module at hmodule
  rw [outcome_bind]
  cases hplan : planCall ⟨some line,module,operands d args,namedOperands d keywords⟩ with
  | error issue =>
    rw [outcome_emitCall_error hplan]
    exact .inl ⟨issue,rfl⟩
  | ok plan =>
    rw [outcome_emitCall hplan,ports_input hmodule (all_eq_true.1 hsettings) hplan]
    dsimp only
    have hid : plan.id=none := eq_none_iff_forall_not_mem.2 fun x hx =>
      nomatch hids ▸ (mem_ownIds_of_planCall hplan hx : x∈(Expr.call line fn args keywords).ownIds)
    rw [State.place_eq_draw hid]
    exact .inr ⟨module,_,_,hmodule,rfl⟩

namespace Loom

variable {d : Dialect} {call : Expr}

/-- An input that is given settings only may be fed into any node. -/
theorem feeds (hids : call.ownIds=[]) (hinput : isInputCall call=true) (hsettings : takesSettingsOnly call=true) :
    (track d).Feeds call := by
  refine ⟨feeding d,fun c _ => ?_⟩
  rcases outcome_emitInput d hids hinput hsettings c.1 with ⟨issue,hrun⟩ | ⟨module,label,attrs,hmodule,hrun⟩
  · exact Follows.reach (.refl _ c.1) hrun fun _ h => nomatch h
  · let c₁ : Loom [] := ⟨c.1.draw module label attrs,c.2.draw rfl (c.2.sound.draw _ _ _) rfl fun _ _ h => .inl h⟩
    have hroot : IsRoot [] c₁.1 (c.1.graph.nextId module).1 := c.2.isRoot_draw rfl (by rw [hmodule]; decide)
    obtain ⟨c₂,hlater,hstate⟩ := still c₁ (.setInputs _ c.1.graph.nodes.length []) fun _ _ hname => c₁.finished hname
    rw [← (hstate : c₂.1=c₁.1.setInputs c.1.graph.nodes.length [])] at hrun
    refine Follows.reach (.trans (.draw c.2.sound rfl) hlater) hrun fun _ h => ?_
    cases h
    exact ⟨_,autoPort,rfl,hlater.isRoot hroot⟩

theorem runs (hids : call.ownIds=[]) (hinput : isInputCall call=true → takesSettingsOnly call=true) :
    (track d).Runs call where
  admits _ _ _ _ _ _ _ hasked := eq_none_iff_forall_not_mem.2 fun x hx => nomatch hids ▸ hasked x hx
  feeds h _ := feeds hids h (hinput h)

end Loom

/-- The statements of a script whose inputs are given settings only make no cycle. -/
theorem compileScript_woven (d : Dialect) {stmts : List Stmt} (hids : askedIds stmts=[])
    (hinputs : ∀ call∈callsOfStmts stmts, isInputCall call=true → takesSettingsOnly call=true) :
    Woven [] (outcome (compileScript d stmts) State.initial).2 := by
  have hruns : ∀ call∈callsOfStmts stmts, (Loom.track d).Runs call :=
    fun call hcall => Loom.runs (flatMap_eq_nil_iff.1 hids call hcall) (hinputs call hcall)
  have hpasses : Passes (Loom.track d) (fun _ => True) (compileScript d stmts) :=
    (Loom.statements d).walk.goes_script () (fun _ _ => trivial) hruns _
  obtain ⟨c,-,hstate⟩ := hpasses.later (c := ⟨State.initial,.initial⟩) trivial
  exact hstate ▸ c.2

/-- The wires of a script in which no wire waits lead nowhere in a circle. -/
theorem graphOf_acyclic (d : Dialect) {stmts : List Stmt} {g : Graph} (hids : askedIds stmts = [])
    (hinputs : ∀ call ∈ callsOfStmts stmts, isInputCall call = true → takesSettingsOnly call = true)
    (hpending : (outcome (compileScript d stmts) State.initial).2.pending = []) (hgraph : graphOf d stmts = .ok g) :
    g.Acyclic := by
  have hlisted := graphOf_of_pending_eq_nil (outcome_compileScript_of_graphOf hgraph) hpending
  rw [hlisted] at hgraph
  cases hgraph
  exact (compileScript_woven d hids hinputs).acyclic.congr (State.listed_spec _).1

def loopScript : List Stmt :=
  let text (s : String) : Expr := .const (.str s false)
  let plus (e : Expr) : Expr := .binary e .add (.const (.int 1))
  let number (line : Nat) (name : String) : Stmt := .declare line (.name name) (.name "number") (some (.const (.int 1)))
  [number 1 "x",number 2 "y",number 3 "z",
    .assign 4 [.name "x"] (.call 4 (.name "INPUT") [text "X"] [.mk (some "data_type") (text "Number")]),
    .ifElse 5 (.compare 5 (.name "__name__") [.mk .eq (text "__main__")])
      [.expr 6 (.call 6 (.name "SET") [.name "y",plus (.name "y")] []),
        .assign 7 [.name "z"] (plus (.name "z")),
        .ifElse 8 (.compare 8 (.name "x") [.mk .gt (.const (.int 1))])
          [.assign 9 [.name "w"] (plus (.name "y"))] [.assign 11 [.name "w"] (plus (.name "z"))],
        .expr 12 (.call 12 (.name "OUTPUT") [.name "w",text "W"] [])] []]

private theorem run_loopScript : ∃ s, outcome (compileScript (.full []) loopScript) State.initial=(.ok (),s) ∧
    s.pending=[] ∧ (s.graph.edges.map fun e => (e.fromNode,e.toNode)) =
      [("input_0","variable_0"),("constant_0","variable_0"),("variable_1","add_0"),("constant_1","add_0"),
        ("add_0","variable_3"),("constant_0","variable_3"),("variable_2","add_1"),("constant_1","add_1"),
        ("add_1","variable_4"),("constant_0","variable_4"),("variable_0","greaterthan_0"),
        ("constant_1","greaterthan_0"),("variable_1","add_2"),("constant_1","add_2"),("variable_2","add_3"),
        ("constant_1","add_3"),("greaterthan_0","branch_0"),("add_2","branch_0"),("add_3","branch_0"),
        ("branch_0","output_0")] :=
  ⟨_,outcome_eq_ok (by decide +kernel),by decide +kernel,by decide +kernel⟩

/-- Two variables are written by nodes of their own, the third is fed, and what writes them shares its constants. -/
theorem graphOf_acyclic_loopScript : ∃ g, askedIds loopScript = [] ∧
    (∀ call ∈ callsOfStmts loopScript, isInputCall call = true → takesSettingsOnly call = true) ∧
    (outcome (compileScript (.full []) loopScript) State.initial).2.pending = [] ∧
    graphOf (.full []) loopScript = .ok g ∧ (g.edges.map fun e => (e.fromNode, e.toNode)).take 6 =
      [("input_0", "variable_0"), ("constant_0", "variable_0"), ("variable_1", "add_0"), ("constant_1", "add_0"),
        ("add_0", "variable_3"), ("constant_0", "variable_3")] ∧ g.Acyclic := by
  obtain ⟨s,hrun,hpending,hedges⟩ := run_loopScript
  have hids : askedIds loopScript = [] := by decide +kernel
  have hinputs : ∀ call ∈ callsOfStmts loopScript, isInputCall call = true → takesSettingsOnly call = true := by
    decide +kernel
  have hnone : (outcome (compileScript (.full []) loopScript) State.initial).2.pending = [] := by
    rw [hrun]
    exact hpending
  have hgraph := graphOf_of_pending_eq_nil hrun hpending
  refine ⟨s.listed,hids,hinputs,hnone,hgraph,?_,graphOf_acyclic (.full []) hids hinputs hnone hgraph⟩
  rw [s.listed_spec.1,hedges]
  rfl

end ChipForge.Wiring
