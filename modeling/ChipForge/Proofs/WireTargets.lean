import ChipForge.Proofs.Placement

/-! Every node is made to be wired on certain ports. Wires lead to such ports, to each at most once, and besides to the
two ports of a variable that an input is fed into. Every step of the compiler keeps this. -/
namespace ChipForge.Wiring
open Script List

variable {ports : List String}

/-- A node with the ports it was made to be wired on. -/
structure Site where
  id : String
  type : String
  ports : List String

def Site.targets (site : Site) : List (String×String) := site.ports.map fun port => (site.id,port)

def feedTargets (id : String) : List (String×String) := [(id,"Value"),(id,"Set")]

def State.targets (s : State) : List (String×String) :=
  s.graph.edges.map (fun e => (e.toNode,e.toPort))++s.pending.map fun p => (p.toNode,p.toPort)

theorem State.targets_connect (s : State) (ref : Ref) (id port : String) (line : Option Nat) :
    (s.connect ref id port line).targets.Perm ((id,port)::s.targets) := by
  cases ref with
  | node source out =>
    show ((s.graph.edges++[_]).map _ ++ s.pending.map _).Perm _
    rw [map_append,append_assoc]
    exact perm_middle
  | name source out =>
    show (s.graph.edges.map _ ++ (s.pending++[_]).map _).Perm _
    rw [map_append,← append_assoc]
    exact perm_append_comm

/-- The nodes of the state with the ports they are wired on, and the variables that inputs are fed into. Wires lead to the
ports of these, and so many targets more are still free. -/
structure Allots (calls : List Expr) (free : List (String×String)) (s : State) (sites : List Site) (fed : List String) :
    Prop where
  nodes : sites.map (fun site => (site.id,site.type))=s.graph.nodes.map fun node => (node.id,node.type)
  wirable : ∀ site∈sites, Wirable calls site.type site.ports
  fedTypes : ∀ id∈fed, ∃ site∈sites, site.id=id ∧ Text.lower site.type = "variable"
  targets : (s.targets++free).Subperm (sites.flatMap Site.targets++fed.flatMap feedTargets)

def NamesIn (bound : List String) (nodeOf : Table String) : Prop := ∀ name, nodeOf.has name=true → name∈bound

/-- Names stand for nodes only among those bound, at most so many inputs are fed into variables, and the wires have room
for more on the targets that are free. -/
structure Kept (calls : List Expr) (bound : List String) (n : Nat) (free : List (String×String)) (s : State) : Prop where
  names : NamesIn bound s.nodeOf
  allots : ∃ sites fed, fed.length ≤ n ∧ Allots calls free s sites fed

/-- More room makes more targets free. -/
private theorem subperm_room {α : Type} {used free room : List α} (more : List α) (h : (used++free).Subperm room) :
    (used++(more++free)).Subperm (more++room) := by
  have hmove : (used++(more++free)).Perm (more++(used++free)) := by
    rw [← append_assoc,← append_assoc]
    exact perm_append_comm.append_right free
  exact hmove.subperm.trans ((subperm_append_left more).2 h)

section Kept
variable {calls : List Expr} {bound : List String} {n : Nat} {free : List (String×String)} {s t : State} {id : String}

theorem Kept.initial : Kept calls [] 0 [] State.initial where
  names name h := nomatch h
  allots := ⟨[],[],Nat.le_refl _,rfl,by simp,by simp,List.Subperm.refl _⟩

theorem Kept.mono (h : Kept calls bound n free s) {bound' : List String} {n' : Nat} {free' : List (String×String)}
    (hbound : bound ⊆ bound') (hn : n ≤ n') (hfree : free'.Subperm free) : Kept calls bound' n' free' s where
  names name hname := hbound (h.names name hname)
  allots := by
    obtain ⟨sites,fed,hfed,hnodes,hwirable,hfedTypes,htargets⟩ := h.allots
    refine ⟨sites,fed,Nat.le_trans hfed hn,hnodes,hwirable,hfedTypes,List.Subperm.trans ?_ htargets⟩
    exact (subperm_append_left s.targets).2 hfree

theorem Kept.drop (more : List (String×String)) (h : Kept calls bound n (more++free) s) : Kept calls bound n free s :=
  h.mono (List.Subset.refl _) (Nat.le_refl _) (sublist_append_right more free).subperm

/-- Other changes than new nodes and wires. -/
theorem Kept.congr (h : Kept calls bound n free s)
    (hnodes : t.graph.nodes.map (fun node => (node.id,node.type))=s.graph.nodes.map fun node => (node.id,node.type))
    (hedges : t.graph.edges=s.graph.edges) (hpending : t.pending=s.pending)
    (hnames : NamesIn bound t.nodeOf) : Kept calls bound n free t where
  names := hnames
  allots := by
    obtain ⟨sites,fed,hfed,hsites,hwirable,hfedTypes,htargets⟩ := h.allots
    refine ⟨sites,fed,hfed,hsites.trans hnodes.symm,hwirable,hfedTypes,?_⟩
    rwa [State.targets,hedges,hpending,← State.targets]

/-- A wire takes a free target. -/
theorem Kept.connect {port : String} (h : Kept calls bound n ((id,port)::free) s) (ref : Ref) (line : Option Nat) :
    Kept calls bound n free (s.connect ref id port line) where
  names := (s.connect_nodeOf ref id port line).symm ▸ h.names
  allots := by
    obtain ⟨sites,fed,hfed,hnodes,hwirable,hfedTypes,htargets⟩ := h.allots
    refine ⟨sites,fed,hfed,by rwa [State.connect_nodes],hwirable,hfedTypes,List.Subperm.trans ?_ htargets⟩
    exact (((s.targets_connect ref id port line).append_right free).trans perm_middle.symm).subperm

/-- A new node gives free targets. -/
theorem Kept.place {y type : String} (h : Kept calls bound n free s) (hwirable : Wirable calls type ports)
    (hnodes : t.graph.nodes.map (fun node => (node.id,node.type)) =
      s.graph.nodes.map (fun node => (node.id,node.type))++[(y,type)])
    (hedges : t.graph.edges=s.graph.edges) (hpending : t.pending=s.pending) (hnames : t.nodeOf=s.nodeOf) :
    Kept calls bound n (ports.map (fun port => (y,port))++free) t where
  names := hnames ▸ h.names
  allots := by
    obtain ⟨sites,fed,hfed,hsites,hall,hfedTypes,htargets⟩ := h.allots
    refine ⟨sites++[⟨y,type,ports⟩],fed,hfed,?_,?_,?_,?_⟩
    · rw [map_append,hsites,hnodes,map_singleton]
    · intro site hsite
      rcases mem_append.1 hsite with hsite | hsite
      · exact hall site hsite
      · rw [mem_singleton.1 hsite]
        exact hwirable
    · intro x hx
      obtain ⟨site,hsite,hid⟩ := hfedTypes x hx
      exact ⟨site,mem_append_left _ hsite,hid⟩
    · have hsame : t.targets=s.targets := by rw [State.targets,hedges,hpending,← State.targets]
      rw [hsame,flatMap_append,flatMap_singleton]
      refine (subperm_room _ htargets).trans (Perm.subperm ?_)
      rw [← append_assoc]
      exact perm_append_comm.append_right _

/-- A variable that an input is fed into gives free targets. -/
theorem Kept.feed (h : Kept calls bound n free s)
    (hid : ∃ node∈s.graph.nodes, node.id=id ∧ Text.lower node.type = "variable") :
    Kept calls bound (n+1) (feedTargets id++free) s where
  names := h.names
  allots := by
    obtain ⟨sites,fed,hfed,hnodes,hwirable,hfedTypes,htargets⟩ := h.allots
    refine ⟨sites,id::fed,Nat.succ_le_succ hfed,hnodes,hwirable,?_,?_⟩
    · intro x hx
      rcases mem_cons.1 hx with rfl | hx
      · obtain ⟨node,hnode,hnodeId,htype⟩ := hid
        have hmem : (node.id,node.type)∈sites.map fun site => (site.id,site.type) :=
          hnodes ▸ mem_map_of_mem hnode
        obtain ⟨site,hsite,heq⟩ := mem_map.1 hmem
        obtain ⟨hsiteId,hsiteType⟩ := Prod.mk.inj heq
        exact ⟨site,hsite,hsiteId.trans hnodeId,hsiteType ▸ htype⟩
      · exact hfedTypes x hx
    · rw [flatMap_cons]
      refine (subperm_room _ htargets).trans (Perm.subperm ?_)
      rw [← append_assoc,← append_assoc]
      exact perm_append_comm.append_right _

end Kept

/-- However the step ends, the one property leads to the other. -/
def Leads {α : Type} (P : State→Prop) (m : Compile α) (Q : State→Prop) : Prop := ∀ s, P s→Q (outcome m s).2

section Leads
variable {α β : Type} {P Q R : State→Prop} {m : Compile α}

theorem Leads.bind {f : α → Compile β} (hm : Leads P m Q) (hf : ∀ a, Leads Q (f a) R) (hQR : ∀ s, Q s→R s) :
    Leads P (m >>= f) R := by
  intro s hs
  have hmid := hm s hs
  rw [outcome_bind]
  rcases hrun : outcome m s with ⟨issue | a,t⟩ <;> rw [hrun] at hmid
  · exact hQR t hmid
  · exact hf a t hmid

theorem Leads.reads (hm : Reads m) : Leads P m P := fun s hs => (hm s).symm ▸ hs

theorem Leads.get {f : State → Compile β} (h : ∀ s, P s→Q (outcome (f s) s).2) : Leads P (get >>= f) Q := h

end Leads

theorem Wirable.mono {calls : List Expr} {module : String} (h : Wirable [] module ports) : Wirable calls module ports := by
  cases h with
  | constant => exact .constant
  | declared => exact .declared
  | write => exact .write
  | choice => exact .choice
  | operator h => exact .operator h
  | comparison h => exact .comparison h
  | logic op => exact .logic op
  | negation => exact .negation
  | opposite => exact .opposite
  | function h => exact .function h
  | call h => cases h

namespace Kept

variable {calls : List Expr} {bound : List String} {n : Nat} {free : List (String×String)} {s : State} {σ : List Frame}
  {d : Dialect} {P : State→Prop}

/-- The node of a planned call. -/
theorem placePlan (h : Kept calls bound n free s) {module : String} (plan : CallPlan) (attrs : Attrs)
    (hwirable : Wirable calls module ports) :
    Kept calls bound n (ports.map (fun port => ((s.place module plan attrs).1,port))++free) (s.place module plan attrs).2 := by
  refine h.place hwirable ?_ ?_ rfl rfl
  · show ((chooseId s.graph module plan.id).2.nodes++[_]).map _ = _
    rw [map_append,chooseId_nodes]
    rfl
  · show (chooseId s.graph module plan.id).2.edges=_
    rcases chooseId_cases s.graph module plan.id with ⟨id,-,-,h⟩ | h <;> rw [h]
    rfl

theorem constant (h : Kept calls bound n free s) (d : Dialect) (v : Literal) (t : Option GateType) :
    ∃ x u, outcome (emitConstant d v t) s=(.ok x,u) ∧ Kept calls bound n free u := by
  have hdrawn : Kept calls bound n free (s.drawConstant v t) := by
    refine h.place (y := (s.graph.nextId "Constant").1) .constant ?_ ?_ ?_ ?_
    · rw [s.drawConstant_graph]
      exact map_append
    · rw [s.drawConstant_graph]
      rfl
    · cases t <;> rfl
    · cases t <;> rfl
  rcases outcome_emitConstant d v t s with ⟨-,id,-,-,hrun⟩ | ⟨-,-,hrun⟩ | ⟨-,hrun⟩
  · exact ⟨id,s,hrun,h⟩
  · exact ⟨_,_,hrun,hdrawn.congr rfl rfl rfl hdrawn.names⟩
  · exact ⟨_,_,hrun,hdrawn⟩

def openTargets (σ : List Frame) : List (String×String) := σ.flatMap fun f => f.ports.map fun port => (f.id,port)

abbrev ground (calls : List Expr) (bound : List String) (n : Nat) : Ground where
  Point σ := { s : State // Kept calls bound n (openTargets σ) s }
  state c := c.1
  Later _ _ := True
  Node _ _ := True
  Source _ _ := True
  Fed _ _ := False
  Name name := name∈bound
  Makes module _ ports := Wirable calls module ports

theorem moves (c : (ground calls bound n).Point σ) {t : State} (h : Kept calls bound n (openTargets σ) t) :
    (ground calls bound n).Moves c σ t :=
  ⟨⟨t,h⟩,trivial,rfl⟩

theorem mapAttrs (h : Kept calls bound n free s) (id : String) (g : Attrs→Attrs) :
    Kept calls bound n free (s.mapAttrs id g) :=
  h.congr (Graph.map_updateLast (by intro node; rfl) _ _) rfl rfl h.names

def track (calls : List Expr) (bound : List String) (n : Nat) (d : Dialect) : Track d where
  toGround := ground calls bound n
  later_refl _ := trivial
  later_trans _ _ := trivial
  node_later _ _ h := h
  source_later _ _ h := h
  source_node h := h
  made h _ := h.mono
  names c name x hname := ⟨trivial,c.2.names name (by rw [Table.has_eq_isSome,hname]; rfl)⟩
  close c := ⟨⟨c.1,c.2.drop _⟩,trivial,rfl,trivial⟩
  place c module plan names ports attrs hwirable hsub :=
    ⟨⟨_,(c.2.placePlan plan attrs hwirable).mono (List.Subset.refl _) (Nat.le_refl n)
      ((hsub.map _).append_right _).subperm⟩,trivial,rfl⟩
  inputs c c' _ _ _ := moves c' (c'.2.congr (Graph.map_updateAt (by intro node; rfl) _ _) rfl rfl c'.2.names)
  wire c ref line _ := ⟨⟨_,c.2.connect _ line⟩,trivial,rfl⟩
  attrs {f σ} c g _ := moves c (c.2.mapAttrs f.id g)
  nodeType c t := moves c (c.2.congr rfl rfl rfl c.2.names)
  constant c v t := by
    obtain ⟨x,u,hrun,hu⟩ := c.2.constant d v t
    exact ⟨⟨u,hu⟩,x,trivial,hrun,trivial⟩
  written c name := moves c (c.2.congr rfl rfl rfl c.2.names)

theorem statements (calls : List Expr) (bound : List String) (n : Nat) (d : Dialect) :
    (track calls bound n d).Statements where
  note c x g _ _ _ := moves c (c.2.mapAttrs x g)
  nodeType c x t _ := moves c (c.2.congr rfl rfl rfl c.2.names)
  scope c scope h := by
    refine moves c (c.2.congr rfl rfl rfl fun name hname => ?_)
    obtain ⟨x,hx⟩ := Option.isSome_iff_exists.1 ((Table.has_eq_isSome _ _).symm.trans hname)
    exact (h name x hx).2
  define c v := moves c (c.2.congr rfl rfl rfl c.2.names)
  guard c guarded inGuard := moves c (c.2.congr rfl rfl rfl c.2.names)

theorem admits {call : Expr} (hcall : call∈calls) : (track calls bound n d).Admits call := by
  rintro line fn args keywords rfl hform _ _
  exact .call hcall hform

/-- What stays on the track keeps what is kept. -/
theorem leads_of_follows {α : Type} {m : Compile α} {Q : α→(track calls bound n d).Point []→Prop}
    (h : Follows (track calls bound n d) (fun c => P c.1) m Q)
    (hP : ∀ s, P s→Kept calls bound n [] s) : Leads P m (Kept calls bound n []) := by
  intro s hs
  obtain ⟨c,-,hstate⟩ := h.later (c := ⟨s,hP s hs⟩) hs
  exact hstate ▸ c.2

theorem passes_of_leads {m : Compile Unit} (h : Leads P m (Kept calls bound n [])) :
    Passes (track calls bound n d) (fun c => P c.1) m := by
  intro c hc
  exact ⟨⟨_,h c.1 hc⟩,trivial,rfl,fun _ _ => trivial⟩

/-- Compiling an expression whose calls are known keeps what is kept. -/
theorem emitExpr_leads (d : Dialect) {e : Expr} (hcalls : e.calls ⊆ calls) :
    Leads (Kept calls bound n []) (emitExpr d e) (Kept calls bound n []) :=
  leads_of_follows (emitExpr_follows e fun _ hcall => admits (hcalls hcall)) fun _ h => h

end Kept

end ChipForge.Wiring
