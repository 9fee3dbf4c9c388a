import ChipForge.Proofs.Changes

/-! What single functions of the compiler add to any state, sound or not: nodes with open ports, constants, writes to
variables and choices. Wires lead only to the nodes that were made for them. -/
namespace ChipForge.Wiring
open Script List
open Relation (ReflTransGen)

namespace State

def placeOpen (s : State) (module : String) (ports : List String) : State :=
  (s.draw module (autoLabel module []) []).setInputs s.graph.nodes.length ports

theorem placeOpen_nodes (s : State) (module : String) (ports : List String) :
    (s.placeOpen module ports).graph.nodes =
      s.graph.nodes++[⟨(s.graph.nextId module).1,module,autoLabel module [],[],ports,[]⟩] := by
  show (s.graph.nodes++[_]).modify s.graph.nodes.length _ = _
  rw [modify_eq_take_cons_drop (by simp)]
  simp

def placeWith (s : State) (module : String) (ports : List String)
    (f : Attrs→Attrs) : State :=
  (s.placeOpen module ports).mapAttrs (s.graph.nextId module).1 f

theorem placeWith_nodes (s : State) (module : String) (ports : List String)
    (f : Attrs→Attrs) :
    (s.placeWith module ports f).graph.nodes =
      s.graph.nodes++[⟨(s.graph.nextId module).1,module,autoLabel module [],f [],ports,[]⟩] := by
  show ((s.placeOpen module ports).graph.updateLast _ _).nodes=_
  rw [Graph.updateLast_concat (s.placeOpen_nodes module ports) rfl]

@[simp] theorem connect_nodes (s : State) (ref : Ref) (id port : String) (line : Option Nat) :
    (s.connect ref id port line).graph.nodes=s.graph.nodes := by
  cases ref <;> rfl

@[simp] theorem connect_used (s : State) (ref : Ref) (id port : String) (line : Option Nat) :
    (s.connect ref id port line).graph.used=s.graph.used := by
  cases ref <;> rfl

@[simp] theorem connect_nodeOf (s : State) (ref : Ref) (id port : String) (line : Option Nat) :
    (s.connect ref id port line).nodeOf=s.nodeOf := by
  cases ref <;> rfl

def writes (s : State) (name : String) : Bool := s.declares name && s.guarded && s.inGuard

end State

theorem outcome_connectPorts_open (id : String) (line : Option Nat) (ports : List String) (s : State) :
    outcome (connectPorts id line (ports.map fun port => (port,Operand.open))) s=(.ok (),s) := by
  induction ports with
  | nil => rfl
  | cons port rest ih =>
    rw [map_cons,connectPorts_cons,if_pos (by decide)]
    exact ih

theorem outcome_emitOpen {d : Dialect} {module : String} {ports : List String}
    (hplain : PlainPorts module (ports.map fun port => (port,Operand.open))) (s : State) :
    outcome (emitOpen d module ports) s=(.ok (s.graph.nextId module).1,s.placeOpen module ports) := by
  have hports : (ports.map fun port => (port,Operand.open)).map (·.1)=ports := by
    rw [map_map]
    exact map_id ports
  let plan : CallPlan := ⟨[],none,none,ports.map fun port => (port,Operand.open),none⟩
  have hplace : s.place module plan (s.attrsOf d (Text.lower module) plan) =
      ((s.graph.nextId module).1,s.draw module (autoLabel module []) []) := by
    have hattrs : s.attrsOf d (Text.lower module) plan=[] := rfl
    have hchosen : chooseId s.graph module plan.id=s.graph.nextId module := rfl
    rw [State.place,hattrs,hchosen,State.draw]
    simp only [plan,Option.getD_none]
  rw [emitOpen,emitModule,outcome_emitCall (planCall_plain hplain),hplace,
    outcome_bind_ok (outcome_connectPorts_open _ _ _ _),outcome_modify_bind,outcome_pure,hports]
  rfl

theorem outcome_emitVariable (d : Dialect) (name : String) (s : State) :
    ∃ f, outcome (emitVariable d name) s =
      (.ok (s.graph.nextId "VARIABLE").1,s.placeWith "VARIABLE" ["Value","Set"] f) := by
  have hplain : PlainPorts "VARIABLE" (["Value","Set"].map fun port => (port,Operand.open)) := ⟨by decide,by decide⟩
  refine ⟨fun attrs => if (attr? attrs "dsl_name").isSome then attrs else setAttr attrs "dsl_name" (.str name),?_⟩
  rw [emitVariable,outcome_bind_ok (outcome_emitOpen hplain s),outcome_modify_bind,outcome_pure]
  rfl

/-- A later state with the same variables to write to. -/
structure Later (u v : State) : Prop where
  nodes : u.graph.nodes <+: v.graph.nodes
  used : u.graph.used ⊆ v.graph.used
  writes : ∀ name, v.writes name=u.writes name

/-- A later state in which wires were drawn to new nodes only. -/
structure Adds (u v : State) : Prop extends Later u v where
  feeds : ∀ id, id∈u.graph.used ∨ id∉v.graph.used → v.feeds id=u.feeds id
  aliases : v.aliases=u.aliases

section Added
variable {u v w : State} {test yes no : Ref} {id : String}

theorem Later.refl (u : State) : Later u u := ⟨prefix_rfl,List.Subset.refl _,fun _ => rfl⟩

theorem Later.trans (huv : Later u v) (hvw : Later v w) : Later u w where
  nodes := huv.nodes.trans hvw.nodes
  used := List.Subset.trans huv.used hvw.used
  writes name := (hvw.writes name).trans (huv.writes name)

theorem Later.of_graph (h : Later u v) (hgraph : w.graph=v.graph) (hguarded : w.guarded=v.guarded)
    (hinGuard : w.inGuard=v.inGuard) : Later u w where
  nodes := hgraph ▸ h.nodes
  used := hgraph ▸ h.used
  writes name := by
    rw [← h.writes name,State.writes,State.writes,State.declares,State.declares,hgraph,hguarded,hinGuard]

theorem Extends.later (h : Extends u.graph.nodes.length u v) : Later u v where
  nodes := by
    have htake := h.nodes (Nat.le_refl _)
    rw [take_length] at htake
    exact htake ▸ take_prefix _ _
  used := h.used
  writes name := by
    rw [State.writes,State.writes,State.declares,State.declares,h.definitions,h.guarded,h.inGuard]

theorem Extends.of_steps {asked : String→Prop} {n : Nat} (h : ReflTransGen (Step asked n) u v) : Extends n u v := by
  induction h with
  | refl => exact .refl n u
  | tail _ hstep ih => exact ih.trans hstep.extends

/-- From any state, the course of an expression consists of steps that only add to it. -/
def Step.course (n : Nat) : Course (fun _ => True) n where
  Later := ReflTransGen (Step (fun _ => True) n)
  Holds s := n ≤ s.graph.nodes.length
  Here s x := ∀ port, s.Knows (.node x port)
  refl _ := .refl
  trans h h' := h.trans h'
  step h := .single h
  holds h hs := Nat.le_trans hs h.extends.length_le
  here_later h hx port := (Extends.of_steps h).knows (hx port)
  here h := State.knows_of_mem h
  named _ h _ := .inr ⟨_,h⟩
  knows h := h
  length h := h
  sound _ hnone := absurd trivial (hnone "")

theorem emitExpr_steps (d : Dialect) (e : Expr) (s : State) :
    ReflTransGen (Step (fun _ => True) s.graph.nodes.length) s (outcome (emitExpr d e) s).2 :=
  (Step.course s.graph.nodes.length).emitExpr_later d (fun _ _ => trivial) (Nat.le_refl _)

theorem emitExpr_extends (d : Dialect) (e : Expr) (s : State) :
    Extends s.graph.nodes.length s (outcome (emitExpr d e) s).2 :=
  .of_steps (emitExpr_steps d e s)

namespace Adds

variable {id : String} {d : Dialect}

theorem refl (u : State) : Adds u u := ⟨Later.refl u,fun _ _ => rfl,rfl⟩

theorem trans (huv : Adds u v) (hvw : Adds v w) : Adds u w where
  toLater := huv.toLater.trans hvw.toLater
  feeds id hid := by
    rcases hid with hold | hfree
    · exact (hvw.feeds id (.inl (huv.used hold))).trans (huv.feeds id (.inl hold))
    · exact (hvw.feeds id (.inr hfree)).trans (huv.feeds id (.inr fun hv => hfree (hvw.used hv)))
  aliases := hvw.aliases.trans huv.aliases

theorem of_graph (h : Adds u v) (hgraph : w.graph=v.graph) (hpending : w.pending=v.pending)
    (haliases : w.aliases=v.aliases) (hguarded : w.guarded=v.guarded) (hinGuard : w.inGuard=v.inGuard) :
    Adds u w where
  toLater := h.toLater.of_graph hgraph hguarded hinGuard
  feeds id hid := by
    rw [hgraph] at hid
    exact (State.feeds_congr (by rw [hgraph]) hpending id).trans (h.feeds id hid)
  aliases := haliases.trans h.aliases

theorem draw (u : State) (module label : String) (attrs : Attrs) :
    Adds u (u.draw module label attrs) where
  nodes := prefix_append _ _
  used := subset_cons_self _ _
  writes _ := rfl
  feeds _ _ := rfl
  aliases := rfl

theorem placeWith (u : State) (module : String) (ports : List String)
    (f : Attrs→Attrs) : Adds u (u.placeWith module ports f) where
  nodes := u.placeWith_nodes module ports f ▸ prefix_append _ _
  used := subset_cons_self _ _
  writes _ := rfl
  feeds _ _ := rfl
  aliases := rfl

theorem connect (h : Adds u v) (ref : Ref) (port : String) (line : Option Nat) (hnew : id∉u.graph.used)
    (hid : id∈v.graph.used) : Adds u (v.connect ref id port line) := by
  have hfeeds : ∀ x, x∈u.graph.used ∨ x∉v.graph.used→(v.connect ref id port line).feeds x=u.feeds x := by
    intro x hx
    have hne : id≠x := by
      rintro rfl
      exact hx.elim hnew fun hfree => hfree hid
    rw [State.feeds_connect_of_ne hne,h.feeds x hx]
  cases ref <;> exact ⟨⟨h.nodes,h.used,h.writes⟩,hfeeds,h.aliases⟩

theorem constant {value : Literal} {t : Option GateType} (h : outcome (emitConstant d value t) u=(.ok id,v)) :
    Adds u v ∧ v.nodeOf=u.nodeOf := by
  have hdraw := draw u "Constant" (autoLabel "Constant" (State.constantAttrs value t)) (State.constantAttrs value t)
  rcases outcome_emitConstant d value t u with ⟨-,found,-,-,hrun⟩ | ⟨-,-,hrun⟩ | ⟨-,hrun⟩ <;>
    obtain ⟨-,rfl⟩ := Prod.mk.inj (hrun.symm.trans h)
  · exact ⟨refl u,rfl⟩
  · cases t <;> exact ⟨hdraw.of_graph rfl rfl rfl rfl rfl,rfl⟩
  · cases t <;> exact ⟨hdraw.of_graph rfl rfl rfl rfl rfl,rfl⟩

theorem write {name : String} {value : Ref} {line : Nat} (h : outcome (emitWriteRef d name value line) u=(.ok (),v)) :
    Adds u v ∧ v.nodeOf=u.nodeOf := by
  obtain ⟨⟨⟩,s,hcheck,h⟩ := outcome_bind_eq_ok.1 h
  obtain rfl : u=s := ((checkWritable_reads name (some line)).eq hcheck).symm
  obtain ⟨f,hvariable⟩ := outcome_emitVariable d name u
  have hnew := u.graph.nextId_notMem_used "VARIABLE"
  have hwired := (placeWith u "VARIABLE" ["Value","Set"] f).connect value "Value" (some line) hnew mem_cons_self
  rw [outcome_bind_ok hvariable,outcome_modify_bind] at h
  obtain ⟨trigger,s,hon,h⟩ := outcome_bind_eq_ok.1 h
  obtain ⟨id,s',hconstant,hon⟩ := outcome_bind_eq_ok.1 hon
  obtain ⟨-,rfl⟩ := Prod.mk.inj hon
  obtain ⟨-,rfl⟩ := Prod.mk.inj h
  obtain ⟨hadds,hnodeOf⟩ := constant hconstant
  have hid : (u.graph.nextId "VARIABLE").1∈s'.graph.used := by
    refine hadds.used ?_
    rw [State.connect_used]
    exact mem_cons_self
  refine ⟨((hwired.trans hadds).connect trigger "Set" (some line) hnew hid).of_graph rfl rfl rfl rfl rfl,?_⟩
  calc ((s'.connect trigger (u.graph.nextId "VARIABLE").1 "Set" (some line)).markWritten name).nodeOf
      = s'.nodeOf := s'.connect_nodeOf trigger _ _ _
    _ = u.nodeOf := by
      rw [hnodeOf,State.connect_nodeOf]
      rfl

end Adds

theorem State.feeds_connect_perm (s : State) (ref : Ref) (id port : String) (line : Option Nat) :
    ((s.connect ref id port line).feeds id).Perm (s.feeds id++[(port,ref)]) := by
  cases ref with
  | node source out =>
    rw [State.feeds,State.drawnInto_connect_node,if_pos rfl,State.feeds,append_assoc,append_assoc]
    exact perm_append_comm.append_left _
  | name source out =>
    rw [State.feeds,State.waitingInto_connect_name,if_pos rfl,State.feeds,append_assoc]
    rfl

def State.placeChoice (s : State) (test yes no : Ref) (t : GateType) (line : Option Nat) : State :=
  let id := (s.graph.nextId "Branch").1
  let placed := (s.placeWith "Branch" ["If","A","B"] fun attrs => setAttr attrs "data_type" (.str t.name)).setNodeType id t
  ((placed.connect test id "If" line).connect yes id "A" line).connect no id "B" line

theorem outcome_emitChoice (d : Dialect) (test yes no : Ref) (t : GateType) (line : Option Nat) (s : State) :
    outcome (emitChoice d test yes no t line) s =
      (.ok (s.graph.nextId "Branch").1,s.placeChoice test yes no t line) := by
  have hplain : PlainPorts "Branch" (["If","A","B"].map fun port => (port,Operand.open)) := ⟨by decide,by decide⟩
  rw [emitChoice,outcome_bind_ok (outcome_emitOpen hplain s),outcome_modify_bind,
    outcome_modify_bind,outcome_pure]
  rfl

/-- A node that was made after `u` to choose between two values. In `v` it is fed by the test and by the values. -/
structure Chosen (u v : State) (test yes no : Ref) (id : String) : Prop where
  new : id∉u.graph.used
  used : id∈v.graph.used
  node : ∃ node∈v.graph.nodes.drop u.graph.nodes.length, node.id=id ∧ node.type = "Branch"
  feeds : (v.feeds id).Perm (u.feeds id++[("If",test),("A",yes),("B",no)])

theorem Chosen.later (h : Chosen u v test yes no id) (hvw : Adds v w) :
    Chosen u w test yes no id where
  new := h.new
  used := hvw.used h.used
  node := by
    obtain ⟨node,hnode,hkind⟩ := h.node
    obtain ⟨more,hmore⟩ := hvw.nodes
    refine ⟨node,?_,hkind⟩
    rw [← hmore,drop_append]
    exact mem_append_left _ hnode
  feeds := hvw.feeds id (.inl h.used) ▸ h.feeds

theorem Chosen.earlier (huv : Adds u v) (h : Chosen v w test yes no id) :
    Chosen u w test yes no id where
  new hid := h.new (huv.used hid)
  used := h.used
  node := by
    obtain ⟨node,hnode,hkind⟩ := h.node
    exact ⟨node,drop_subset_drop_left _ huv.nodes.length_le hnode,hkind⟩
  feeds := huv.feeds id (.inr h.new) ▸ h.feeds

theorem State.placeChoice_spec (s : State) (test yes no : Ref) (t : GateType) (line : Option Nat) :
    Adds s (s.placeChoice test yes no t line) ∧ (s.placeChoice test yes no t line).nodeOf=s.nodeOf ∧
      Chosen s (s.placeChoice test yes no t line) test yes no (s.graph.nextId "Branch").1 := by
  let id := (s.graph.nextId "Branch").1
  let placed := (s.placeWith "Branch" ["If","A","B"] fun attrs => setAttr attrs "data_type" (.str t.name)).setNodeType id t
  have hnew : id∉s.graph.used := s.graph.nextId_notMem_used "Branch"
  have hused : id∈placed.graph.used := mem_cons_self
  have hplaced : Adds s placed := (Adds.placeWith s _ _ _).of_graph rfl rfl rfl rfl rfl
  have hwired : Adds s (((placed.connect test id "If" line).connect yes id "A" line).connect no id "B" line) :=
    ((hplaced.connect test "If" line hnew hused).connect yes "A" line hnew (by simpa using hused)).connect no "B" line hnew
      (by simpa using hused)
  refine ⟨hwired,by simp [State.placeChoice]; rfl,hnew,by simpa [State.placeChoice] using hused,?_,?_⟩
  · have hnodes : (s.placeChoice test yes no t line).graph.nodes=placed.graph.nodes := by
      simp [State.placeChoice,placed,id]
    rw [hnodes,show placed.graph.nodes=_ from s.placeWith_nodes _ _ _,drop_left]
    exact ⟨_,mem_singleton.2 rfl,rfl,rfl⟩
  · have hif := placed.feeds_connect_perm test id "If" line
    have hyes := (placed.connect test id "If" line).feeds_connect_perm yes id "A" line
    have hno := ((placed.connect test id "If" line).connect yes id "A" line).feeds_connect_perm no id "B" line
    have hall := hno.trans ((hyes.trans (hif.append_right _)).append_right _)
    rw [append_assoc,append_assoc] at hall
    exact hall

end Added

end ChipForge.Wiring
