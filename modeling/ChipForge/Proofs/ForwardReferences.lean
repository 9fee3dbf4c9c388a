import ChipForge.Proofs.NodeIds

/-! A wire from a name that stands for nothing yet waits until the whole script is read, and is then drawn from the node
of that name. Reading the name instead would follow a name for a port first. -/
namespace ChipForge.Wiring
open Script List

variable {s : State} {waiting : List Pending} {p : Pending}

namespace State

def lateWire? (s : State) (p : Pending) : Option Edge :=
  (s.nodeOf.find p.name).map fun id => ⟨id,p.port,p.toNode,p.toPort,p.line⟩

def readWire? (s : State) (p : Pending) : Option Edge :=
  match s.refOfName p.name with
  | .node id port => some ⟨id,port,p.toNode,p.toPort,p.line⟩
  | .name _ _ => none

def addEdges (s : State) (wires : List Edge) : State := wires.foldl addEdge s

@[simp] theorem addEdges_nil (s : State) : s.addEdges []=s := rfl

@[simp] theorem addEdges_cons (s : State) (e : Edge) (wires : List Edge) :
    s.addEdges (e::wires)=(s.addEdge e).addEdges wires := rfl

theorem addEdges_graph (s : State) (wires : List Edge) :
    (s.addEdges wires).graph={ s.graph with edges := s.graph.edges++wires } := by
  induction wires generalizing s with
  | nil => simp
  | cons e rest ih =>
    rw [addEdges_cons,ih]
    simp [addEdge,seeOutput,Graph.addEdge]

def listed (s : State) : Graph :=
  s.outputs.toList.foldl (fun g (id,ports) => g.updateLast id fun n => { n with outputs := sortedPorts ports }) s.graph

theorem listed_spec (s : State) : s.listed.edges=s.graph.edges ∧ s.listed.definitions=s.graph.definitions ∧
    ∀ {γ : Type} {k : Node→γ}, (∀ n ports, k { n with outputs := ports }=k n) →
      s.listed.nodes.map k=s.graph.nodes.map k := by
  have hfold : ∀ (entries : List (String×List String)) (g : Graph),
      let listed := entries.foldl (fun g (id,ports) => g.updateLast id fun n => { n with outputs := sortedPorts ports }) g
      listed.edges=g.edges ∧ listed.definitions=g.definitions ∧
        ∀ {γ : Type} {k : Node→γ}, (∀ n ports, k { n with outputs := ports }=k n) →
          listed.nodes.map k=g.nodes.map k := by
    intro entries
    induction entries with
    | nil => exact fun g => ⟨rfl,rfl,fun _ => rfl⟩
    | cons entry rest ih =>
      intro g
      obtain ⟨hedges,hdefinitions,hnodes⟩ := ih (g.updateLast entry.1 fun n => { n with outputs := sortedPorts entry.2 })
      refine ⟨hedges,hdefinitions,fun {γ k} hk => (hnodes hk).trans ?_⟩
      exact Graph.map_updateLast (fun n => hk n _) g entry.1
  exact hfold s.outputs.toList s.graph

end State

theorem outcome_resolveEach_ok (h : ∀ p∈waiting, (s.lateWire? p).isSome) :
    outcome (resolveEach waiting) s=(.ok (),s.addEdges (waiting.filterMap s.lateWire?)) := by
  induction waiting generalizing s with
  | nil => rfl
  | cons p rest ih =>
    rw [resolveEach,outcome_get_bind]
    obtain ⟨id,hid⟩ : ∃ id, s.nodeOf.find p.name=some id := by
      simpa [State.lateWire?,Option.isSome_iff_exists] using h p mem_cons_self
    have hp : s.lateWire? p=some ⟨id,p.port,p.toNode,p.toPort,p.line⟩ := by
      rw [State.lateWire?,hid]
      rfl
    rw [hid,filterMap_cons_some hp]
    dsimp only
    rw [outcome_modify_bind]
    exact ih fun q hq => h q (mem_cons_of_mem _ hq)

theorem outcome_resolveEach_error (h : waiting.find? (fun p => (s.lateWire? p).isNone)=some p) :
    (outcome (resolveEach waiting) s).1=.error (.undefinedName p.name p.toNode p.toPort p.line) := by
  induction waiting generalizing s with
  | nil => cases h
  | cons q rest ih =>
    rw [resolveEach,outcome_get_bind]
    rw [find?_cons] at h
    cases hid : s.nodeOf.find q.name with
    | none =>
      simp only [State.lateWire?,hid,Option.map_none,Option.isNone_none] at h
      cases h
      rfl
    | some id =>
      simp only [State.lateWire?,hid,Option.map_some,Option.isNone_some] at h
      dsimp only
      rw [outcome_modify_bind]
      exact ih h

theorem resolvePending_eq_ok_iff {t : State} :
    outcome resolvePending s=(.ok (),t) ↔ (∀ p∈s.pending, (s.lateWire? p).isSome) ∧
      { s.addEdges (s.pending.filterMap s.lateWire?) with pending := [] }=t := by
  rw [resolvePending,outcome_get_bind]
  by_cases hall : ∀ p∈s.pending, (s.lateWire? p).isSome
  · rw [outcome_bind_ok (outcome_resolveEach_ok hall),outcome_modify,Prod.mk.injEq]
    exact ⟨fun h => ⟨hall,h.2⟩,fun h => ⟨rfl,h.2⟩⟩
  · obtain ⟨p,hfind⟩ : ∃ p, s.pending.find? (fun p => (s.lateWire? p).isNone)=some p := by
      rw [← Option.isSome_iff_exists,find?_isSome]
      simpa using hall
    have herror := outcome_resolveEach_error hfind
    constructor
    · intro h
      obtain ⟨⟨⟩,u,heach,-⟩ := outcome_bind_eq_ok.1 h
      rw [heach] at herror
      cases herror
    · intro h
      exact absurd h.1 hall

section Script
variable {d : Dialect} {stmts : List Stmt} {s : State} {g : Graph}

/-- A script whose statements compile has a graph exactly if no waiting wire is without a source. -/
theorem graphOf_eq_ok_iff (hrun : outcome (compileScript d stmts) State.initial=(.ok (),s)) :
    graphOf d stmts=.ok g ↔
      (∀ p∈s.pending, (s.lateWire? p).isSome) ∧ (s.addEdges (s.pending.filterMap s.lateWire?)).listed=g := by
  have hfinish : ∀ last, outcome (compileProgram d stmts) State.initial=(.ok g,last) ↔
      ∃ t, outcome resolvePending s=(.ok (),t) ∧ outcome (do listOutputs; pure (← get).graph) t=(.ok g,last) := by
    intro last
    rw [compileProgram,outcome_bind_ok hrun,outcome_bind_eq_ok]
    exact ⟨fun ⟨⟨⟩,t,h⟩ => ⟨t,h⟩,fun ⟨t,h⟩ => ⟨(),t,h⟩⟩
  constructor
  · intro h
    obtain ⟨t,hresolve,hlist⟩ := (hfinish _).1 (Prod.ext h rfl)
    obtain ⟨hall,rfl⟩ := resolvePending_eq_ok_iff.1 hresolve
    exact ⟨hall,Except.ok.inj (congrArg Prod.fst hlist)⟩
  · rintro ⟨hall,rfl⟩
    exact congrArg Prod.fst ((hfinish _).2 ⟨_,resolvePending_eq_ok_iff.2 ⟨hall,rfl⟩,rfl⟩)

theorem outcome_compileScript_of_graphOf (h : graphOf d stmts=.ok g) :
    outcome (compileScript d stmts) State.initial=(.ok (),(outcome (compileScript d stmts) State.initial).2) := by
  have hprogram : outcome (compileProgram d stmts) State.initial=(.ok g,(outcome (compileProgram d stmts) State.initial).2) :=
    Prod.ext h rfl
  obtain ⟨⟨⟩,s,hrun,-⟩ := outcome_bind_eq_ok.1 hprogram
  rw [hrun]

theorem graphOf_of_pending_eq_nil (hrun : outcome (compileScript d stmts) State.initial=(.ok (),s))
    (hpending : s.pending=[]) : graphOf d stmts=.ok s.listed := by
  rw [graphOf_eq_ok_iff hrun,hpending]
  exact ⟨forall_mem_nil _,rfl⟩

/-- A script whose statements compile fails at the first waiting wire whose name stands for no node. -/
theorem graphOf_eq_error (hrun : outcome (compileScript d stmts) State.initial=(.ok (),s))
    (hfind : s.pending.find? (fun p => (s.lateWire? p).isNone)=some p) :
    graphOf d stmts=.error (.undefinedName p.name p.toNode p.toPort p.line) := by
  have herror := outcome_resolveEach_error hfind
  show (outcome (compileProgram d stmts) State.initial).1=_
  rw [compileProgram,outcome_bind_ok hrun,resolvePending,bind_assoc,outcome_get_bind,bind_assoc,
    outcome_bind]
  rcases hout : outcome (resolveEach s.pending) s with ⟨issue | ⟨⟩,t⟩ <;> rw [hout] at herror <;> cases herror
  rfl

end Script

/-- A waiting wire on the automatic port is drawn as its name reads, unless the name is one for a port that leads
elsewhere. -/
theorem lateWire?_eq_readWire?_iff (hport : p.port=autoPort) :
    s.lateWire? p=s.readWire? p ↔ ∀ up port, s.aliases.find p.name=some (up,port) →
      s.nodeOf.find up=s.nodeOf.find p.name ∧ (port=autoPort ∨ s.nodeOf.find up=none) := by
  unfold State.lateWire? State.readWire? State.refOfName
  cases halias : s.aliases.find p.name with
  | none => cases s.nodeOf.find p.name <;> simp [hport]
  | some target =>
    obtain ⟨up,port⟩ := target
    dsimp only
    cases hup : s.nodeOf.find up with
    | none =>
      cases s.nodeOf.find p.name with
      | none => simp [hup]
      | some id => simp [hup]
    | some id =>
      cases s.nodeOf.find p.name with
      | none => simp [hup]
      | some other => simp [hport,hup,eq_comm]

/-- A script whose statements compile has a graph exactly if every name that a wire waits for stands for a node in the
end; the wires that waited come last, each from that node. One that waited on the automatic port is drawn as its name
then reads exactly if the name is none for a port, or one for the automatic port of its own node, or nothing can be
drawn either way. -/
theorem forwardReference_agrees_iff {d : Dialect} {stmts : List Stmt} {s : State}
    (hrun : outcome (compileScript d stmts) State.initial = (.ok (), s)) :
    ((∃ g, graphOf d stmts = .ok g) ↔ ∀ p ∈ s.pending, (s.lateWire? p).isSome) ∧
      (∀ p, s.pending.find? (fun p => (s.lateWire? p).isNone) = some p →
        graphOf d stmts = .error (.undefinedName p.name p.toNode p.toPort p.line)) ∧
      (∀ g, graphOf d stmts = .ok g → g.edges = s.graph.edges ++ s.pending.filterMap s.lateWire?) ∧
      ∀ p ∈ s.pending, p.port = autoPort →
        (s.lateWire? p = s.readWire? p ↔ ∀ up port, s.aliases.find p.name = some (up, port) →
          s.nodeOf.find up = s.nodeOf.find p.name ∧ (port = autoPort ∨ s.nodeOf.find up = none)) := by
  refine ⟨⟨?_,fun hall => ⟨_,(graphOf_eq_ok_iff hrun).2 ⟨hall,rfl⟩⟩⟩,fun p hp => graphOf_eq_error hrun hp,
    fun g hg => ?_,fun p _ hport => lateWire?_eq_readWire?_iff hport⟩
  · rintro ⟨g,hg⟩
    exact ((graphOf_eq_ok_iff hrun).1 hg).1
  · obtain ⟨-,rfl⟩ := (graphOf_eq_ok_iff hrun).1 hg
    rw [(State.listed_spec _).1,State.addEdges_graph]

deriving instance DecidableEq for Pending

def lateScript : List Stmt :=
  let text (s : String) : Expr := .const (.str s false)
  [.expr 1 (.call 1 (.name "OUTPUT") [.name "x",text "X",text "Number"] []),
    .assign 2 [.name "x"] (.subscript (.call 2 (.name "Foo") [.const (.int 1)] []) (text "P"))]

private theorem run_lateScript : ∃ s, outcome (compileScript (.full []) lateScript) State.initial=(.ok (),s) ∧
    s.pending=[⟨"x",autoPort,"output_0","0",some 1⟩] ∧ s.nodeOf.find "x" = some "foo_0" ∧
    s.aliases.find "x" = some ("x","P") :=
  ⟨_,outcome_eq_ok (by decide +kernel),by decide +kernel,by decide +kernel,by decide +kernel⟩

/-- The wire that waited starts from the node of the call, but not from the port that the name stands for. -/
theorem forwardReference_lateScript : ∃ s g, outcome (compileScript (.full []) lateScript) State.initial = (.ok (), s) ∧
    s.pending = [⟨"x", autoPort, "output_0", "0", some 1⟩] ∧ s.refOfName "x" = .node "foo_0" "P" ∧
    graphOf (.full []) lateScript = .ok g ∧
    g.edges = s.graph.edges ++ [⟨"foo_0", autoPort, "output_0", "0", some 1⟩] ∧
    s.lateWire? ⟨"x", autoPort, "output_0", "0", some 1⟩ ≠ s.readWire? ⟨"x", autoPort, "output_0", "0", some 1⟩ := by
  obtain ⟨s,hrun,hpending,hnode,halias⟩ := run_lateScript
  obtain ⟨hok,-,hedges,hagree⟩ := forwardReference_agrees_iff hrun
  have hlate : s.lateWire? ⟨"x",autoPort,"output_0","0",some 1⟩ =
      some ⟨"foo_0",autoPort,"output_0","0",some 1⟩ := by
    rw [State.lateWire?,hnode]
    rfl
  obtain ⟨g,hg⟩ := hok.2 (by simp [hpending,hlate])
  refine ⟨s,g,hrun,hpending,?_,hg,?_,fun hsame => ?_⟩
  · rw [State.refOfName,halias]
    dsimp only
    rw [hnode]
  · rw [hedges g hg,hpending,filterMap_cons_some hlate,filterMap_nil]
  · have hport := ((hagree _ (by simp [hpending]) rfl).1 hsame "x" "P" halias).2
    rw [hnode] at hport
    exact absurd hport (by decide)

/-- Not every waiting wire is drawn as its name reads in the end. -/
theorem forwardReference_loses_port : ¬∀ (d : Dialect) (stmts : List Stmt) (s : State),
    outcome (compileScript d stmts) State.initial = (.ok (), s) →
    ∀ p ∈ s.pending, p.port = autoPort → s.lateWire? p = s.readWire? p := by
  intro hall
  obtain ⟨s,hrun,hpending,hnode,halias⟩ := run_lateScript
  have hsame := hall _ _ s hrun _ (hpending ▸ mem_singleton.2 rfl) rfl
  have hport := ((lateWire?_eq_readWire?_iff rfl).1 hsame "x" "P" halias).2
  rw [hnode] at hport
  exact absurd hport (by decide)

end ChipForge.Wiring
