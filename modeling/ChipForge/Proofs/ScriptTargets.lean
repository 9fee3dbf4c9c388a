import ChipForge.Proofs.ForwardReferences
import ChipForge.Proofs.WireTargets

/-! Statements add to the wires of expressions only those of an input that is assigned to a name already bound: it is
fed into the two ports of the variable that the name stands for. -/
namespace ChipForge.Wiring
open Script List

mutual

/-- How many inputs a statement assigns to names bound before. -/
def refeeds (bound : List String) : Stmt→Nat
  | .assign _ [.name name] value => if isInputCall value && bound.contains name then 1 else 0
  | .ifElse _ _ body orelse => refeedsAll bound body+refeedsAll (bound++bindsOfAll body) orelse
  | .block _ _ body => refeedsAll bound body
  | _ => 0

def refeedsAll (bound : List String) : List Stmt→Nat
  | [] => 0
  | stmt::rest => refeeds bound stmt+refeedsAll (bound++bindsOf stmt) rest

end

/-- What is bound and how many inputs are fed once more after a statement. -/
def advance (i : List String×Nat) (stmt : Stmt) : List String×Nat := (i.1++bindsOf stmt,i.2+refeeds i.1 stmt)

theorem foldl_advance (stmts : List Stmt) (i : List String×Nat) :
    stmts.foldl advance i=(i.1++bindsOfAll stmts,i.2+refeedsAll i.1 stmts) := by
  induction stmts generalizing i with
  | nil => simp [bindsOfAll,refeedsAll]
  | cons stmt rest ih => rw [foldl_cons,ih,advance,bindsOfAll,refeedsAll,append_assoc,Nat.add_assoc]

section Statements
variable {calls : List Expr} {bound : List String} {n k : Nat}

theorem Kept.more {s : State} (h : Kept calls bound n [] s) (names : List String) (k : Nat) :
    Kept calls (bound++names) (n+k) [] s :=
  h.mono (subset_append_left _ _) (Nat.le_add_right _ _) (List.Subperm.refl _)

/-- What stays on the track where more names are bound and more is fed. -/
theorem Kept.leads_more {d : Dialect} {m : Compile Unit} {names : List String}
    (h : Passes (Kept.track calls (bound++names) (n+k) d) (fun c => Kept calls bound n [] c.1) m) :
    Leads (Kept calls bound n []) m (Kept calls (bound++names) (n+k) []) :=
  Kept.leads_of_follows h fun _ hs => hs.more names k

/-- An input is fed into the two ports of a variable, whatever they are wired to. -/
theorem feedVariable_leads (d : Dialect) (line : Nat) (name : String) (ref : Ref) (n : Nat) :
    Leads (Kept calls bound n []) (feedVariable d line name ref) (Kept calls bound (n+1) []) := by
  refine Leads.get fun s hs => ?_
  have hmore : Kept calls bound (n+1) [] s := hs.mono (List.Subset.refl _) (Nat.le_succ n) (List.Subperm.refl _)
  cases s.nodeOf.find name with
  | none => exact hmore
  | some id =>
    dsimp only
    split_ifs with hvariable
    · obtain ⟨node,hnode,htype⟩ := (Option.any_eq_true _ _).1 hvariable
      have hmem : node∈s.graph.nodes := mem_reverse.1 (mem_of_find?_eq_some hnode)
      have hid : node.id=id := by simpa using find?_some hnode
      have hfed := (hs.feed ⟨node,hmem,hid,by simpa using htype⟩).connect ref (some line)
      obtain ⟨x,t,hon,ht⟩ := hfed.constant d (.float 1.0) none
      have hset := ht.connect (.node x "Output") (some line)
      rw [outcome_modify_bind,alwaysOn,bind_assoc,outcome_bind_ok hon]
      exact hset.congr rfl rfl rfl hset.names
    · exact hmore

theorem assignInput_leads (d : Dialect) (line : Nat) {name : String} {call : Expr} (fn : Expr) (keywords : List Keyword)
    (hcalls : call.calls ⊆ calls) (n : Nat) (hk : name∈bound→1 ≤ k) :
    Leads (Kept calls bound n []) (assignCall d line name call fn keywords) (Kept calls (bound++[name]) (n+k) []) := by
  have hmore : ∀ s, Kept calls bound n [] s→Kept calls (bound++[name]) (n+k) [] s := fun s hs => hs.more [name] k
  refine Leads.bind (Kept.emitExpr_leads d hcalls) (fun ref => ?_) hmore
  refine Leads.bind (Leads.reads (typeIfAny_reads d call)) (fun t => ?_) hmore
  cases ref with
  | name id port => exact hmore
  | node id port =>
    refine Leads.get fun s hs => ?_
    by_cases hfeed : (isInputCall call && s.nodeOf.has name)=true
    · rw [if_pos hfeed]
      have hone : 1 ≤ k := hk (hs.names name (Bool.and_eq_true_iff.1 hfeed).2)
      exact (feedVariable_leads d line name _ n s hs).mono (subset_append_left _ _) (Nat.add_le_add_left hone n)
        (List.Subperm.refl _)
    · rw [if_neg hfeed]
      have hname : name∈bound++[name] := mem_append_right _ (mem_singleton.2 rfl)
      exact Kept.leads_more ((bindCalled_passes (Kept.statements calls _ _ d) hname fn keywords id t).pre
        fun _ _ => trivial) s hs

theorem compileAssign_leads (d : Dialect) (line : Nat) (targets : List Expr) {value : Expr} (hcalls : value.calls ⊆ calls)
    (n : Nat) : Leads (Kept calls bound n []) (compileAssign d line targets value)
      (Kept calls (bound++bindsOf (.assign line targets value)) (n+refeeds bound (.assign line targets value)) []) := by
  refine Kept.leads_of_follows (compileAssign_passes (Kept.statements calls _ _ d) line targets
    (fun name hname => ?_) (fun call hcall => Kept.admits (hcalls hcall)) ?_) fun s hs => hs.more _ _
  · subst hname
    exact mem_append_right _ (mem_singleton.2 rfl)
  · rintro hinput name place fn args keywords rfl rfl
    refine Kept.passes_of_leads (assignInput_leads d line fn keywords hcalls n fun hname => ?_)
    simp [refeeds,hinput,hname]

/-- Statements bind names and feed inputs once more as they are written. -/
theorem Kept.walk (calls : List Expr) (d : Dialect) : Walk d advance (fun _ => True) (·∈calls)
    fun i m j => Leads (Kept calls i.1 i.2 []) m (Kept calls j.1 j.2 []) where
  block i line kind body := by rw [foldl_advance,advance,bindsOf,refeeds]
  branches i line test body orelse := by
    rw [foldl_append,foldl_advance,foldl_advance,advance,bindsOf,refeeds,append_assoc,Nat.add_assoc]
  reads i stmts m hm s hs := by
    rw [foldl_advance,hm s]
    exact hs.more _ _
  bind {i j m f} stmts hm hf := by
    refine Leads.bind hm (fun _ => hf) fun s hs => ?_
    rw [foldl_advance]
    exact hs.more _ _
  guard i _ _ s hs := hs.congr rfl rfl rfl hs.names
  assign i line targets value _ hcalls := compileAssign_leads d line targets hcalls i.2
  declare i line target typeNote value _ hcalls := by
    refine Kept.leads_more (compileDeclare_passes (Kept.statements ..) line target typeNote ?_ fun e he call hcall =>
      Kept.admits (hcalls e he call hcall))
    rintro name rfl
    rw [bindsOf]
    exact mem_append_right _ (mem_singleton.2 rfl)
  expr i line value hcalls :=
    Kept.leads_more (compileExprStmt_passes (Kept.statements ..) fun call hcall => Kept.admits (hcalls call hcall))
  choose i line test body orelse _ htest hcalls := by
    rw [forall_mem_append] at hcalls
    refine Kept.leads_more (compileIf_passes (Kept.statements ..) line (fun name hname => ?_)
      (fun call hcall => Kept.admits (htest call hcall)) (fun call hcall => Kept.admits (hcalls.1 call hcall))
      fun call hcall => Kept.admits (hcalls.2 call hcall))
    rw [bindsOf]
    exact mem_append_right _ hname

/-- Compiling a script leaves its wires on the ports its nodes were made with, apart from the inputs it assigns to names
bound before. -/
theorem compileScript_leads (d : Dialect) (stmts : List Stmt) :
    Leads (Kept (callsOfStmts stmts) [] 0 []) (compileScript d stmts)
      (Kept (callsOfStmts stmts) (bindsOfAll (compiledOrder stmts)) (refeedsAll [] (compiledOrder stmts)) []) := by
  have hgoes := (Kept.walk (callsOfStmts stmts) d).goes_script ([],0) (fun _ _ => trivial) fun _ h => h
  rwa [foldl_advance,nil_append,Nat.zero_add] at hgoes

end Statements

/-- The nodes of a graph with the ports they were made to be wired on, and the variables that inputs were fed into once
more. Every wire has a port of these to itself. -/
structure Graph.Allotted (g : Graph) (stmts : List Stmt) (sites : List Site) (fed : List String) : Prop where
  nodes : sites.map (fun site => (site.id,site.type))=g.nodes.map fun node => (node.id,node.type)
  wirable : ∀ site∈sites, Wirable (callsOfStmts stmts) site.type site.ports
  fedTypes : ∀ id∈fed, ∃ site∈sites, site.id=id ∧ Text.lower site.type = "variable"
  fedLength : fed.length ≤ refeedsAll [] (compiledOrder stmts)
  targets : (g.edges.map fun e => (e.toNode,e.toPort)).Subperm (sites.flatMap Site.targets++fed.flatMap feedTargets)

theorem graphOf_allotted {d : Dialect} {stmts : List Stmt} {g : Graph} (hg : graphOf d stmts=.ok g) :
    ∃ sites fed, g.Allotted stmts sites fed := by
  have hrun := outcome_compileScript_of_graphOf hg
  have hkept := compileScript_leads d stmts State.initial Kept.initial
  generalize (outcome (compileScript d stmts) State.initial).2=s at hrun hkept
  obtain ⟨sites,fed,hfed,hnodes,hwirable,hfedTypes,htargets⟩ := hkept.allots
  obtain ⟨hpending,rfl⟩ := (graphOf_eq_ok_iff hrun).1 hg
  obtain ⟨hedges,-,hlisted⟩ := (s.addEdges (s.pending.filterMap s.lateWire?)).listed_spec
  have hgraph := s.addEdges_graph (s.pending.filterMap s.lateWire?)
  have hlate : (s.pending.filterMap s.lateWire?).map (fun e => (e.toNode,e.toPort)) =
      s.pending.map fun p => (p.toNode,p.toPort) := by
    generalize s.pending=waiting at hpending
    induction waiting with
    | nil => rfl
    | cons p rest ih =>
      obtain ⟨wire,hwire⟩ := Option.isSome_iff_exists.1 (hpending p mem_cons_self)
      obtain ⟨id,-,hid⟩ := Option.map_eq_some_iff.1 hwire
      rw [filterMap_cons_some hwire,map_cons,map_cons,← hid,
        ih fun q hq => hpending q (mem_cons_of_mem _ hq)]
  refine ⟨sites,fed,?_,hwirable,hfedTypes,hfed,?_⟩
  · rw [hnodes,hlisted fun _ _ => rfl,hgraph]
  · rw [hedges,hgraph,map_append,hlate]
    rwa [append_nil] at htargets

end ChipForge.Wiring
