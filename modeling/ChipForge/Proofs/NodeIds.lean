import ChipForge.Proofs.Changes

/-! A numbered id is remembered and never handed out again. An id that the script asked for may be, and only then do two
nodes have one id. -/
namespace ChipForge.Wiring
open Script Relation List

/-- Where the id of a node comes from. -/
inductive Grant
  | number (id : String)
  | asked (id : String)

namespace Grant

def id : Grant→String
  | number x => x
  | asked x => x

def number? : Grant→Option String
  | number x => some x
  | asked _ => none

end Grant

/-- Ids handed out one after the other, none of them a number that was handed out before. -/
inductive Granted (asked : String→Prop) : List Grant→Prop
  | nil : Granted asked []
  | number {grants : List Grant} {x : String} (h : Granted asked grants) (hx : x∉grants.filterMap Grant.number?) :
    Granted asked (grants++[.number x])
  | asked {grants : List Grant} {x : String} (h : Granted asked grants) (hasked : asked x)
    (hx : x∉grants.filterMap Grant.number?) : Granted asked (grants++[.asked x])

namespace Granted

variable {asked : String→Prop} {grants : List Grant}

theorem asked_of_mem (h : Granted asked grants) {x : String} (hx : .asked x∈grants) : asked x := by
  induction h with
  | nil => cases hx
  | number _ _ ih =>
    rcases mem_append.1 hx with hx | hx
    · exact ih hx
    · cases mem_singleton.1 hx
  | asked _ hasked _ ih =>
    rcases mem_append.1 hx with hx | hx
    · exact ih hx
    · cases mem_singleton.1 hx
      exact hasked

/-- A numbered id is never handed out again. -/
theorem number_ne_later (h : Granted asked grants) :
    grants.Pairwise fun first second => ∀ x, first=.number x → x≠second.id := by
  have hlast : ∀ {grants : List Grant} {last : Grant}, last.id∉grants.filterMap Grant.number? →
      (grants.Pairwise fun first second => ∀ x, first=.number x → x≠second.id) →
      (grants++[last]).Pairwise fun first second => ∀ x, first=.number x → x≠second.id := by
    intro grants last hnew hgrants
    refine pairwise_append.2 ⟨hgrants,pairwise_singleton _ _,?_⟩
    rintro first hfirst second hsecond x rfl rfl
    rw [mem_singleton.1 hsecond] at hfirst
    exact hnew (mem_filterMap.2 ⟨_,hfirst,rfl⟩)
  induction h with
  | nil => exact Pairwise.nil
  | number _ hx ih => exact hlast hx ih
  | asked _ _ hx ih => exact hlast hx ih

/-- All ids are distinct exactly if none that was asked for is handed out again. -/
theorem nodup_iff (h : Granted asked grants) : (grants.map Grant.id).Nodup ↔
    grants.Pairwise fun first second => ∀ x, first=.asked x → x≠second.id := by
  rw [Nodup,pairwise_map]
  constructor
  · intro hnodup
    refine hnodup.imp ?_
    rintro first second hne x rfl
    exact hne
  · intro hasked
    refine (h.number_ne_later.and hasked).imp ?_
    rintro (x | x) second ⟨hnumber,hasked⟩
    · exact hnumber x rfl
    · exact hasked x rfl

end Granted

/-- The nodes have the ids that were handed out, and the numbers among these are remembered. -/
def State.Grants (s : State) (grants : List Grant) : Prop :=
  grants.map Grant.id=s.graph.ids ∧ grants.filterMap Grant.number?=s.graph.used.reverse

section Grants
variable {asked : String→Prop} {s t : State} {grants : List Grant}

private theorem grants_number {x : String} (h : s.Grants grants) (hids : t.graph.ids=s.graph.ids++[x])
    (hused : t.graph.used=x::s.graph.used) : t.Grants (grants++[.number x]) := by
  refine ⟨?_,?_⟩
  · rw [map_append,h.1,hids]
    rfl
  · rw [filterMap_append,h.2,hused,reverse_cons]
    rfl

private theorem mem_used_iff (h : s.Grants grants) (x : String) :
    x∈grants.filterMap Grant.number? ↔ x∈s.graph.used := by
  rw [h.2,mem_reverse]

theorem Step.granted {n : Nat} (hstep : Step asked n s t) (hgranted : Granted asked grants) (h : s.Grants grants) :
    ∃ later, Granted asked later ∧ t.Grants later := by
  have hfresh : ∀ module, (s.graph.nextId module).1∉grants.filterMap Grant.number? :=
    fun module hx => s.graph.nextId_notMem_used module ((mem_used_iff h _).1 hx)
  cases hstep with
  | draw module label attrs =>
    exact ⟨_,hgranted.number (hfresh module),grants_number h (Graph.ids_addNode _ _) rfl⟩
  | hold v u =>
    refine ⟨_,hgranted.number (hfresh "Constant"),grants_number h ?_ ?_⟩
    · rw [s.hold_graph]
      exact Graph.ids_addNode _ _
    · rw [s.hold_graph]
      rfl
  | grant x module label attrs hasked hfree =>
    refine ⟨_,hgranted.asked hasked fun hx => hfree ((mem_used_iff h x).1 hx),?_,?_⟩
    · rw [map_append,h.1]
      exact (Graph.ids_addNode s.graph ⟨x,module,label,attrs,[],[]⟩).symm
    · rw [filterMap_append,h.2]
      exact append_nil _
  | wire ref x port line href hx =>
    refine ⟨grants,hgranted,?_⟩
    cases ref <;> exact h
  | inputs place ports hplace => exact ⟨grants,hgranted,(s.setInputs_ids place ports).symm ▸ h.1,h.2⟩
  | attrs x f hx hf => exact ⟨grants,hgranted,(s.mapAttrs_ids x f).symm ▸ h.1,h.2⟩
  | nodeType x u hx => exact ⟨grants,hgranted,h⟩
  | written name => exact ⟨grants,hgranted,h⟩

theorem Changes.granted (hchanges : ReflTransGen (Change asked) s t) (hgranted : Granted asked grants)
    (h : s.Grants grants) : ∃ later, Granted asked later ∧ t.Grants later := by
  induction hchanges with
  | refl => exact ⟨grants,hgranted,h⟩
  | tail _ hchange ih =>
    obtain ⟨later,hlater,hs⟩ := ih
    cases hchange with
    | step hstep => exact hstep.granted hlater hs
    | scope scope hscope => exact ⟨later,hlater,hs⟩
    | define v => exact ⟨later,hlater,hs⟩
    | guard guarded inGuard => exact ⟨later,hlater,hs⟩

end Grants

theorem resolveEach_graph (waiting : List Pending) (s : State) :
    (outcome (resolveEach waiting) s).2.graph.nodes=s.graph.nodes ∧
      (outcome (resolveEach waiting) s).2.graph.used=s.graph.used := by
  induction waiting generalizing s with
  | nil => exact ⟨rfl,rfl⟩
  | cons p rest ih =>
    rw [resolveEach,outcome_get_bind]
    cases s.nodeOf.find p.name with
    | none => exact ⟨rfl,rfl⟩
    | some id =>
      dsimp only
      rw [outcome_modify_bind]
      exact ih _

theorem listOutputs_graph (entries : List (String×List String)) (g : Graph) :
    let listed := entries.foldl (fun g (id,ports) => g.updateLast id fun n => { n with outputs := sortedPorts ports }) g
    listed.ids=g.ids ∧ listed.used=g.used := by
  induction entries generalizing g with
  | nil => exact ⟨rfl,rfl⟩
  | cons entry rest ih =>
    obtain ⟨hids,hused⟩ := ih (g.updateLast entry.1 fun n => { n with outputs := sortedPorts entry.2 })
    exact ⟨hids.trans (Graph.ids_updateLast (by intro node; rfl) g entry.1),hused⟩

/-- Every node of a compiled script has an id that was handed out. -/
theorem graphOf_granted {d : Dialect} {stmts : List Stmt} {g : Graph} (h : graphOf d stmts=.ok g) :
    ∃ grants, Granted (·∈askedIds stmts) grants ∧ grants.map Grant.id=g.ids ∧
      grants.filterMap Grant.number?=g.used.reverse := by
  obtain ⟨last,hrun⟩ : ∃ last, outcome (compileProgram d stmts) State.initial=(.ok g,last) := ⟨_,Prod.ext h rfl⟩
  obtain ⟨⟨⟩,s,hscript,hrun⟩ := outcome_bind_eq_ok.1 hrun
  obtain ⟨⟨⟩,t,hresolve,hrun⟩ := outcome_bind_eq_ok.1 hrun
  obtain ⟨⟨⟩,u,hlist,hrun⟩ := outcome_bind_eq_ok.1 hrun
  cases hlist
  cases hrun
  have hchanges : ReflTransGen (Change (·∈askedIds stmts)) State.initial s := by
    have hfirst := compileScript_changes d (fun _ hx => hx) (Settled.initial : Settled (·∈askedIds stmts) _)
    rw [hscript] at hfirst
    exact hfirst
  obtain ⟨grants,hgranted,hids,hused⟩ := Changes.granted hchanges .nil ⟨rfl,rfl⟩
  have hwaiting : t.graph.ids=s.graph.ids ∧ t.graph.used=s.graph.used := by
    rw [resolvePending,outcome_get_bind] at hresolve
    obtain ⟨⟨⟩,v,heach,hclear⟩ := outcome_bind_eq_ok.1 hresolve
    cases hclear
    obtain ⟨hnodes,hused⟩ := resolveEach_graph s.pending s
    rw [heach] at hnodes hused
    exact ⟨congrArg (List.map Node.id) hnodes,hused⟩
  obtain ⟨hids',hused'⟩ := listOutputs_graph t.outputs.toList t.graph
  refine ⟨grants,hgranted,?_,?_⟩
  · exact hids.trans (hwaiting.1.symm.trans hids'.symm)
  · exact hused.trans (congrArg List.reverse (hwaiting.2.symm.trans hused'.symm))

/-- The nodes of a compiled script have the ids that were handed out in turn: numbers, and texts that the script asks
for. A number is never handed out again, so the ids are distinct exactly if no text that was asked for is. -/
theorem graphOf_ids_nodup_iff {d : Dialect} {stmts : List Stmt} {g : Graph} (h : graphOf d stmts = .ok g) :
    ∃ grants : List Grant, grants.map Grant.id = g.ids ∧ grants.filterMap Grant.number? = g.used.reverse ∧
      (∀ x, .asked x ∈ grants → x ∈ askedIds stmts) ∧
      (grants.Pairwise fun first second => ∀ x, first = .number x → x ≠ second.id) ∧
      (g.ids.Nodup ↔ grants.Pairwise fun first second => ∀ x, first = .asked x → x ≠ second.id) ∧
      (askedIds stmts = [] → g.ids.Nodup) := by
  obtain ⟨grants,hgranted,hids,hused⟩ := graphOf_granted h
  have hnodup := hids ▸ hgranted.nodup_iff
  refine ⟨grants,hids,hused,fun x hx => hgranted.asked_of_mem hx,hgranted.number_ne_later,hnodup,fun hnone => ?_⟩
  refine hnodup.2 (pairwise_of_forall_mem_list ?_)
  rintro first hfirst second - x rfl
  exact nomatch hnone ▸ hgranted.asked_of_mem hfirst

def sameIdScript : List Stmt :=
  let call (line : Nat) (a b : Nat) : Expr :=
    .call line (.name "Add") [.const (.int a),.const (.int b)] [.mk (some "id") (.const (.str "x" false))]
  [.assign 1 [.name "a"] (call 1 1 2),.assign 2 [.name "b"] (call 2 3 4)]

private theorem ids_sameIdScript : (graphOf (.full []) sameIdScript).toOption.map (fun g => (g.ids,g.used)) =
    some (["x","constant_0","constant_1","x","constant_2","constant_3"],
      ["constant_3","constant_2","constant_1","constant_0"]) := by
  decide +kernel

private theorem graph_sameIdScript : ∃ g, graphOf (.full []) sameIdScript=.ok g ∧
    g.ids=["x","constant_0","constant_1","x","constant_2","constant_3"] ∧
    g.used=["constant_3","constant_2","constant_1","constant_0"] := by
  have hids := ids_sameIdScript
  cases hg : graphOf (.full []) sameIdScript with
  | error issue =>
    rw [hg] at hids
    cases hids
  | ok g =>
    rw [hg] at hids
    obtain ⟨hids,hused⟩ := Prod.mk.inj (Option.some.inj hids)
    exact ⟨g,rfl,hids,hused⟩

/-- Four numbers are handed out for the constants, and one text twice. -/
theorem graphOf_ids_sameIdScript : ∃ g, graphOf (.full []) sameIdScript = .ok g ∧ ∃ grants : List Grant,
    grants.map Grant.id = g.ids ∧
    grants.filterMap Grant.number? = ["constant_0", "constant_1", "constant_2", "constant_3"] ∧
    (∀ x, .asked x ∈ grants → x = "x") ∧
    ¬grants.Pairwise fun first second => ∀ x, first = .asked x → x ≠ second.id := by
  obtain ⟨g,hg,hids,hused⟩ := graph_sameIdScript
  obtain ⟨grants,hgrants,hnumbers,hasked,-,hnodup,-⟩ := graphOf_ids_nodup_iff hg
  refine ⟨g,hg,grants,hgrants,?_,fun x hx => ?_,fun hpairwise => ?_⟩
  · rw [hnumbers,hused]
    rfl
  · have hmem : x ∈ ["x","x"] := hasked x hx
    simpa using hmem
  · have hdistinct := hnodup.2 hpairwise
    rw [hids] at hdistinct
    exact absurd hdistinct (by decide)

/-- Not every script that compiles has distinct ids. -/
theorem graphOf_ids_repeat : ¬∀ (d : Dialect) (stmts : List Stmt) (g : Graph), graphOf d stmts = .ok g → g.ids.Nodup := by
  intro hall
  obtain ⟨g,hg,hids,-⟩ := graph_sameIdScript
  have hnodup := hall _ _ g hg
  rw [hids] at hnodup
  exact absurd hnodup (by decide)

end ChipForge.Wiring
