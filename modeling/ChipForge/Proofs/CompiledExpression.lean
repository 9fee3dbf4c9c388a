import ChipForge.Proofs.Changes
import ChipForge.Proofs.ExpressionTrees

/-! In every state that a script without ids leads to, an expression that compiles leaves the graph so far alone, and
the reference it yields unfolds to the operator tree of the expression and to no other. -/
namespace ChipForge.Wiring
open Script Relation List

/-- States on the way of scripts that ask for no ids, those in the middle of a statement or an expression included. -/
def Reachable (s : State) : Prop := ReflTransGen (Change noIds) State.initial s

namespace Reachable

variable {s : State}

theorem settled (hs : Reachable s) : Settled noIds s := Changes.settled hs Settled.initial

theorem sound (hs : Reachable s) : Sound s := hs.settled.sound fun _ hx => hx

theorem script (d : Dialect) {stmts : List Stmt} (hids : askedIds stmts=[]) :
    Reachable (outcome (compileScript d stmts) State.initial).2 :=
  compileScript_changes d (fun _ hx => nomatch hids ▸ hx) Settled.initial

end Reachable

theorem treeWorth_admits {outputs : OutputTypes} {b : State} {e call : Expr} (hids : e.askedIds=[])
    (hwrites : ∀ c∈e.calls, isWrite c=false) (hcall : call∈e.calls) :
    (treeWorth outputs b).Admits (b.treeOf (.full outputs)) call where
  makes _ _ _ _ _ _ asked hasked := by
    refine Option.isNone_iff_eq_none.2 (Option.eq_none_iff_forall_ne_some.2 fun x hx => ?_)
    have hmem : x∈e.askedIds := mem_flatMap.2 ⟨call,hcall,hasked x hx⟩
    exact not_mem_nil (hids ▸ hmem)
  write h := nomatch (hwrites call hcall).symm.trans h

theorem emitExpr_unfolds {outputs : OutputTypes} {s t : State} {e : Expr} {ref : Ref} (hs : Reachable s)
    (hids : e.askedIds = []) (hwrites : ∀ c ∈ e.calls, isWrite c = false)
    (hrun : outcome (emitExpr (.full outputs) e) s = (.ok ref, t)) :
    s.graph.nodes <+: t.graph.nodes ∧ s.graph.edges <+: t.graph.edges ∧ s.pending <+: t.pending ∧
      ∀ tree, Unfolds (· ∈ s.graph.ids) (· ∈ t.graph.ids) t ref tree ↔ tree = s.treeOf (.full outputs) e := by
  have hacts := emitExpr_acts treeOf_values e (fun _ => treeWorth_admits hids hwrites) hrun
  have hbuilds := (Builds.start hs.sound).acts hs.sound.bound hacts
  have hgrown := hbuilds.grown
  have htree : Unfolds (· ∈ s.graph.ids) (· ∈ t.graph.ids) t ref (s.treeOf (.full outputs) e) :=
    (hbuilds.held _ List.mem_cons_self).mono (fun _ hx => hbuilds.old hx) (fun _ hx => hx.1) (fun _ _ => rfl) fun _ _ => rfl
  refine ⟨hgrown.nodes,hgrown.later.edges,hgrown.later.pending,fun tree => ⟨fun h => h.unique htree,?_⟩⟩
  rintro rfl
  exact htree

def inputScript : List Stmt :=
  [.assign 1 [.name "a"] (.call 1 (.name "INPUT") [.const (.str "A" false),.const (.str "Number" false)] [])]

def rangeTest : Expr :=
  .boolOp 2 .and [.compare 2 (.const (.int 0)) [.mk .lt (.name "a"),.mk .ltE (.const (.int 5))],
    .unary 2 .not (.name "late")]

theorem emitExpr_unfolds_rangeTest : ∃ s t, s = (outcome (compileScript (.full []) inputScript) State.initial).2 ∧
    outcome (emitExpr (.full []) rangeTest) s = (.ok (.node "and_1" autoPort), t) ∧
    s.graph.nodes <+: t.graph.nodes ∧ s.graph.edges <+: t.graph.edges ∧ s.pending <+: t.pending ∧
    Unfolds (· ∈ s.graph.ids) (· ∈ t.graph.ids) t (.node "and_1" autoPort)
      (.node "AND" [] [
        ("A", .node "AND" [] [
          ("A", .node "LESS THAN" [] [("A", .constant "0" "Output"), ("B", .before "input_0" autoPort)] autoPort),
          ("B", .node "LESS OR EQUAL" [] [("A", .before "input_0" autoPort), ("B", .constant "5" "Output")] autoPort)]
          autoPort),
        ("B", .node "NOT" [] [("A", .later "late" autoPort)] autoPort)] autoPort) := by
  have hrun := outcome_eq_ok (m := emitExpr (.full []) rangeTest) (a := .node "and_1" autoPort)
    (s := (outcome (compileScript (.full []) inputScript) State.initial).2) (by decide +kernel)
  obtain ⟨hnodes,hedges,hpending,htree⟩ :=
    emitExpr_unfolds (Reachable.script (.full []) rfl) rfl (by decide +kernel) hrun
  exact ⟨_,_,rfl,hrun,hnodes,hedges,hpending,(htree _).2 rfl⟩

end ChipForge.Wiring
