import ChipForge.Proofs.Bindings

/-! The first node a name stands for stays, whatever statements follow, unless they choose between rows of assignments.
What the name denotes stays, too, unless it is later assigned a port or another name: such an assignment lets it stand for
what the other name stands for, and that comes before its own node. -/
namespace ChipForge.Wiring
open Script List

variable {d : Dialect} {s t u : State} {changed : List String}

/-- A later state in which names stand for the nodes they stood for, and only some names may have become aliases. -/
structure Keeps (changed : List String) (s t : State) : Prop where
  nodeOf : ∀ name id, s.nodeOf.find name=some id → t.nodeOf.find name=some id
  aliases : ∀ name∉changed, t.aliases.find name=s.aliases.find name

namespace Keeps

theorem trans (hst : Keeps changed s t) (htu : Keeps changed t u) : Keeps changed s u :=
  ⟨fun name id h => htu.nodeOf name id (hst.nodeOf name id h),
    fun name hname => (htu.aliases name hname).trans (hst.aliases name hname)⟩

theorem of_same (h : s.SameNames t) : Keeps changed s t := ⟨fun _ _ hname => h.nodeOf ▸ hname,fun _ _ => by rw [h.aliases]⟩

theorem of_binds {x : String} {type : Option GateType} {refers : Prop} (h : Binds x type refers s t)
    (hx : refers → x∈changed) : Keeps changed s t := by
  have hbound : ∀ id other y, s.nodeOf.find other=some y → (s.nodeOf.putNew x id).find other=some y := by
    intro id other y hother
    rw [Table.find_putNew]
    split_ifs with heq
    · rw [← heq,hother]
      rfl
    · exact hother
  cases h with
  | same h => exact .of_same h
  | node id _ _ hnodeOf haliases => exact ⟨hnodeOf ▸ hbound id,fun _ _ => by rw [haliases]⟩
  | renamed href _ hnodeOf haliases =>
    refine ⟨?_,fun other hother => ?_⟩
    · rcases hnodeOf with hnodeOf | ⟨id,hnodeOf⟩
      · exact fun _ _ h => hnodeOf ▸ h
      · exact hnodeOf ▸ hbound id
    · rw [haliases]
      exact Table.find_put_ne _ _ fun heq => hother (heq ▸ hx href)

theorem refOfPort (h : Keeps changed s t) {name id port out : String} (href : s.refOfPort name port=.node id out) :
    t.refOfPort name port=.node id out := by
  unfold State.refOfPort at href ⊢
  cases hnode : s.nodeOf.find name with
  | none =>
    rw [hnode] at href
    cases href
  | some x =>
    rw [hnode] at href
    rw [h.nodeOf name x hnode]
    exact href

theorem refOfName (h : Keeps changed s t) {name id port : String} (hname : name∉changed)
    (href : s.refOfName name=.node id port) : t.refOfName name=.node id port := by
  unfold State.refOfName at href ⊢
  rw [h.aliases name hname]
  cases halias : s.aliases.find name <;> rw [halias] at href <;> exact h.refOfPort href

end Keeps

mutual

/-- A statement without choices between rows of assignments. -/
def branchless : Stmt→Bool
  | .ifElse _ _ _ _ => false
  | .block _ _ body => branchlessAll body
  | _ => true

def branchlessAll : List Stmt→Bool
  | [] => true
  | stmt::rest => branchless stmt && branchlessAll rest

end

mutual

/-- The names that a statement assigns a port or another name. -/
def redirects : Stmt→List String
  | .assign _ [.name name] value => if isReference value then [name] else []
  | .block _ _ body => redirectsAll body
  | _ => []

def redirectsAll : List Stmt→List String
  | [] => []
  | stmt::rest => redirects stmt++redirectsAll rest

end

mutual

theorem compileStmt_keeps (d : Dialect) : ∀ stmt s, branchless stmt=true → redirects stmt ⊆ changed →
    Keeps changed s (outcome (compileStmt d stmt) s).2
  | .assign line targets value, s, _, hchanged => by
    rw [compileStmt]
    by_cases htargets : ∃ x, targets=[.name x]
    · obtain ⟨x,rfl⟩ := htargets
      refine .of_binds (compileAssign_binds d line x value s) fun hvalue => hchanged ?_
      rw [redirects,if_pos hvalue]
      exact mem_singleton.2 rfl
    · exact .of_same (compileAssign_same line htargets value s)
  | .declare line target typeNote value, s, _, _ => by
    rw [compileStmt]
    by_cases htarget : ∃ x, target=.name x
    · obtain ⟨x,rfl⟩ := htarget
      obtain ⟨type,hbinds⟩ := compileDeclare_binds d line x typeNote value s
      exact .of_binds hbinds nofun
    · exact .of_same (compileDeclare_same line htarget typeNote value s)
  | .expr _ value, s, _, _ => by
    rw [compileStmt]
    exact .of_same (compileExprStmt_same d value s)
  | .ifElse _ _ _ _, _, hplain, _ => by cases hplain
  | .block _ _ body, s, hplain, hchanged => by
    rw [compileStmt]
    rw [branchless] at hplain
    rw [redirects] at hchanged
    exact compileStmts_keeps d body s hplain hchanged
  | .pass _, s, _, _ | .imports _, s, _, _ | .other _, s, _, _ => by
    rw [compileStmt]
    exact .of_same ⟨rfl,rfl,rfl⟩

theorem compileStmts_keeps (d : Dialect) : ∀ stmts s, branchlessAll stmts=true → redirectsAll stmts ⊆ changed →
    Keeps changed s (outcome (compileStmts d stmts) s).2
  | [], s, _, _ => by
    rw [compileStmts]
    exact .of_same ⟨rfl,rfl,rfl⟩
  | stmt::rest, s, hplain, hchanged => by
    rw [branchlessAll,Bool.and_eq_true] at hplain
    rw [redirectsAll,append_subset] at hchanged
    have hfirst := compileStmt_keeps d stmt s hplain.1 hchanged.1
    rw [compileStmts,outcome_bind]
    rcases hrun : outcome (compileStmt d stmt) s with ⟨issue | ⟨⟩,t⟩ <;> rw [hrun] at hfirst
    · exact hfirst
    · exact hfirst.trans (compileStmts_keeps d rest t hplain.2 hchanged.2)

end

/-- The node a name stands for stays over all statements without choices between rows of assignments. What a name
denotes stays, node and port, unless it is assigned a port or another name. -/
theorem compileStmts_keeps_first {stmts : List Stmt} (hplain : branchlessAll stmts = true)
    (hrun : outcome (compileStmts d stmts) s = (.ok (), t)) :
    (∀ name id, s.nodeOf.find name = some id → t.nodeOf.find name = some id) ∧
      ∀ name id port, s.refOfName name = .node id port → name ∉ redirectsAll stmts →
        t.refOfName name = .node id port := by
  have hkeeps := compileStmts_keeps d stmts s hplain (Subset.refl _)
  rw [hrun] at hkeeps
  exact ⟨hkeeps.nodeOf,fun name id port href hname => hkeeps.refOfName hname href⟩

/-- A number, then a text, under one name. -/
def renamed : List Stmt := [.assign 2 [.name "x"] (.const (.str "s" false)),.assign 3 [.name "y"] (.name "x")]

theorem compileStmts_keeps_first_renamed :
    let s := (outcome (compileStmts (.full []) [.assign 1 [.name "x"] (.const (.int 1))]) State.initial).2
    branchlessAll renamed = true ∧ s.refOfName "x" = .node "constant_0" autoPort ∧
      ∃ t, outcome (compileStmts (.full []) renamed) s = (.ok (), t) ∧ t.refOfName "x" = .node "constant_0" autoPort := by
  intro s
  have href : s.refOfName "x" = .node "constant_0" autoPort := by decide +kernel
  have hrun : outcome (compileStmts (.full []) renamed) s = (.ok (),_) := outcome_eq_ok (by decide +kernel)
  obtain ⟨-,hkept⟩ := compileStmts_keeps_first (by decide) hrun
  exact ⟨by decide,href,_,hrun,hkept "x" _ _ href (by decide)⟩

/-- A port that is assigned to a name comes before the node that the name stands for. -/
theorem port_overrides_first :
    let s := (outcome (compileStmts (.full []) [.assign 1 [.name "x"] (.const (.int 1)),
      .assign 2 [.name "y"] (.call 2 (.name "Add") [.const (.int 2), .const (.int 3)] [])]) State.initial).2
    let t := (outcome (compileStmts (.full [])
      [.assign 3 [.name "x"] (.subscript (.name "y") (.const (.str "Result" false)))]) s).2
    s.refOfName "x" = .node "constant_0" autoPort ∧ t.nodeOf.find "x" = some "constant_0" ∧
      t.refOfName "x" = .node "add_0" "Result" := by
  decide +kernel

end ChipForge.Wiring
