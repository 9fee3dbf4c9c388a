import ChipForge.Proofs.Assignment

/-! An assignment whose value misuses an operation is skipped: no name changes, but the nodes made before the refusal
stay. An operator that is refused itself leaves nothing behind; if one of its operands is refused, its node stays, wired
as far as its operands were compiled. -/
namespace ChipForge.Wiring
open Script List
open Relation (ReflTransGen)

variable {asked : String→Prop} {n : Nat} {s t u : State}

/-- A later state in which all new wires lead to nodes from place `n` on. -/
structure Hangs (n : Nat) (s t : State) : Prop extends Extends n s t where
  newEdges : ∃ edges, t.graph.edges=s.graph.edges++edges ∧ ∀ e∈edges, e.toNode∈t.graph.idsFrom n
  newPending : ∃ pending, t.pending=s.pending++pending ∧ ∀ p∈pending, p.toNode∈t.graph.idsFrom n

namespace Hangs

theorem of_edges (h : Extends n s t) (hedges : t.graph.edges=s.graph.edges) (hpending : t.pending=s.pending) :
    Hangs n s t :=
  ⟨h,⟨[],by simp [hedges]⟩,⟨[],by simp [hpending]⟩⟩

theorem refl (n : Nat) (s : State) : Hangs n s s := of_edges (.refl n s) rfl rfl

theorem trans (hst : Hangs n s t) (htu : Hangs n t u) : Hangs n s u := by
  obtain ⟨edges,hedges,hto⟩ := hst.newEdges
  obtain ⟨edges',hedges',hto'⟩ := htu.newEdges
  obtain ⟨pending,hpending,hwait⟩ := hst.newPending
  obtain ⟨pending',hpending',hwait'⟩ := htu.newPending
  refine ⟨hst.toExtends.trans htu.toExtends,⟨edges++edges',?_,fun e he => ?_⟩,
    ⟨pending++pending',?_,fun p hp => ?_⟩⟩
  · rw [hedges',hedges,append_assoc]
  · exact (mem_append.1 he).elim (fun he => htu.mem_idsFrom (hto e he)) (hto' e)
  · rw [hpending',hpending,append_assoc]
  · exact (mem_append.1 hp).elim (fun hp => htu.mem_idsFrom (hwait p hp)) (hwait' p)

theorem of_step (h : Step asked n s t) : Hangs n s t := by
  have hextends := h.extends
  cases h with
  | hold v type =>
    refine of_edges hextends ?_ ?_
    · rw [s.hold_graph]
      rfl
    · cases type <;> rfl
  | wire ref id port line href hid =>
    cases ref with
    | node source out => exact ⟨hextends,⟨[_],rfl,by simpa using hextends.mem_idsFrom hid.1⟩,⟨[],by simp; rfl⟩⟩
    | name source out => exact ⟨hextends,⟨[],by simp; rfl⟩,⟨[_],rfl,by simpa using hextends.mem_idsFrom hid.1⟩⟩
  | _ => exact of_edges hextends rfl rfl

theorem of_steps (h : ReflTransGen (Step asked n) s t) : Hangs n s t := by
  induction h with
  | refl => exact .refl n s
  | tail _ hstep ih => exact ih.trans (of_step hstep)

end Hangs

/-- An expression only adds nodes, and wires that lead to them. -/
theorem emitExpr_hangs (d : Dialect) (e : Expr) (s : State) :
    Hangs s.graph.nodes.length s (outcome (emitExpr d e) s).2 :=
  .of_steps (emitExpr_steps d e s)

section Skipped
variable {d : Dialect} {value left right : Expr} {op : BinaryOp} {issue : Issue} {name : String}

/-- Is the value of an assignment compiled as an expression, whatever it yields? -/
def isGeneral : Expr→Bool
  | .call _ _ _ _ => false
  | .subscript _ _ => false
  | e => !definesVariable e

theorem compileAssign_general (line : Nat) (hwrites : s.writes name=false) (hgeneral : isGeneral value=true) :
    outcome (compileAssign d line [.name name] value) s=outcome (assignOther d name value) s := by
  unfold compileAssign
  dsimp only
  have hguard : (s.guarded && s.inGuard && s.declares name)=false := by
    rw [State.writes] at hwrites
    rw [← hwrites]
    cases s.guarded <;> cases s.inGuard <;> cases s.declares name <;> rfl
  rw [outcome_get_bind,hguard,if_neg (by decide)]
  cases value with
  | call => cases hgeneral
  | subscript => cases hgeneral
  | _ => rfl

theorem assignOther_misuse (hgeneral : isGeneral value=true) (hrun : outcome (emitExpr d value) s=(.error issue,t))
    (hmisuse : issue.isMisuse=true) : outcome (assignOther d name value) s=(.ok (),t) := by
  have hdefines : definesVariable value=false := by
    cases value <;> simp_all [isGeneral]
  have hscalar : (Literal.ofExpr? value).filter isScalar=none := by
    refine Option.filter_eq_none_iff.2 fun v hv hscalar => ?_
    obtain ⟨id,u,hconstant,-⟩ := outcome_emitConstant_ok d v none s
    rw [emitExpr_literal d (Option.filter_eq_some_iff.2 ⟨hv,isConstant_of_isScalar hscalar⟩),outcome_bind_ok hconstant] at hrun
    cases hrun
  have hskip : outcome (emitOrSkip d value) s=(.ok none,t) := by
    rw [outcome_emitOrSkip,hrun]
    dsimp only
    rw [if_pos hmisuse]
  rw [assignOther,filter_isDefinition hdefines]
  dsimp only
  rw [hscalar]
  dsimp only
  rw [assignValue,outcome_bind_ok hskip]
  rfl

theorem connectPorts_length (d : Dialect) (id : String) (line : Option Nat) (ports : List (String×Expr)) (s : State) :
    s.graph.nodes.length ≤
      (outcome (connectPorts id line (ports.map fun p => (p.1,⟨some p.2,emitExpr d p.2⟩))) s).2.graph.nodes.length := by
  induction ports generalizing s with
  | nil => exact Nat.le_refl _
  | cons p rest ih =>
    have hlength := (emitExpr_extends d p.2 s).length_le
    rw [map_cons,connectPorts_cons]
    split_ifs
    · exact ih s
    · rw [outcome_bind]
      rcases hrun : outcome (emitExpr d p.2) s with ⟨issue | ref,t⟩ <;> rw [hrun] at hlength
      · exact hlength
      · dsimp only
        rw [outcome_modify_bind]
        refine Nat.le_trans hlength ?_
        rw [← t.connect_nodes ref id p.1 line]
        exact ih _

/-- The node of a module is placed before its arguments are compiled, so it stays if one of them is refused. -/
theorem emitModule_nodes {module : String} (ports : List (String×Expr))
    (hplain : PlainPorts module (ports.map fun p => (p.1,(⟨some p.2,emitExpr d p.2⟩ : Operand))))
    (hrun : outcome (emitModule d module (ports.map fun p => (p.1,⟨some p.2,emitExpr d p.2⟩))) s=(.error issue,t)) :
    s.graph.nodes.length < t.graph.nodes.length := by
  rw [emitModule,outcome_emitCall (planCall_plain hplain),outcome_bind] at hrun
  split at hrun
  · cases hrun
  · rename_i why u hports
    obtain ⟨-,rfl⟩ := Prod.mk.inj hrun
    refine Nat.lt_of_lt_of_le ?_ (congrArg Prod.snd hports ▸ connectPorts_length d _ _ ports _)
    show _ < ((chooseId s.graph module none).2.nodes++[_]).length
    rw [chooseId_nodes,length_append]
    exact Nat.lt_succ_self _

/-- A refused operator leaves no node behind just if it is refused for the kinds of its operands. -/
theorem emitExpr_binary_nodes (hrun : outcome (emitExpr d (.binary left op right)) s=(.error issue,t)) :
    t.graph.nodes=s.graph.nodes ↔ ∃ why, operatorForm op (literalKind? left) (literalKind? right)=.error why := by
  rw [emitExpr,constantOr,literal_binary] at hrun
  dsimp only at hrun
  cases hform : operatorForm op (literalKind? left) (literalKind? right) with
  | error why =>
    rw [hform] at hrun
    obtain ⟨-,rfl⟩ := Prod.mk.inj hrun
    exact iff_of_true rfl ⟨why,rfl⟩
  | ok form =>
    obtain ⟨module,a,b⟩ := form
    rw [hform,outcome_bind_ok (outcome_lift (.ok (module,a,b)) s),outcome_bind] at hrun
    rcases hmodule : outcome (emitModule d module _) s with ⟨why | id,u⟩ <;> rw [hmodule] at hrun <;> cases hrun
    have hless := emitModule_nodes [(a,left),(b,right)] (plainPorts_of_operator (operatorForm_eq_ok hform) _ _) hmodule
    refine iff_of_false (fun hnodes => Nat.ne_of_gt hless (congrArg length hnodes)) ?_
    rintro ⟨_,hwhy⟩
    cases hwhy

/-- An assignment whose value misuses an operation ends well. All names stand for what they stood for and have their
types; nodes are only added, and the new wires, drawn or waiting, lead to new nodes. So nothing is left behind if no node
was made; of an operator no node was made just if it is refused for the kinds of its operands. -/
theorem compileAssign_misuse_leaves (line : Nat) (hwrites : s.writes name = false) (hgeneral : isGeneral value = true)
    (hrun : outcome (emitExpr d value) s = (.error issue, t)) (hmisuse : issue.isMisuse = true) :
    outcome (compileAssign d line [.name name] value) s = (.ok (), t) ∧
      t.nodeOf = s.nodeOf ∧ t.aliases = s.aliases ∧ t.nameTypes = s.nameTypes ∧
      (∃ nodes edges pending, t.graph.nodes = s.graph.nodes ++ nodes ∧ t.graph.edges = s.graph.edges ++ edges ∧
        t.pending = s.pending ++ pending ∧ (∀ e ∈ edges, e.toNode ∈ nodes.map (·.id)) ∧
        (∀ p ∈ pending, p.toNode ∈ nodes.map (·.id)) ∧ (nodes = [] → edges = [] ∧ pending = [])) ∧
      ∀ left op right, value = .binary left op right → (t.graph.nodes = s.graph.nodes ↔
        ∃ why, operatorForm op (literalKind? left) (literalKind? right) = .error why) := by
  have hangs := emitExpr_hangs d value s
  rw [hrun] at hangs
  obtain ⟨nodes,hnodes⟩ := hangs.toExtends.later.nodes
  obtain ⟨edges,hedges,hto⟩ := hangs.newEdges
  obtain ⟨pending,hpending,hwait⟩ := hangs.newPending
  have hnew : t.graph.idsFrom s.graph.nodes.length = nodes.map (·.id) := by
    rw [Graph.idsFrom,← hnodes,drop_left]
  simp only [hnew] at hto hwait
  refine ⟨(compileAssign_general line hwrites hgeneral).trans (assignOther_misuse hgeneral hrun hmisuse),hangs.nodeOf,
    hangs.aliases,hangs.nameTypes,⟨nodes,edges,pending,hnodes.symm,hedges,hpending,hto,hwait,?_⟩,?_⟩
  · rintro rfl
    exact ⟨eq_nil_iff_forall_not_mem.2 fun e he => not_mem_nil (hto e he),
      eq_nil_iff_forall_not_mem.2 fun p hp => not_mem_nil (hwait p hp)⟩
  · rintro left op right rfl
    exact emitExpr_binary_nodes hrun

/-- A name plus a remainder by a text. -/
def halfBuilt : Expr := .binary (.name "x") .add (.binary (.const (.int 2)) .mod (.const (.str "s" false)))

theorem compileAssign_misuse_leaves_halfBuilt : State.initial.writes "y" = false ∧ isGeneral halfBuilt = true ∧
    ∃ t, outcome (compileAssign (.full []) 1 [.name "y"] halfBuilt) State.initial = (.ok (), t) ∧
      t.nodeOf = State.initial.nodeOf ∧ ¬ t.graph.nodes = [] := by
  have hgeneral : isGeneral halfBuilt = true := by decide +kernel
  have hrun : outcome (emitExpr (.full []) halfBuilt) State.initial =
      (.error (.misuse "Mod 只支持 DECIMAL % DECIMAL"),(outcome (emitExpr (.full []) halfBuilt) State.initial).2) := rfl
  obtain ⟨hend,hnodeOf,-,-,-,hoperator⟩ := compileAssign_misuse_leaves 1 rfl hgeneral hrun rfl
  refine ⟨rfl,hgeneral,_,hend,hnodeOf,fun hnone => ?_⟩
  obtain ⟨why,hwhy⟩ := (hoperator _ _ _ rfl).1 hnone
  cases hwhy

/-- The node of a sum stays, with a wire to it, though the statement it was made for is skipped. -/
theorem halfBuilt_leaves_node :
    let s := (outcome (compileStmts (.full []) [.assign 1 [.name "x"] (.const (.int 1))]) State.initial).2
    let skipped := outcome (compileAssign (.full []) 2 [.name "y"] halfBuilt) s
    skipped.1.toOption = some () ∧ s.graph.nodes.map (·.type) = ["Constant"] ∧ s.graph.edges = [] ∧
      skipped.2.graph.nodes.map (·.type) = ["Constant", "Add"] ∧ skipped.2.graph.edges.length = 1 := by
  decide +kernel

end Skipped

end ChipForge.Wiring
