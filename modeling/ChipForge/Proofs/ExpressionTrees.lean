import ChipForge.Proofs.Building

/-! The operator tree of an expression comes about as the reference does that compiling it yields. -/
namespace ChipForge.Wiring
open Script List Text

section Trees
variable {outputs : OutputTypes} {b : State}

theorem fedBy_written (ports : List (String×Expr)) :
    OpTree.fedBy (ports.map (Prod.map id fun e => (e,b.treeOf (.full outputs) e))) =
      (treeWorth outputs b).fed (b.treeOf (.full outputs)) ports := by
  rw [OpTree.fedBy,filter_map,map_map]
  rfl

theorem namedItems_pairs (d : Dialect) (keywords : List Keyword) :
    b.namedItems d keywords=(keywords.map Keyword.pair).map (Prod.map id fun e => (e,b.treeOf d e)) := by
  rw [State.namedItems_eq,map_map]
  rfl

theorem ofForm_written (form : Form) (ports : List (String×Expr)) :
    OpTree.ofForm form (ports.map (Prod.map id fun e => (e,b.treeOf (.full outputs) e))) =
      (treeWorth outputs b).ofForm (b.treeOf (.full outputs)) form ports := by
  unfold OpTree.ofForm Worth.ofForm
  cases form.shape with
  | negatedMax =>
    simp only [map_map,Function.comp_def,Prod.map,← fedBy_written]
    rfl
  | node | twice =>
    dsimp only
    rw [fedBy_written]

theorem treeOf_literal {e : Expr} {v : Literal} (h : (Literal.ofExpr? e).filter isConstant=some v) :
    b.treeOf (.full outputs) e=(treeWorth outputs b).constant v := by
  have hliteral : ∀ tree, OpTree.literalOr e tree=.constant (reading v) "Output" := by
    intro tree
    rw [OpTree.literalOr,h]
  cases e with
  | name | boolOp | compare | cond => cases h
  | call line fn args keywords => exact nomatch (literal_call line fn args keywords).symm.trans h
  | binary left op right => exact nomatch (literal_binary left right op).symm.trans h
  | unary line op operand =>
    cases op with
    | not => cases h
    | minus | plus | invert =>
      rw [State.treeOf]
      · exact hliteral _
      all_goals simp
  | subscript value slice => cases h
  | _ =>
    rw [State.treeOf]
    · exact hliteral _
    all_goals simp

theorem neighbours_row {v : (treeWorth outputs b).Val} {vs : List (CompareOp×(treeWorth outputs b).Val)}
    {trees : List (treeWorth outputs b).Val}
    (h : (treeWorth outputs b).Row v vs trees) : OpTree.neighbours v vs=trees := by
  induction h with
  | nil => rfl
  | cons hmodule _ ih =>
    rw [OpTree.neighbours,hmodule,ih]
    rfl

section Calls
variable {line : Nat} {fn : Expr} {args : List Expr} {keywords : List Keyword}

theorem treeOf_function {form : Form} {ports : List (String×Expr)} (hform : Form.find? (canonicalModule (calledName fn))=some form)
    (hports : form.ports? args (keywords.map Keyword.pair)=some ports) :
    b.treeOf (.full outputs) (.call line fn args keywords)=(treeWorth outputs b).ofForm (b.treeOf (.full outputs)) form ports := by
  rw [State.treeOf,State.items_eq,namedItems_pairs]
  unfold State.callTree
  simp only [hform,Form.ports?_map,hports]
  exact ofForm_written form ports

theorem treeOf_call (hform : Form.find? (canonicalModule (calledName fn))=none) :
    b.treeOf (.full outputs) (.call line fn args keywords) =
      (treeWorth outputs b).made (canonicalModule (calledName fn))
        (b.settings (.full outputs) (canonicalModule (calledName fn)) args (keywords.map Keyword.pair))
        ((treeWorth outputs b).fed (b.treeOf (.full outputs))
          (callPorts (lower (canonicalModule (calledName fn))) args (keywords.map Keyword.pair))) := by
  have hargs : (args.map fun e => (e,b.treeOf (.full outputs) e)).map (·.1)=args := by
    rw [map_map]
    exact map_id args
  have hkeys : ((keywords.map Keyword.pair).map (Prod.map id fun e => (e,b.treeOf (.full outputs) e))).map
      (Prod.map id (·.1))=keywords.map Keyword.pair := by
    rw [map_map]
    exact map_id _
  rw [State.treeOf,State.items_eq,namedItems_pairs]
  unfold State.callTree
  simp only [hform]
  rw [hargs,hkeys,callPorts_map,fedBy_written]

end Calls

/-- Trees of expressions are worth what their references unfold to. -/
theorem treeOf_values : (treeWorth outputs b).Values (b.treeOf (.full outputs)) where
  name name := by rw [State.treeOf]
  port h := by rw [State.treeOf,State.portTree,h]
  output h := by rw [State.treeOf,State.portTree,h,State.treeOf]
  logic {line op first rest} := by
    rw [State.treeOf,State.items_eq,map_map]
    rfl
  row h := by
    rw [State.treeOf,State.comparedTrees_eq,neighbours_row h]
    rfl
  choice h := by rw [State.treeOf,h]
  negation {line e} := by rw [State.treeOf]
  literal h := treeOf_literal h
  opposite {line e} h := by
    rw [State.treeOf,OpTree.literalOr,h,← fedBy_written]
    rfl
  plus h := by rw [State.treeOf,OpTree.literalOr,h]
  operator h := by
    rw [State.treeOf,h,← fedBy_written]
    rfl
  function hform hports := treeOf_function hform hports
  call hform := treeOf_call hform

end Trees

end ChipForge.Wiring
