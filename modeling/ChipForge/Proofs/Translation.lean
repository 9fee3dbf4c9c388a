import ChipForge.Proofs.OpTree
import ChipForge.Proofs.Plans

/-! The operator tree of an expression, part by part: operators and functions become nodes with the trees of their
operands on the ports, `and` and `or` fold from the left, a chain of comparisons becomes the conjunction of its
neighbours. -/
namespace ChipForge.Wiring
open Script

def isWrite : Expr→Bool
  | .call _ fn _ _ => Text.lower (canonicalModule (calledName fn)) == "set"
  | _ => false

abbrev Item := Expr×OpTree

namespace OpTree

def fedBy (ports : List (String×Item)) : List (String×OpTree) :=
  (ports.filter fun p => !leavesOpen p.2.1).map fun p => (p.1,p.2.2)

def pair (module : String) (left right : OpTree) : OpTree := made module [] [("A",left),("B",right)]

def joinAll (module : String) : List OpTree→OpTree
  | [] => refused
  | first::rest => rest.foldl (pair module) first

def neighbours : OpTree→List (CompareOp×OpTree)→List OpTree
  | _, [] => []
  | left, (op,right)::rest =>
    (match comparisonModule op with
      | .ok module => pair module left right
      | .error _ => refused)::neighbours right rest

def ofForm (form : Form) (ports : List (String×Item)) : OpTree :=
  match form.shape with
  | .negatedMax =>
    let negated := ports.map fun p => (p.1,made "Negate" [] (fedBy [("Input",p.2)]))
    made "Negate" [] [("Input",made form.module [] negated)]
  | _ => made form.module [] (fedBy ports)

def literalOr (e : Expr) (otherwise : OpTree) : OpTree :=
  match (Literal.ofExpr? e).filter isConstant with
  | some v => constant (reading v) "Output"
  | none => otherwise

end OpTree

/-- A call with written arguments, each compiled by the given step. -/
def callOf (run : Expr → Compile Ref) (line : Option Nat) (module : String) (args : List Expr)
    (keywords : List (Option String×Expr)) : ModuleCall :=
  ⟨line,module,args.map (operandOf run),keywords.map fun k => ⟨k.1,operandOf run k.2⟩⟩

namespace State

def leaf (s : State) : Ref→OpTree
  | .name name port => .later name port
  | .node id port =>
    match s.constant? id with
    | some v => .constant (reading v) port
    | none => .before id port

/-- Attributes of the node of a call, read off its arguments. -/
def settings (s : State) (d : Dialect) (module : String) (args : List Expr) (keywords : List (Option String×Expr)) :
    List (Literal×Literal) :=
  match planCall (callOf (fun _ => Operand.missing.run) none module args keywords) with
  | .ok plan => s.attrsOf d (Text.lower module) plan
  | .error _ => []

def choiceType? (s : State) (d : Dialect) (line : Nat) (body orelse : Expr) : Option GateType :=
  match typeOfExpr ⟨s.nameTypes,d.outputs⟩ body, typeOfExpr ⟨s.nameTypes,d.outputs⟩ orelse with
  | .ok l, .ok r => (mergeTypes l r none (some line)).toOption.join
  | _, _ => none

/-- The tree of a call that is no write. -/
def callTree (s : State) (d : Dialect) (fn : Expr) (args : List Item) (keywords : List (Option String×Item)) : OpTree :=
  let module := canonicalModule (calledName fn)
  match Form.find? module with
  | some form =>
    match form.ports? args keywords with
    | some ports => .ofForm form ports
    | none => .refused
  | none =>
    .made module (s.settings d module (args.map (·.1)) (keywords.map (Prod.map id (·.1))))
      (OpTree.fedBy (callPorts (Text.lower module) args keywords))

def portTree (slice : Expr) (tree : String→OpTree) : OpTree :=
  match (Literal.ofExpr? slice).bind portText? with
  | some port => tree port
  | none => .refused

mutual

/-- The operator tree of an expression. -/
def treeOf (s : State) (d : Dialect) : Expr→OpTree
  | .name id => s.leaf (s.refOfName id)
  | .subscript (.name id) slice => portTree slice fun port => s.leaf (s.refOfPort id port)
  | .subscript (.call _ fn args keywords) slice =>
    portTree slice fun port => (s.callTree d fn (s.items d args) (s.namedItems d keywords)).withPort port
  | .boolOp _ op values => .joinAll (logicModule op) ((s.items d values).map (·.2))
  | .compare _ left rest => .joinAll "AND" (OpTree.neighbours (s.treeOf d left) (s.comparedTrees d rest))
  | .cond line test body orelse =>
    match s.choiceType? d line body orelse with
    | some t =>
      .made "Branch" [(.str "data_type",.str t.name)]
        [("If",s.treeOf d test),("A",s.treeOf d body),("B",s.treeOf d orelse)]
    | none => .refused
  | .unary _ .not operand => .made "NOT" [] [("A",s.treeOf d operand)]
  | .unary line .minus operand =>
    .literalOr (.unary line .minus operand) (.made "Negate" [] (OpTree.fedBy [("Input",operand,s.treeOf d operand)]))
  | .unary line .plus operand => .literalOr (.unary line .plus operand) (s.treeOf d operand)
  | .binary left op right =>
    match operatorPorts? op with
    | some (module,a,b) => .made module [] (OpTree.fedBy [(a,left,s.treeOf d left),(b,right,s.treeOf d right)])
    | none => .refused
  | .call _ fn args keywords => s.callTree d fn (s.items d args) (s.namedItems d keywords)
  | e => .literalOr e .refused

def items (s : State) (d : Dialect) : List Expr→List Item
  | [] => []
  | e::rest => (e,s.treeOf d e)::s.items d rest

def namedItems (s : State) (d : Dialect) : List Keyword→List (Option String×Item)
  | [] => []
  | .mk name value::rest => (name,value,s.treeOf d value)::s.namedItems d rest

def comparedTrees (s : State) (d : Dialect) : List Comparison→List (CompareOp×OpTree)
  | [] => []
  | .mk op right::rest => (op,s.treeOf d right)::s.comparedTrees d rest

end

theorem items_eq (s : State) (d : Dialect) (es : List Expr) : s.items d es=es.map fun e => (e,s.treeOf d e) := by
  induction es with
  | nil => simp [items]
  | cons e rest ih => simp [items,ih]

theorem namedItems_eq (s : State) (d : Dialect) (ks : List Keyword) :
    s.namedItems d ks=ks.map fun k => (k.name,k.value,s.treeOf d k.value) := by
  induction ks with
  | nil => simp [namedItems]
  | cons k rest ih => cases k with | mk name value => simp [namedItems,ih,Keyword.name,Keyword.value]

theorem comparedTrees_eq (s : State) (d : Dialect) (cs : List Comparison) :
    s.comparedTrees d cs=cs.map fun c => (c.op,s.treeOf d c.right) := by
  induction cs with
  | nil => simp [comparedTrees]
  | cons c rest ih => cases c with | mk op right => simp [comparedTrees,ih,Comparison.op,Comparison.right]

end State

/-- The attributes of a planned call are its settings, however its arguments compile. -/
theorem attrsOf_eq_settings {d : Dialect} {run : Expr → Compile Ref} {line : Option Nat} {module : String} {args : List Expr}
    {keywords : List (Option String×Expr)} {plan : CallPlan}
    (h : planCall (callOf run line module args keywords)=.ok plan) (s : State) :
    s.attrsOf d (Text.lower module) plan=s.settings d module args keywords := by
  let skip (_ : Option Expr) : Compile Ref := Operand.missing.run
  have hwritten : planCall (callOf (fun _ => Operand.missing.run) none module args keywords)=.ok (plan.rerun skip) := by
    have hrerun := planCall_rerun (f := skip) (callOf run line module args keywords)
    rw [h] at hrerun
    simp only [ModuleCall.rerun,callOf,List.map_map] at hrerun
    exact hrerun
  rw [State.settings,hwritten]
  rfl

theorem State.attrsOf_congr {s t : State} (h : t.nameTypes=s.nameTypes) (d : Dialect) (word : String) (plan : CallPlan) :
    t.attrsOf d word plan=s.attrsOf d word plan := by
  simp only [State.attrsOf,State.typeNow,h]

end ChipForge.Wiring
