import ChipForge.Proofs.Parts
import ChipForge.Proofs.Ports
import ChipForge.Proofs.Sound

/-! What the functions that make single nodes and constants do to the state, and the arguments that an expression hands
to them. -/
namespace ChipForge.Wiring
open Script List

variable {module : String} {line : Option Nat} {args : List Operand} {keywords : List NamedOperand} {call : ModuleCall}
  {ports : List (String×Operand)} {d : Dialect} {plan : CallPlan} {x : String}

def State.typeNow (s : State) (d : Dialect) (e : Expr) : Option GateType :=
  if d.choices then ((typeOfExpr ⟨s.nameTypes,d.outputs⟩ e).toOption).join else none

theorem outcome_typeIfAny (d : Dialect) (e : Expr) (s : State) : outcome (typeIfAny d e) s=(.ok (s.typeNow d e),s) := by
  rw [typeIfAny,outcome_get_bind,State.typeNow]
  split_ifs
  · cases typeOfExpr ⟨s.nameTypes,d.outputs⟩ e <;> rfl
  · rfl

theorem typeIfAny_reads (d : Dialect) (e : Expr) : Reads (typeIfAny d e) := fun s => by
  rw [outcome_typeIfAny]

theorem typeOf_reads (d : Dialect) (e : Expr) : Reads (typeOf d e) := by
  intro s
  rw [typeOf,outcome_get_bind]
  cases typeOfExpr ⟨s.nameTypes,d.outputs⟩ e <;> rfl

theorem mergedType_reads (left right target : Option GateType) (line : Nat) :
    Reads (mergedType left right target line) := by
  intro s
  unfold mergedType
  cases mergeTypes left right target (some line) <;> rfl

theorem subscriptPort_reads (slice : Expr) : Reads (subscriptPort slice) := by
  intro s
  unfold subscriptPort
  cases Literal.ofExpr slice <;> rfl

theorem checkWritable_reads (name : String) (line : Option Nat) : Reads (checkWritable name line) := by
  intro s
  rw [checkWritable,outcome_get_bind]
  cases s.aliases.has name <;> cases s.nodeOf.has name <;> cases s.written.contains name <;> rfl

def State.attrsOf (s : State) (d : Dialect) (word : String) (plan : CallPlan) : Attrs :=
  match plan.shown with
  | some e =>
    if word == "output" && (attr? plan.attrs "data_type").isNone && (attr? plan.attrs "datatype").isNone then
      match s.typeNow d e with
      | some t => setAttr plan.attrs "data_type" (.str t.name)
      | none => plan.attrs
    else plan.attrs
  | none => plan.attrs

theorem outcome_completeType (d : Dialect) (word : String) (plan : CallPlan) (s : State) :
    outcome (completeType d word plan) s=(.ok (s.attrsOf d word plan),s) := by
  unfold completeType State.attrsOf
  cases plan.shown with
  | none => rfl
  | some e =>
    dsimp only
    split_ifs
    · rw [outcome_bind_ok (outcome_typeIfAny d e s)]
      cases s.typeNow d e <;> rfl
    · rfl

def State.place (s : State) (module : String) (plan : CallPlan) (attrs : Attrs) : String×State :=
  let chosen := chooseId s.graph module plan.id
  let node : Node := ⟨chosen.1,module,plan.label.getD (autoLabel module attrs),attrs,[],[]⟩
  (chosen.1,{ s with graph := chosen.2.addNode node }.seeNode chosen.1)

theorem chooseId_cases (g : Graph) (module : String) (asked : Option String) :
    (∃ id, asked=some id ∧ id∉g.used ∧ chooseId g module asked=(id,g)) ∨ chooseId g module asked=g.nextId module := by
  unfold chooseId
  cases h : asked.filter fun id => !id.isEmpty && !g.used.contains id with
  | none => exact .inr rfl
  | some id =>
    obtain ⟨hasked,hfree⟩ := Option.filter_eq_some_iff.1 h
    simp only [Bool.and_eq_true,Bool.not_eq_true',contains_eq_mem,decide_eq_false_iff_not] at hfree
    exact .inl ⟨id,hasked,hfree.2,rfl⟩

theorem chooseId_nodes (g : Graph) (module : String) (asked : Option String) :
    (chooseId g module asked).2.nodes=g.nodes := by
  rcases chooseId_cases g module asked with ⟨id,-,-,h⟩ | h <;> rw [h]
  rfl

/-- A call plans, places its node, connects its arguments and then lists its ports. -/
theorem outcome_emitCall (hplan : planCall call=.ok plan) (s : State) :
    outcome (emitCall d call) s =
      outcome (do
        connectPorts (s.place call.module plan (s.attrsOf d (Text.lower call.module) plan)).1 call.line plan.ports
        modify fun t => t.setInputs s.graph.nodes.length (plan.ports.map (·.1))
        pure (s.place call.module plan (s.attrsOf d (Text.lower call.module) plan)).1)
      (s.place call.module plan (s.attrsOf d (Text.lower call.module) plan)).2 := by
  rw [emitCall,hplan,← chooseId_nodes s.graph call.module plan.id,
    outcome_bind_ok (outcome_lift (.ok plan) s),outcome_bind_ok (outcome_completeType d _ plan s),
    outcome_get_bind]
  rfl

theorem outcome_emitCall_error {issue : Issue} (hplan : planCall call=.error issue) (s : State) :
    outcome (emitCall d call) s=(.error issue,s) := by
  rw [emitCall,hplan]
  rfl

theorem outcome_addConstant (v : Literal) (t : Option GateType) (s : State) :
    outcome (addConstant v t) s=(.ok (s.graph.nextId "Constant").1,s.drawConstant v t) := by
  cases t <;> rfl

/-- A constant is found, or a new one is made, which is held where constants are shared. -/
theorem outcome_emitConstant (d : Dialect) (v : Literal) (t : Option GateType) (s : State) :
    (d.sharing=true ∧ ∃ id, s.shared.find (constantKey v t)=some id ∧ id∈s.graph.ids ∧
      outcome (emitConstant d v t) s=(.ok id,s)) ∨
    (d.sharing=true ∧ (∀ id, s.shared.find (constantKey v t)=some id → id∉s.graph.ids) ∧
      outcome (emitConstant d v t) s=(.ok (s.graph.nextId "Constant").1,s.hold v t)) ∨
    d.sharing=false ∧ outcome (emitConstant d v t) s=(.ok (s.graph.nextId "Constant").1,s.drawConstant v t) := by
  cases hd : d.sharing with
  | false =>
    refine .inr (.inr ⟨rfl,?_⟩)
    rw [emitConstant,hd,if_pos (by decide),outcome_addConstant]
  | true =>
    rw [emitConstant,hd,if_neg (by decide),outcome_get_bind]
    cases hfound : (s.shared.find (constantKey v t)).filter s.graph.hasNode with
    | some id =>
      obtain ⟨hkey,hnode⟩ := Option.filter_eq_some_iff.1 hfound
      exact .inl ⟨rfl,id,hkey,(s.graph.hasNode_iff id).1 hnode,rfl⟩
    | none =>
      dsimp only
      rw [outcome_bind_ok (outcome_addConstant v t s)]
      refine .inr (.inl ⟨rfl,fun id hkey hid => ?_,rfl⟩)
      exact Option.filter_eq_none_iff.1 hfound id hkey ((s.graph.hasNode_iff id).2 hid)

theorem connectPorts_cons (id : String) (line : Option Nat) (port : String) (o : Operand)
    (rest : List (String×Operand)) :
    connectPorts id line ((port,o)::rest) =
      if o.isOpen then connectPorts id line rest
      else (do
        let ref ← o.run
        modify fun s => s.connect ref id port line
        connectPorts id line rest) := by
  cases h : o.isOpen <;> simp [connectPorts,h]

def leavesOpen : Expr→Bool
  | .const .none => true
  | _ => false

def operandOf (run : Expr → Compile Ref) (e : Expr) : Operand := ⟨some e,run e⟩

def Keyword.pair (k : Keyword) : Option String×Expr := (k.name,k.value)

theorem operandOf_isOpen (run : Expr → Compile Ref) (e : Expr) : (operandOf run e).isOpen=leavesOpen e := by
  unfold Operand.isOpen leavesOpen operandOf
  split <;> split <;> simp_all

theorem operands_eq (d : Dialect) (es : List Expr) : operands d es=es.map fun e => ⟨some e,emitExpr d e⟩ := by
  induction es with
  | nil => simp [operands]
  | cons e rest ih => simp [operands,ih]

theorem namedOperands_eq (d : Dialect) (ks : List Keyword) :
    namedOperands d ks=ks.map fun k => ⟨k.name,some k.value,emitExpr d k.value⟩ := by
  induction ks with
  | nil => simp [namedOperands]
  | cons k rest ih => cases k with | mk name value => simp [namedOperands,ih,Keyword.name,Keyword.value]

theorem namedOperands_pair (d : Dialect) (ks : List Keyword) : (namedOperands d ks).map NamedOperand.pair =
    (ks.map Keyword.pair).map (Prod.map id (operandOf (emitExpr d))) := by
  rw [namedOperands_eq,map_map,map_map]
  rfl

theorem comparisons_eq (d : Dialect) (cs : List Comparison) :
    comparisons d cs=cs.map fun c => (c.op,⟨some c.right,emitExpr d c.right⟩) := by
  induction cs with
  | nil => simp [comparisons]
  | cons c rest ih => cases c with | mk op right => simp [comparisons,ih,Comparison.op,Comparison.right]

theorem emitExpr_unary (d : Dialect) (line : Nat) (op : UnaryOp) (operand : Expr) :
    emitExpr d (.unary line op operand) =
      if op == .not && d.logic then (do
        let ref ← emitExpr d operand
        emitWired d "NOT" [("A",ref)] (some line))
      else
        constantOr d (.unary line op operand)
          (match op with
          | .minus => do
            let id ← emitModule d "Negate" [("Input",⟨some operand,emitExpr d operand⟩)]
            pure (.node id autoPort)
          | .plus => emitExpr d operand
          | _ => throw (.misuse "unsupported unary operator")) := by
  cases op <;> simp only [emitExpr]

theorem idText?_of_textOf? {k : Keyword} {run : Compile Ref} (hname : k.name=some "id")
    (htext : textOf? ⟨some k.value,run⟩=some x) : k.idText?=some x := by
  rw [Keyword.idText?,if_pos hname]
  unfold textOf? at htext
  split at htext
  · rename_i s marked hvalue
    rw [Option.some.inj hvalue]
    exact htext
  · cases htext

theorem mem_ownIds_of_planCall {ks : List Keyword} {n : Nat} {fn : Expr} {es : List Expr}
    (hplan : planCall ⟨line,module,args,namedOperands d ks⟩=.ok plan) (hx : plan.id=some x) :
    x∈(Expr.call n fn es ks).ownIds := by
  obtain ⟨k,hk,hname,htext⟩ := planCall_id hplan hx
  rw [namedOperands_eq] at hk
  obtain ⟨keyword,hkeyword,rfl⟩ := mem_map.1 hk
  exact mem_filterMap.2 ⟨keyword,hkeyword,idText?_of_textOf? hname htext⟩

end ChipForge.Wiring
