import ChipForge.Wiring.Compiler.Constant

/-! Calls of modules: a call adds a node, reads settings off its arguments and connects the other arguments. -/
namespace ChipForge.Wiring
open Script

/-- An argument: what was written, if anything, and the step that compiles it. -/
structure Operand where
  expr : Option Expr
  run : Compile Ref

def Operand.open : Operand := ⟨some (.const .none),throw (.unsupported "None")⟩

def Operand.missing : Operand := ⟨none,throw (.unsupported "None")⟩

def Operand.isOpen (o : Operand) : Bool :=
  match o.expr with
  | some (.const .none) => true
  | _ => false

/-- An argument with its keyword, if it has one. -/
structure NamedOperand where
  name : Option String
  operand : Operand

structure ModuleCall where
  line : Option Nat
  module : String
  args : List Operand
  keywords : List NamedOperand

/-- What the arguments of a call say. -/
structure CallPlan where
  attrs : List (Literal×Literal)
  id : Option String
  label : Option String
  ports : List (String×Operand)
  shown : Option Expr

def setting? (o : Operand) : Option Literal :=
  match o.expr.bind Literal.ofExpr? with
  | some .none => none
  | some v => some v
  | none =>
    match o.expr with
    | some (.name id) => if (GateType.ofName? id).isSome then some (.str id) else none
    | _ => none

def requireSetting (module text : String) (o : Operand) : Except Issue Literal :=
  match setting? o with
  | some v => .ok v
  | none => .error (.badArgument module text)

def inputSettings (module : String) : List Operand→Except Issue (List (Literal×Literal))
  | [] => .ok []
  | [a] => do
    let name ← requireSetting module "INPUT positional arg #1 (name) must be a literal" a
    pure [(.str "name",name)]
  | [a,b] => do
    let name ← requireSetting module "INPUT positional arg #1 (name) must be a literal" a
    let type ← requireSetting module "INPUT positional arg #2 (data_type) must be a literal" b
    pure [(.str "name",name),(.str "data_type",type)]
  | _ => .error (.badArgument module "INPUT(...) supports at most 2 positional args: INPUT(name, [data_type])")

def outputSettings (module : String) : List Operand→Except Issue (List (Literal×Literal))
  | [] => .ok []
  | [a] => do
    let name ← requireSetting module "OUTPUT positional arg #2 (name) must be a literal" a
    pure [(.str "name",name)]
  | a::b::_ => do
    let name ← requireSetting module "OUTPUT positional arg #2 (name) must be a literal" a
    let type ← requireSetting module "OUTPUT positional arg #3 (data_type) must be a literal" b
    pure [(.str "name",name),(.str "data_type",type)]

def hasKeyword (word : String) (keywords : List NamedOperand) : Bool :=
  keywords.any fun k => Text.lower (k.name.getD "") == word

/-- Arguments without keyword: settings of inputs and outputs, ports by number elsewhere. -/
def planArgs (call : ModuleCall) (word : String) : Except Issue CallPlan :=
  if word == "input" then do
    let attrs ← inputSettings call.module call.args
    pure ⟨attrs,none,none,[],none⟩
  else if word == "output" then
    if call.args.length > 3 then
      .error (.badArgument call.module
        "OUTPUT(...) supports at most 3 positional args: OUTPUT(value, [name], [data_type])")
    else
      match call.args with
      | [] => .ok ⟨[],none,none,[],none⟩
      | value::rest =>
        if hasKeyword "input" call.keywords then
          .error (.badArgument call.module "OUTPUT input cannot be provided both positionally and via INPUT=...")
        else do
          let attrs ← outputSettings call.module rest
          pure ⟨attrs,none,none,[("0",value)],value.expr⟩
  else .ok ⟨[],none,none,call.args.zipIdx.map fun (o,i) => (toString i,o),none⟩

def textOf? (o : Operand) : Option String :=
  match o.expr with
  | some (.const (.str s _)) => some s
  | _ => none

def entriesOf (o : Operand) : List (Literal×Literal) :=
  match o.expr.bind Literal.ofExpr? with
  | some (.dict entries) => entries
  | _ => []

def planKeyword (module word : String) (plan : CallPlan) (k : NamedOperand) : Except Issue CallPlan :=
  match k.name with
  | none => .ok plan
  | some key =>
    if key == "attrs" then .ok { plan with attrs := entriesOf k.operand }
    else if key == "id" then .ok { plan with id := (textOf? k.operand).orElse fun _ => plan.id }
    else if key == "label" then .ok { plan with label := (textOf? k.operand).orElse fun _ => plan.label }
    else if (word == "input" || word == "output") && (key == "name" || key == "data_type" || key == "datatype") then do
      let v ← requireSetting module
        (module ++ "." ++ key ++ " must be a literal (e.g. name=\"...\", data_type=\"Number\")") k.operand
      pure { plan with attrs := setAttr plan.attrs key v }
    else
      let shown := if word == "output" && Text.lower key == "input" then k.operand.expr else plan.shown
      .ok { plan with ports := plan.ports++[(key,k.operand)], shown := shown }

def planKeywords (module word : String) : CallPlan→List NamedOperand→Except Issue CallPlan
  | plan, [] => .ok plan
  | plan, k::rest => do
    let next ← planKeyword module word plan k
    planKeywords module word next rest

def planCall (call : ModuleCall) : Except Issue CallPlan := do
  let word := Text.lower call.module
  let plan ← planArgs call word
  planKeywords call.module word plan call.keywords

/-- An output takes the type of what it shows unless it names one. -/
def completeType (d : Dialect) (word : String) (plan : CallPlan) : Compile (List (Literal×Literal)) := do
  match plan.shown with
  | some e =>
    if word == "output" && (attr? plan.attrs "data_type").isNone && (attr? plan.attrs "datatype").isNone then
      match ← typeIfAny d e with
      | some t => pure (setAttr plan.attrs "data_type" (.str t.name))
      | none => pure plan.attrs
    else pure plan.attrs
  | none => pure plan.attrs

/-- The id a call asks for if it is free, otherwise a new one. -/
def chooseId (g : Graph) (module : String) (asked : Option String) : String×Graph :=
  match asked.filter (fun id => !id.isEmpty && !g.used.contains id) with
  | some id => (id,g)
  | none => g.nextId module

def connectPorts (id : String) (line : Option Nat) : List (String×Operand) → Compile Unit
  | [] => pure ()
  | (port,o)::rest => do
    if !o.isOpen then
      let ref ← o.run
      modify fun s => s.connect ref id port line
    connectPorts id line rest

/-- Adds the node of a call. The node stands before those of its arguments. -/
def emitCall (d : Dialect) (call : ModuleCall) : Compile String := do
  let plan ← planCall call
  let attrs ← completeType d (Text.lower call.module) plan
  let s ← get
  let (id,graph) := chooseId s.graph call.module plan.id
  let place := graph.nodes.length
  let node : Node := ⟨id,call.module,plan.label.getD (autoLabel call.module attrs),attrs,[],[]⟩
  set ({ s with graph := graph.addNode node }.seeNode id)
  connectPorts id call.line plan.ports
  modify fun s => { s with graph := s.graph.updateAt place fun n => { n with inputs := plan.ports.map (·.1) } }
  pure id

def emitModule (d : Dialect) (module : String) (ports : List (String×Operand)) : Compile String :=
  emitCall d ⟨none,module,[],ports.map fun (port,o) => ⟨some port,o⟩⟩

def emitOpen (d : Dialect) (module : String) (ports : List String) : Compile String :=
  emitModule d module (ports.map fun port => (port,Operand.open))

def emitWired (d : Dialect) (module : String) (wires : List (String×Ref)) (line : Option Nat) : Compile Ref := do
  let id ← emitOpen d module (wires.map (·.1))
  modify fun s => wires.foldl (fun s (port,ref) => s.connect ref id port line) s
  pure (.node id autoPort)

end ChipForge.Wiring
