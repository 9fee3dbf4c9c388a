import ChipForge.Wiring.Compiler.Declaration

/-! Assignments: a name comes to stand for the value of an expression. The first node a name stands for stays. -/
namespace ChipForge.Wiring
open Script

def valueSetting? (keywords : List Keyword) : Option Literal :=
  match keywords.find? (fun k => k.name == some "Value") with
  | some k =>
    match Literal.ofExpr? k.value with
    | some .none => none
    | other => other
  | none => none

def variableType (v : Literal) : GateType :=
  if v.isNumber then .number
  else if v.isStr then .string
  else if v.isVector then .vector
  else .number

def defineCalled (name : String) (keywords : List Keyword) : Compile Unit := do
  let s ← get
  if !s.graph.definitions.any (·.key == name) then
    match valueSetting? keywords with
    | some v => addVariable ⟨name,(variableType v).name,v,some name⟩
    | none => pure ()
  modify fun s =>
    match s.nodeOf.find name with
    | some id => s.setAttrNew id "dsl_name" (.str name)
    | none => s

/-- Feeds an input into a name that is already defined, which must be a variable. -/
def feedVariable (d : Dialect) (line : Nat) (name : String) (ref : Ref) : Compile Unit := do
  let s ← get
  match s.nodeOf.find name with
  | some id =>
    if (s.graph.lastNode? id).any (fun n => Text.lower n.type == "variable") then
      modify fun s => s.connect ref id "Value" (some line)
      let trigger ← alwaysOn d
      modify fun s => (s.connect trigger id "Set" (some line)).markWritten name
    else throw (.inputTaken name line)
  | none => throw (.inputTaken name line)

def assignCall (d : Dialect) (line : Nat) (name : String) (call fn : Expr) (keywords : List Keyword) :
    Compile Unit := do
  let ref ← emitExpr d call
  let t ← typeIfAny d call
  match ref with
  | .node id _ =>
    let s ← get
    if isInputCall call && s.nodeOf.has name then feedVariable d line name ref
    else
      modify fun s => s.bindNew name id
      rememberType name t (some id)
      if Text.latinUpper (calledName fn) == "VARIABLE" then defineCalled name keywords
  | .name _ _ => pure ()

def assignPort (d : Dialect) (name : String) (value slice : Expr) : Compile Unit :=
  match (Literal.ofExpr? slice).bind portText? with
  | none => pure ()
  | some port =>
    match value with
    | .name up => modify fun s => { s with aliases := s.aliases.put name (up,port) }
    | .call _ _ _ _ => do
      match ← emitExpr d value with
      | .node id _ =>
        modify fun s =>
          let s := s.bindNew name id
          { s with aliases := s.aliases.put name (name,port) }
      | .name _ _ => pure ()
    | _ => pure ()

/-- The value of an expression, or nothing if it misuses an operation. -/
def emitOrSkip (d : Dialect) (e : Expr) : Compile (Option Ref) :=
  tryCatch (some <$> emitExpr d e) fun issue => if issue.isMisuse then pure none else throw issue

def assignValue (d : Dialect) (name : String) (value : Expr) : Compile Unit := do
  match ← emitOrSkip d value with
  | none => pure ()
  | some (.node id _) =>
    modify fun s => s.bindNew name id
    let t ← typeIfAny d value
    rememberType name t (some id)
  | some (.name up port) =>
    modify fun s =>
      let s := { s with aliases := s.aliases.put name (up,port) }
      match s.nodeOf.find up with
      | some id => s.bindNew name id
      | none => s
    let s ← get
    rememberType name (s.nameTypes.find up) (s.nodeOf.find name)

def isScalar (v : Literal) : Bool := v.isNumber || v.isStr || v.isVector

def assignOther (d : Dialect) (name : String) (value : Expr) : Compile Unit := do
  let literal := Literal.ofExpr? value
  match literal.filter isDefinition with
  | some v => defineFrom d v (some name)
  | none =>
    match literal.filter isScalar with
    | some v =>
      let id ← emitConstant d v none
      modify fun s => s.bindNew name id
      let t ← typeIfAny d value
      rememberType name t (some id)
    | none => assignValue d name value

def compileAssign (d : Dialect) (line : Nat) (targets : List Expr) (value : Expr) : Compile Unit := do
  match targets with
  | [.name name] =>
    let s ← get
    if s.guarded && s.inGuard && s.declares name then
      let target : Operand := ⟨some (.name name),emitExpr d (.name name)⟩
      discard (emitWrite d none [target,⟨some value,emitExpr d value⟩] [])
    else
      match value with
      | .call _ fn _ keywords => assignCall d line name value fn keywords
      | .subscript inner slice => assignPort d name inner slice
      | _ => assignOther d name value
  | _ => pure ()

end ChipForge.Wiring
