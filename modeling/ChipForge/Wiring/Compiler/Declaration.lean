import ChipForge.Wiring.Compiler.Expression

/-! Declarations: types written after a name, definitions of variables and of inputs. -/
namespace ChipForge.Wiring
open Script

/-- A dotted name, or its last parts if it does not start with a name. -/
def chainName? : Expr→Option String
  | .name id => some id
  | .attribute value attr =>
    match chainName? value with
    | some base => some (base ++ "." ++ attr)
    | none => some attr
  | _ => none

def lastWord (e : Expr) : String := Text.lower (Text.lastPart ((chainName? e).getD "") ".")

/-- The type a declaration names, and whether it is of a constant. -/
def declaredType : Expr→Option GateType×Bool
  | .subscript value slice =>
    let word := lastWord value
    if word == "final" then ((declaredType slice).1,true)
    else if word == "list" then ((declaredType slice).1.bind GateType.arrayOf?,false)
    else (none,false)
  | e => (GateType.ofWord? GateType.words (lastWord e),false)

def isInputCall : Expr→Bool
  | .call _ fn _ _ => Text.lower (canonicalModule (calledName fn)) == "input"
  | _ => false

def isDefinition (v : Literal) : Bool := v.hasKeys ["Key","GateDataType","Value"]

def isGuardTest : Expr→Bool
  | .compare _ left [.mk .eq right] =>
    match left, right with
    | .name "__name__", .const (.str "__main__" _) => true
    | .const (.str "__main__" _), .name "__name__" => true
    | _, _ => false
  | _ => false

def addVariable (v : VariableDef) : Compile Unit :=
  modify fun s => { s with graph := { s.graph with definitions := s.graph.definitions++[v] } }

/-- Defines a variable, and the node that reads it if a name stands for it. -/
def defineVariable (d : Dialect) (key gateType : String) (value : Literal) (name : Option String) : Compile Unit := do
  addVariable ⟨key,gateType,value,name⟩
  match name with
  | none => pure ()
  | some name =>
    let id ← emitVariable d name
    modify fun s => s.bindNew name id

/-- Defines a variable from a table; a table without text for key and type defines none. -/
def defineFrom (d : Dialect) (table : Literal) (name : Option String) : Compile Unit :=
  match table.get? "Key", table.get? "GateDataType" with
  | some (.str key), some (.str gateType) => defineVariable d key gateType ((table.get? "Value").getD .none) name
  | _, _ => pure ()

def initialValue (name : String) (line : Nat) (t : GateType) (value : Option Expr) : Except Issue Literal :=
  match value with
  | none => .ok (if t.isArray then .list [] else .none)
  | some e =>
    match Literal.ofExpr e with
    | .ok v => .ok v
    | .error why => .error (.declaredValue name line why)

def bindDeclared (name id : String) (t : GateType) : Compile Unit :=
  modify fun s => ((s.bindNew name id).setNameType name t).setNodeType id t

def compileDeclaration (d : Dialect) (line : Nat) (name : String) (t : GateType) (isFinal : Bool)
    (value : Option Expr) : Compile Unit := do
  match value with
  | some e =>
    if isInputCall e then
      match ← emitExpr d e with
      | .node id _ => return (← bindDeclared name id t)
      | .name _ _ => pure ()
  | none => pure ()
  let v ← initialValue name line t value
  if isFinal then
    if value.isNone then throw (.finalWithoutValue name line)
    let id ← emitConstant d v none
    bindDeclared name id t
  else
    let s ← get
    if s.graph.definitions.any (·.key == name) then throw (.declaredTwice name line)
    defineVariable d name t.name v (some name)
    modify fun s => s.setNameType name t

def compileDeclare (d : Dialect) (line : Nat) (target typeNote : Expr) (value : Option Expr) : Compile Unit := do
  match target with
  | .name name =>
    match declaredType typeNote with
    | (some t,isFinal) => compileDeclaration d line name t isFinal value
    | (none,_) => throw (.declaredType name line)
  | _ => throw (.declaredTarget line)

end ChipForge.Wiring
