import ChipForge.Wiring.Compiler.Arithmetic

/-! Compilation of expressions: every expression adds the nodes it needs and yields a reference to its value. -/
namespace ChipForge.Wiring
open Script

structure WriteArgs where
  target : Operand
  value : Operand
  trigger : Option Operand

/-- The keyword of a write may give the trigger. -/
def writeKeywords : WriteArgs→List NamedOperand→Except Issue WriteArgs
  | w, [] => .ok w
  | w, k::rest =>
    match k.name with
    | none => writeKeywords w rest
    | some name =>
      if Text.lower name == "trigger" then writeKeywords { w with trigger := some k.operand } rest
      else .error (.setKeyword name)

def writeArgs (args : List Operand) (keywords : List NamedOperand) : Except Issue WriteArgs :=
  match args with
  | [target,value] => writeKeywords ⟨target,value,none⟩ keywords
  | [target,value,trigger] => writeKeywords ⟨target,value,some trigger⟩ keywords
  | _ => .error (if args.length < 2 then .setTooShort else .setTooLong)

/-- A variable that may be written to: declared, no alias and not written yet. -/
def checkWritable (name : String) (line : Option Nat) : Compile Unit := do
  let s ← get
  if s.aliases.has name then throw (.setAlias name)
  if !s.nodeOf.has name then throw (.setUndeclared name line)
  if s.written.contains name then throw (.setTwice name line)

def emitVariable (d : Dialect) (name : String) : Compile String := do
  let id ← emitOpen d "VARIABLE" ["Value","Set"]
  modify fun s => s.setAttrNew id "dsl_name" (.str name)
  pure id

def alwaysOn (d : Dialect) : Compile Ref := do
  let id ← emitConstant d (.float 1.0) none
  pure (.node id "Output")

def emitWrite (d : Dialect) (line : Option Nat) (args : List Operand) (keywords : List NamedOperand) : Compile Ref := do
  let w ← writeArgs args keywords
  match w.target.expr with
  | some (.name name) =>
    checkWritable name none
    let id ← emitVariable d name
    let value ← w.value.run
    modify fun s => s.connect value id "Value" line
    let trigger ← match w.trigger with
      | some o => o.run
      | none => alwaysOn d
    modify fun s => (s.connect trigger id "Set" line).markWritten name
    pure (.node id autoPort)
  | _ => throw .setTarget

def emitWriteRef (d : Dialect) (name : String) (value : Ref) (line : Nat) : Compile Unit := do
  checkWritable name (some line)
  let id ← emitVariable d name
  modify fun s => s.connect value id "Value" (some line)
  let trigger ← alwaysOn d
  modify fun s => (s.connect trigger id "Set" (some line)).markWritten name

def subscriptPort (slice : Expr) : Compile Literal :=
  match Literal.ofExpr slice with
  | .ok v => pure v
  | .error why => throw (.badLiteral why)

def portText? : Literal→Option String
  | .str s => some s
  | .int n => some (toString n)
  | .bool b => some (Literal.bool b).plain
  | _ => none

def isConstant (v : Literal) : Bool := v.isNumber || v.isStr || v.isSequence || v.isVector

def unsupported (e : Expr) : Compile Ref := throw (.unsupported (e.print?.getD ""))

/-- The constant of a literal, or else what another step gives. -/
def constantOr (d : Dialect) (e : Expr) (otherwise : Compile Ref) : Compile Ref :=
  match (Literal.ofExpr? e).filter isConstant with
  | some v => do
    let id ← emitConstant d v none
    pure (.node id "Output")
  | none => otherwise

def joinLogic (d : Dialect) (module : String) (line : Nat) : Ref→List Operand → Compile Ref
  | acc, [] => pure acc
  | acc, o::rest => do
    let right ← o.run
    let next ← emitWired d module [("A",acc),("B",right)] (some line)
    joinLogic d module line next rest

def logicModule : BoolOp→String
  | .and => "AND"
  | .or => "OR"

/-- Comparisons of neighbours in a row of operands; inner operands are compiled for each side. -/
def compareEach (d : Dialect) (line : Nat) : Operand→List (CompareOp×Operand) → Compile (List Ref)
  | _, [] => pure []
  | left, (op,right)::rest => do
    let l ← left.run
    let r ← right.run
    let module ← comparisonModule op
    let first ← emitWired d module [("A",l),("B",r)] (some line)
    let others ← compareEach d line right rest
    pure (first::others)

def joinComparisons (d : Dialect) (line : Nat) : Ref→List Ref → Compile Ref
  | acc, [] => pure acc
  | acc, r::rest => do
    let next ← emitWired d "AND" [("A",acc),("B",r)] (some line)
    joinComparisons d line next rest

def emitChoice (d : Dialect) (test yes no : Ref) (t : GateType) (line : Option Nat) : Compile String := do
  let id ← emitOpen d "Branch" ["If","A","B"]
  modify fun s => (s.setAttrOf id "data_type" (.str t.name)).setNodeType id t
  modify fun s => ((s.connect test id "If" line).connect yes id "A" line).connect no id "B" line
  pure id

def mergedType (left right target : Option GateType) (line : Nat) : Compile (Option GateType) :=
  match mergeTypes left right target (some line) with
  | .ok t => pure t
  | .error clash => throw (.typeClash clash)

def emitWritten (d : Dialect) (line : Nat) (fn : Expr) (args : List Operand) (keywords : List NamedOperand) :
    Compile Ref := do
  let module := canonicalModule (calledName fn)
  if Text.lower module == "set" then emitWrite d (some line) args keywords
  else
    match Form.find? module with
    | some form =>
      let id ← form.emit d args keywords
      pure (.node id autoPort)
    | none =>
      let id ← emitCall d ⟨some line,module,args,keywords⟩
      pure (.node id autoPort)

def outputOf (ref : Ref) (port : String) : Ref :=
  match ref with
  | .node id _ => .node id port
  | .name id _ => .name id port

mutual

def emitExpr (d : Dialect) : Expr → Compile Ref
  | .name id => do
    let s ← get
    pure (s.refOfName id)
  | .subscript (.name id) slice => do
    let port ← subscriptPort slice
    match portText? port with
    | some text =>
      let s ← get
      pure (s.refOfPort id text)
    | none => throw (.portOfName id port.plain)
  | .subscript (.call line fn args keywords) slice => do
    let ref ← emitWritten d line fn (operands d args) (namedOperands d keywords)
    let port ← subscriptPort slice
    match portText? port with
    | some text => pure (outputOf ref text)
    | none =>
      match ref with
      | .node id _ => throw (.portOfNode id)
      | .name id _ => throw (.portOfNode id)
  | .boolOp line op values =>
    if d.logic then
      match operands d values with
      | [] => unsupported (.boolOp line op values)
      | first::rest => do
        let left ← first.run
        joinLogic d (logicModule op) line left rest
    else unsupported (.boolOp line op values)
  | .compare line left rest =>
    if d.logic then do
      let refs ← compareEach d line ⟨some left,emitExpr d left⟩ (comparisons d rest)
      match refs with
      | [] => unsupported (.compare line left rest)
      | first::others => joinComparisons d line first others
    else unsupported (.compare line left rest)
  | .cond line test body orelse =>
    if d.choices then do
      let testRef ← emitExpr d test
      let yes ← emitExpr d body
      let no ← emitExpr d orelse
      let bodyType ← typeOf d body
      let elseType ← typeOf d orelse
      match ← mergedType bodyType elseType none line with
      | none => throw (.untypedChoice line)
      | some t =>
        let id ← emitChoice d testRef yes no t (some line)
        pure (.node id autoPort)
    else unsupported (.cond line test body orelse)
  | .unary line op operand =>
    if op == .not && d.logic then do
      let ref ← emitExpr d operand
      emitWired d "NOT" [("A",ref)] (some line)
    else
      constantOr d (.unary line op operand) <|
        match op with
        | .minus => do
          let id ← emitModule d "Negate" [("Input",⟨some operand,emitExpr d operand⟩)]
          pure (.node id autoPort)
        | .plus => emitExpr d operand
        | _ => throw (.misuse "unsupported unary operator")
  | .binary left op right =>
    constantOr d (.binary left op right) do
      let (module,a,b) ← operatorForm op (literalKind? left) (literalKind? right)
      let id ← emitModule d module [(a,⟨some left,emitExpr d left⟩),(b,⟨some right,emitExpr d right⟩)]
      pure (.node id autoPort)
  | .call line fn args keywords => emitWritten d line fn (operands d args) (namedOperands d keywords)
  | e => constantOr d e (unsupported e)

def operands (d : Dialect) : List Expr→List Operand
  | [] => []
  | e::rest => ⟨some e,emitExpr d e⟩::operands d rest

def namedOperands (d : Dialect) : List Keyword→List NamedOperand
  | [] => []
  | .mk name value::rest => ⟨name,⟨some value,emitExpr d value⟩⟩::namedOperands d rest

def comparisons (d : Dialect) : List Comparison→List (CompareOp×Operand)
  | [] => []
  | .mk op right::rest => (op,⟨some right,emitExpr d right⟩)::comparisons d rest

end

end ChipForge.Wiring
