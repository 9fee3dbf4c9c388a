import ChipForge.Wiring.Compiler.Branch

/-! Compilation of whole scripts: statements in order, then references to names defined later, then the list of outputs
of every node. -/
namespace ChipForge.Wiring
open Script

def compileExprStmt (d : Dialect) (value : Expr) : Compile Unit := do
  match (Literal.ofExpr? value).filter isDefinition with
  | some v => defineFrom d v none
  | none =>
    match value with
    | .call _ _ _ _ => discard (emitExpr d value)
    | _ => pure ()

mutual

def compileStmt (d : Dialect) : Stmt → Compile Unit
  | .assign line targets value => compileAssign d line targets value
  | .declare line target typeNote value => compileDeclare d line target typeNote value
  | .expr _ value => compileExprStmt d value
  | .ifElse line test body orelse =>
    if d.choices && !isGuardTest test then compileIf d line test body orelse
    else do
      compileStmts d body
      compileStmts d orelse
  | .block _ _ body => compileStmts d body
  | .pass _ => pure ()
  | .imports _ => pure ()
  | .other _ => pure ()

def compileStmts (d : Dialect) : List Stmt → Compile Unit
  | [] => pure ()
  | stmt::rest => do
    compileStmt d stmt
    compileStmts d rest

end

structure MainBlock where
  line : Nat
  body : List Stmt
  orelse : List Stmt

def mainBlock? : Stmt→Option MainBlock
  | .ifElse line test body orelse => if isGuardTest test then some ⟨line,body,orelse⟩ else none
  | _ => none

def isSilent : Stmt→Bool
  | .expr _ (.const (.str _ _)) => true
  | .imports _ => true
  | .pass _ => true
  | _ => false

def isDeclaration : Stmt→Bool
  | .declare _ _ _ _ => true
  | .assign _ [.name _] value => isInputCall value
  | .expr _ value => (Literal.ofExpr? value).any isDefinition
  | _ => false

def compileBeside (d : Dialect) : List Stmt → Compile Unit
  | [] => pure ()
  | stmt::rest => do
    if (mainBlock? stmt).isSome || isSilent stmt then pure ()
    else if isDeclaration stmt then compileStmt d stmt
    else throw (.strayStatement stmt.line)
    compileBeside d rest

def isFlow : Stmt→Bool
  | .block _ kind _ => kind != .other
  | _ => false

def compileMain (d : Dialect) : List Stmt → Compile Unit
  | [] => pure ()
  | stmt::rest => do
    if isFlow stmt then throw (.guardFlow stmt.line)
    compileStmt d stmt
    compileMain d rest

def compileScript (d : Dialect) (stmts : List Stmt) : Compile Unit := do
  match stmts.filterMap mainBlock? with
  | [] => compileStmts d stmts
  | _ :: second::_ => throw (.secondGuard second.line)
  | [main] =>
    modify fun s => { s with guarded := true }
    compileBeside d stmts
    if !main.orelse.isEmpty then throw (.guardElse main.line)
    modify fun s => { s with inGuard := true }
    compileMain d main.body
    modify fun s => { s with inGuard := false }

def resolveEach : List Pending → Compile Unit
  | [] => pure ()
  | p::rest => do
    let s ← get
    match s.nodeOf.find p.name with
    | some id =>
      modify fun s => s.addEdge ⟨id,p.port,p.toNode,p.toPort,p.line⟩
      resolveEach rest
    | none => throw (.undefinedName p.name p.toNode p.toPort p.line)

def resolvePending : Compile Unit := do
  resolveEach (← get).pending
  modify fun s => { s with pending := [] }

def sortedPorts (ports : List String) : List String := ports.mergeSort fun a b => !(b < a)

def listOutputs : Compile Unit :=
  modify fun s =>
    { s with graph := s.outputs.toList.foldl (fun g (id,ports) =>
        g.updateLast id fun n => { n with outputs := sortedPorts ports }) s.graph }

def compileProgram (d : Dialect) (stmts : List Stmt) : Compile Graph := do
  compileScript d stmts
  resolvePending
  listOutputs
  pure (← get).graph

def graphOf (d : Dialect) (stmts : List Stmt) : Except Issue Graph := ((compileProgram d stmts).run State.initial).1

end ChipForge.Wiring
