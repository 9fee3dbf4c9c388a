import ChipForge.Wiring.Compiler.Assignment

/-! Statements that choose between two rows of assignments. Both rows start from the same names; afterwards each name
assigned in either row stands for a choice between its two values. -/
namespace ChipForge.Wiring
open Script

structure Scope where
  nodeOf : Table String
  aliases : Table (String×String)
  nameTypes : Table GateType

def State.scope (s : State) : Scope := ⟨s.nodeOf,s.aliases,s.nameTypes⟩

def State.withScope (s : State) (scope : Scope) : State :=
  { s with nodeOf := scope.nodeOf, aliases := scope.aliases, nameTypes := scope.nameTypes }

/-- An assignment of a branch, with the line it stands on. -/
structure BranchLine where
  name : String
  value : Expr

/-- The assignments of a branch; nothing but assignments to different names is allowed. -/
def branchLines (seen : List String) : List Stmt→Except Issue (List BranchLine)
  | [] => .ok []
  | .pass _ :: rest => branchLines seen rest
  | .assign line [.name name] value::rest =>
    if seen.contains name then .error (.branchTwice name line)
    else do
      let others ← branchLines (name::seen) rest
      pure (⟨name,value⟩::others)
  | stmt::_ => .error (.branchStatement stmt.line)

/-- The value a branch gives to a name. -/
structure BranchValue where
  name : String
  ref : Ref
  type : Option GateType

def State.bindBranch (s : State) (name : String) (ref : Ref) (t : Option GateType) : State :=
  match ref with
  | .node id _ =>
    let s := { s with nodeOf := s.nodeOf.put name id, aliases := s.aliases.drop name }
    match t with
    | some t => (s.setNameType name t).setNodeType id t
    | none => s
  | .name up port =>
    let s := { s with aliases := s.aliases.put name (up,port) }
    let s := match s.nodeOf.find up with
      | some id => { s with nodeOf := s.nodeOf.put name id }
      | none => { s with nodeOf := s.nodeOf.drop name }
    match t.orElse fun _ => s.nameTypes.find up with
    | some t =>
      let s := s.setNameType name t
      match s.nodeOf.find name with
      | some id => s.setNodeType id t
      | none => s
    | none => s

def compileLines (d : Dialect) : List BranchLine → Compile (List BranchValue)
  | [] => pure []
  | line::rest => do
    let t ← typeOf d line.value
    let ref ← emitExpr d line.value
    modify fun s => s.bindBranch line.name ref t
    let others ← compileLines d rest
    pure (⟨line.name,ref,t⟩::others)

def compileBranch (d : Dialect) (scope : Scope) (stmts : List Stmt) : Compile (List BranchValue) := do
  modify fun s => s.withScope scope
  let lines ← branchLines [] stmts
  compileLines d lines

def valueOrEmpty (d : Dialect) (t : GateType) : Option BranchValue → Compile Ref
  | some v => pure v.ref
  | none => do
    let id ← emitConstant d (emptyLiteral t.name) (some t)
    modify fun s => s.setNodeType id t
    pure (.node id "Output")

def mergeName (d : Dialect) (line : Nat) (test : Ref) (yes no : Option BranchValue) (name : String) : Compile Unit := do
  let s ← get
  match ← mergedType (yes.bind (·.type)) (no.bind (·.type)) (s.nameTypes.find name) line with
  | none => throw (.untypedMerge name line)
  | some t =>
    let a ← valueOrEmpty d t yes
    let b ← valueOrEmpty d t no
    let id ← emitChoice d test a b t (some line)
    let s ← get
    if s.declares name && s.guarded && s.inGuard then emitWriteRef d name (.node id autoPort) line
    else modify fun s => ({ s with nodeOf := s.nodeOf.put name id }.setNameType name t).setNodeType id t

def mergeNames (d : Dialect) (line : Nat) (test : Ref) (yes no : List BranchValue) : List String → Compile Unit
  | [] => pure ()
  | name::rest => do
    mergeName d line test (yes.find? (·.name == name)) (no.find? (·.name == name)) name
    mergeNames d line test yes no rest

def isBranch : Stmt→Bool
  | .ifElse _ _ _ _ => true
  | _ => false

def compileIf (d : Dialect) (line : Nat) (test : Expr) (body orelse : List Stmt) : Compile Unit := do
  if (body++orelse).any isBranch then throw (.nestedBranch line)
  let testRef ← emitExpr d test
  let scope := (← get).scope
  let yes ← compileBranch d scope body
  let no ← compileBranch d scope orelse
  modify fun s => s.withScope scope
  mergeNames d line testRef yes no (((yes++no).map (·.name)).eraseDups)

end ChipForge.Wiring
