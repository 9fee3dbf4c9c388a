/-! Syntax trees of wiring scripts. Expressions keep all that is needed to print them again; statements keep what the
compiler looks at. A line is the number of the source line on which the construct starts. -/
namespace ChipForge.Script

inductive BinaryOp
  | add | sub | mul | matMul | div | mod | pow | shiftLeft | shiftRight | bitOr | bitXor | bitAnd | floorDiv
  deriving DecidableEq, Repr

inductive UnaryOp
  | invert | not | plus | minus
  deriving DecidableEq, Repr

inductive BoolOp
  | and | or
  deriving DecidableEq, Repr

inductive CompareOp
  | eq | notEq | lt | ltE | gt | gtE | is | isNot | isIn | notIn
  deriving DecidableEq, Repr

/-- A constant written in the source. `marked` tells a text with the mark `u`. -/
inductive Const
  | none
  | bool (b : Bool)
  | int (n : Nat)
  | float (x : Float)
  | imaginary (x : Float)
  | str (s : String) (marked : Bool)
  | bytes (bs : List Nat)
  | ellipsis

mutual

inductive Expr
  | const (c : Const)
  | name (id : String)
  | boolOp (line : Nat) (op : BoolOp) (values : List Expr)
  | named (target value : Expr)
  | binary (left : Expr) (op : BinaryOp) (right : Expr)
  | unary (line : Nat) (op : UnaryOp) (operand : Expr)
  | lambda (params : List Param) (body : Expr)
  | cond (line : Nat) (test body orelse : Expr)
  | dict (items : List DictItem)
  | set (items : List Expr)
  | listOf (item : Expr) (clauses : List Clause)
  | setOf (item : Expr) (clauses : List Clause)
  | dictOf (key value : Expr) (clauses : List Clause)
  | generator (item : Expr) (clauses : List Clause)
  | await (value : Expr)
  | yield (value : Option Expr)
  | yieldFrom (value : Expr)
  | compare (line : Nat) (left : Expr) (rest : List Comparison)
  | call (line : Nat) (fn : Expr) (args : List Expr) (keywords : List Keyword)
  | formatted (value : Expr) (conversion : Option Char) (spec : Option Expr)
  | joined (parts : List Expr)
  | attribute (value : Expr) (attr : String)
  | subscript (value slice : Expr)
  | starred (value : Expr)
  | list (items : List Expr)
  | tuple (items : List Expr)
  | slice (lower upper step : Option Expr)

/-- A parameter of a lambda expression. -/
inductive Param
  | plain (name : String) (default : Option Expr)
  | slash
  | star
  | rest (name : String)
  | keywordRest (name : String)

/-- An entry of a dictionary display; without a key it spreads another dictionary. -/
inductive DictItem
  | mk (key : Option Expr) (value : Expr)

/-- A clause `for target in source if filter ...` of a comprehension. -/
inductive Clause
  | mk (isAsync : Bool) (target source : Expr) (filters : List Expr)

inductive Comparison
  | mk (op : CompareOp) (right : Expr)

/-- A keyword argument; without a name it spreads a dictionary. -/
inductive Keyword
  | mk (name : Option String) (value : Expr)

end

instance : Inhabited Expr := ⟨.const .none⟩

def Comparison.op : Comparison → CompareOp
  | .mk op _ => op

def Comparison.right : Comparison→Expr
  | .mk _ right => right

def Keyword.name : Keyword→Option String
  | .mk name _ => name

def Keyword.value : Keyword→Expr
  | .mk _ value => value

/-- Kinds of statements with a body that the compiler tells apart. -/
inductive BlockKind
  | loop | attempt | context | choice | other
  deriving DecidableEq, Repr

/-- A statement. The bodies of a block statement are kept in source order as one list. -/
inductive Stmt
  | assign (line : Nat) (targets : List Expr) (value : Expr)
  | declare (line : Nat) (target typeNote : Expr) (value : Option Expr)
  | expr (line : Nat) (value : Expr)
  | ifElse (line : Nat) (test : Expr) (body orelse : List Stmt)
  | block (line : Nat) (kind : BlockKind) (body : List Stmt)
  | pass (line : Nat)
  | imports (line : Nat)
  | other (line : Nat)

instance : Inhabited Stmt := ⟨.pass 0⟩

def Stmt.line : Stmt→Nat
  | .assign line _ _ => line
  | .declare line _ _ _ => line
  | .expr line _ => line
  | .ifElse line _ _ _ => line
  | .block line _ _ => line
  | .pass line => line
  | .imports line => line
  | .other line => line

end ChipForge.Script
