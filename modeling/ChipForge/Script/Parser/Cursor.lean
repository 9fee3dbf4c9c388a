import ChipForge.Script.StringValue

/-! The position of a reader in a row of tokens, and small readers for single tokens and rows of them. -/
namespace ChipForge.Script.Parser

/-- A row of tokens and the place reached in it. -/
structure Cursor where
  tokens : Array Token
  pos : Nat

/-- Where reading got stuck. Without a fault the token found there decides what kind of error it is. -/
structure Stuck where
  pos : Nat
  fault : Option SyntaxFault

abbrev Parse (α : Type) := StateT Cursor (Except Stuck) α

def Cursor.kind (c : Cursor) : TokenKind :=
  match c.tokens[c.pos]? with
  | some t => t.kind
  | none => .finish

def Cursor.kindAt (c : Cursor) (ahead : Nat) : TokenKind :=
  match c.tokens[c.pos+ahead]? with
  | some t => t.kind
  | none => .finish

def Cursor.line (c : Cursor) : Nat :=
  match c.tokens[c.pos]? with
  | some t => t.line
  | none => 0

def peek : Parse TokenKind := do return (← get).kind

def peekAt (ahead : Nat) : Parse TokenKind := do return (← get).kindAt ahead

def currentLine : Parse Nat := do return (← get).line

def advance : Parse Unit := modify fun c => { c with pos := c.pos+1 }

/-- No continuation fits the next token. -/
def stuck {α : Type} : Parse α := do throw ⟨(← get).pos,none⟩

/-- The text is refused for a reason other than its next token. -/
def refuse {α : Type} (fault : SyntaxFault) : Parse α := do throw ⟨(← get).pos,some fault⟩

def isOp (k : TokenKind) (text : String) : Bool :=
  match k with
  | .op t => t == text
  | _ => false

def isWord (k : TokenKind) (word : String) : Bool :=
  match k with
  | .name w => w == word
  | _ => false

def reserved : List String :=
  ["False","None","True","and","as","assert","async","await","break","class","continue","def","del","elif",
    "else","except","finally","for","from","global","if","import","in","is","lambda","nonlocal","not","or",
    "pass","raise","return","try","while","with","yield"]

def takeOp (text : String) : Parse Bool := do
  if isOp (← peek) text then
    advance
    return true
  else return false

def takeWord (word : String) : Parse Bool := do
  if isWord (← peek) word then
    advance
    return true
  else return false

def expectOp (text : String) : Parse Unit := do
  if !(← takeOp text) then stuck

def expectWord (word : String) : Parse Unit := do
  if !(← takeWord word) then stuck

def expectName : Parse String := do
  match ← peek with
  | .name w => if reserved.contains w then stuck else do advance; return w
  | _ => stuck

def atName : Parse Bool := do
  match ← peek with
  | .name w => return !reserved.contains w
  | _ => return false

/-- Repeats a step while it asks for more. The number of tokens bounds the repetitions. -/
def repeatWhile {σ : Type} (step : σ→Parse (σ×Bool)) : Nat→σ→Parse σ
  | 0, s => return s
  | fuel+1, s => do
    let (s,more) ← step s
    if more then repeatWhile step fuel s else return s

def looping {σ : Type} (init : σ) (step : σ→Parse (σ×Bool)) : Parse σ := do
  let c ← get
  repeatWhile step (c.tokens.size+1) init

/-- Tries one reader and then another from the same place; of two failures the later one counts. -/
def orElse {α : Type} (first second : Parse α) : Parse α := fun c =>
  match first c with
  | .ok r => .ok r
  | .error e =>
    match second c with
    | .ok r => .ok r
    | .error e' => .error (if e.pos > e'.pos then e else e')

def startsExpr (k : TokenKind) : Bool :=
  match k with
  | .name w => !reserved.contains w || ["None","True","False","not","lambda","await"].contains w
  | .number _ => true
  | .string _ => true
  | .op t => ["(","[","\x7b","+","-","~","..."].contains t
  | _ => false

end ChipForge.Script.Parser
