import ChipForge.Script.Parser.Expression

/-! Reading of the patterns of a choice statement. Patterns are only checked, nothing of them is kept. -/
namespace ChipForge.Script.Parser

def takeNumber : Parse (Option Bool) := do
  match ← peek with
  | .number c =>
    advance
    match c with
    | .imaginary _ => return some true
    | _ => return some false
  | _ => return none

/-- A signed number, with an imaginary part added if one follows. -/
def numberPattern : Parse Unit := do
  discard (takeOp "-")
  match ← takeNumber with
  | none => stuck
  | some imaginary =>
    if !imaginary && (isOp (← peek) "+" || isOp (← peek) "-") then
      advance
      match ← takeNumber with
      | some true => return ()
      | _ => refuse .grammar

def stringPattern (self : Nested) : Parse Unit := do
  match ← strings self with
  | .joined _ => refuse .grammar
  | _ => return ()

def dottedName : Parse Bool := do
  discard expectName
  looping false fun dotted => do
    if ← takeOp "." then
      discard expectName
      return (true,true)
    else return (dotted,false)

def patternRow (item : Parse Unit) (closer : String) : Parse Nat :=
  looping 0 fun n => do
    if isOp (← peek) closer then return (n,false)
    item
    if ← takeOp "," then return (n+1,true) else return (n+1,false)

def starPattern (self : Nested) : Parse Unit := do
  if ← takeOp "*" then discard expectName else self .pattern

def mappingEntry (self : Nested) : Parse Unit := do
  if ← takeOp "**" then discard expectName
  else
    match ← peek with
    | .string _ => stringPattern self
    | .name w =>
      if w == "None" || w == "True" || w == "False" then advance
      else if !(← dottedName) then refuse .grammar
    | _ => numberPattern
    expectOp ":"
    self .pattern

/-- One argument of a class pattern: does it have a keyword? -/
def classArgument (self : Nested) : Parse Bool := do
  if (← atName) && isOp (← peekAt 1) "=" then
    advance
    advance
    self .pattern
    return true
  else
    self .pattern
    return false

def closedPattern (self : Nested) : Parse Unit := do
  match ← peek with
  | .number _ => numberPattern
  | .string _ => stringPattern self
  | .name w =>
    if w == "None" || w == "True" || w == "False" then advance
    else
      discard dottedName
      if ← takeOp "(" then
        discard <| looping false fun keyworded => do
          if isOp (← peek) ")" then return (keyworded,false)
          let k ← classArgument self
          if keyworded && !k then refuse .grammar
          if ← takeOp "," then return (keyworded || k,true) else return (keyworded || k,false)
        expectOp ")"
  | .op t =>
    if t == "-" then numberPattern
    else if t == "(" then
      advance
      discard (patternRow (starPattern self) ")")
      expectOp ")"
    else if t == "[" then
      advance
      discard (patternRow (starPattern self) "]")
      expectOp "]"
    else if t == "\x7b" then
      advance
      discard (patternRow (mappingEntry self) "\x7d")
      expectOp "\x7d"
    else stuck
  | _ => stuck

def patternWith (self : Nested) : Parse Unit := do
  discard <| looping () fun _ => do
    closedPattern self
    if ← takeOp "|" then return ((),true) else return ((),false)
  if ← takeWord "as" then
    let name ← expectName
    if name == "_" || isOp (← peek) "." || isOp (← peek) "(" then refuse .grammar

def casePattern (self : Nested) : Parse Unit := do
  starPattern self
  if isOp (← peek) "," then
    discard <| looping () fun _ => do
      if ← takeOp "," then
        if isOp (← peek) ":" || isWord (← peek) "if" then return ((),false)
        else
          starPattern self
          return ((),true)
      else return ((),false)

end ChipForge.Script.Parser
