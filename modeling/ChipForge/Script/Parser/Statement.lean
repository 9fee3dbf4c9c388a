import ChipForge.Script.Parser.Pattern

/-! Reading of statements and of whole scripts. -/
namespace ChipForge.Script.Parser

def rowOrYield (self : Nested) : Parse Expr := do
  if isWord (← peek) "yield" then yieldExpr self else self .starList

def augmented : List String :=
  ["+=","-=","*=","@=","/=","%=","&=","|=","^=","<<=",">>=","**=","//="]

def isSingleTarget (e : Expr) : Bool := isTarget e

def isYield : Expr→Bool
  | .yield _ => true
  | .yieldFrom _ => true
  | _ => false

/-- The rest of an assignment after its first target: further targets and the value. -/
def assignment (self : Nested) (line : Nat) (first : Expr) : Parse Stmt := do
  let (targets,value) ← looping ([],first) fun (targets,last) => do
    if ← takeOp "=" then
      if isYield last || !isTargetRow true last then refuse .grammar
      let next ← rowOrYield self
      return ((last::targets,next),true)
    else return ((targets,last),false)
  return .assign line targets.reverse value

/-- A statement that starts with a value: an assignment, a declaration, an update or the value alone. -/
def valueStatement (self : Nested) : Parse Stmt := do
  let line ← currentLine
  if isWord (← peek) "yield" then
    let e ← yieldExpr self
    if isOp (← peek) "=" then refuse .grammar
    return .expr line e
  let first ← self .starList
  match ← peek with
  | .op t =>
    if t == "=" then assignment self line first
    else if t == ":" then
      if !isSingleTarget first then refuse .grammar
      advance
      let typeNote ← self .expression
      let value ← if ← takeOp "=" then (do return some (← rowOrYield self)) else pure none
      return .declare line first typeNote value
    else if augmented.contains t then
      if !isSingleTarget first then refuse .grammar
      advance
      discard (rowOrYield self)
      return .other line
    else return .expr line first
  | _ => return .expr line first

def modulePath : Parse Unit := discard dottedName

def optionalAlias : Parse Unit := do
  if ← takeWord "as" then discard expectName

/-- Dots in front of a module path; three dots may come as one token. -/
def takeDots : Parse Bool :=
  looping false fun any => do
    if (← takeOp ".") || (← takeOp "...") then return (true,true) else return (any,false)

def importedName : Parse Unit := do
  discard expectName
  optionalAlias

def importStatement : Parse Unit := do
  if ← takeWord "import" then
    discard <| looping () fun _ => do
      modulePath
      optionalAlias
      if ← takeOp "," then return ((),true) else return ((),false)
  else
    expectWord "from"
    let dots ← takeDots
    if !(dots && isWord (← peek) "import") then modulePath
    expectWord "import"
    if ← takeOp "*" then return ()
    else if ← takeOp "(" then
      discard <| looping () fun _ => do
        importedName
        if ← takeOp "," then
          if isOp (← peek) ")" then return ((),false) else return ((),true)
        else return ((),false)
      expectOp ")"
    else
      discard <| looping () fun _ => do
        importedName
        if ← takeOp "," then return ((),true) else return ((),false)

def deletion (primary : Parse Expr) : Parse Unit :=
  discard <| looping () fun _ => do
    let e ← primary
    if !isTargetRow false e then refuse .grammar
    if ← takeOp "," then
      if startsExpr (← peek) then return ((),true) else return ((),false)
    else return ((),false)

def endsSimple (k : TokenKind) : Bool :=
  match k with
  | .newline => true
  | .op t => t == ";"
  | _ => false

def simpleStatement (self : Nested) (primary : Parse Expr) : Parse Stmt := do
  let line ← currentLine
  match ← peek with
  | .name w =>
    if w == "pass" then advance; return .pass line
    else if w == "break" || w == "continue" then advance; return .other line
    else if w == "return" then
      advance
      if !endsSimple (← peek) then discard (self .starList)
      return .other line
    else if w == "import" || w == "from" then
      importStatement
      return .imports line
    else if w == "raise" then
      advance
      if !endsSimple (← peek) then
        discard (self .expression)
        if ← takeWord "from" then discard (self .expression)
      return .other line
    else if w == "global" || w == "nonlocal" then
      advance
      discard <| looping () fun _ => do
        discard expectName
        if ← takeOp "," then return ((),true) else return ((),false)
      return .other line
    else if w == "del" then
      advance
      deletion primary
      return .other line
    else if w == "assert" then
      advance
      discard (self .expression)
      if ← takeOp "," then discard (self .expression)
      return .other line
    else valueStatement self
  | _ => valueStatement self

def atNewline : Parse Bool := do
  match ← peek with
  | .newline => return true
  | _ => return false

def simpleLine (self : Nested) (primary : Parse Expr) : Parse (List Stmt) := do
  let stmts ← looping [] fun acc => do
    let s ← simpleStatement self primary
    if ← takeOp ";" then
      if ← atNewline then return (s::acc,false) else return (s::acc,true)
    else return (s::acc,false)
  if ← atNewline then
    advance
    return stmts.reverse
  else stuck

def body (self : Nested) (primary : Parse Expr) : Parse (List Stmt) := do
  if ← atNewline then
    advance
    match ← peek with
    | .indent =>
      advance
      let stmts ← looping [] fun acc => do
        match ← peek with
        | .dedent => return (acc,false)
        | _ =>
          let s : List Stmt ← self .statement
          return (acc++s,true)
      advance
      return stmts
    | .bad _ => stuck
    | _ => refuse .indentation
  else simpleLine self primary

def colonBody (self : Nested) (primary : Parse Expr) : Parse (List Stmt) := do
  expectOp ":"
  body self primary

def elseBody (self : Nested) (primary : Parse Expr) : Parse (List Stmt) := do
  if ← takeWord "else" then colonBody self primary else return []

/-- The alternatives of a condition, read innermost last. -/
def ifBranches (self : Nested) (primary : Parse Expr) : Parse Stmt := do
  let branches ← looping [] fun acc => do
    let line ← currentLine
    let first := acc.isEmpty
    if first || isWord (← peek) "elif" then
      advance
      let test ← self .named
      let stmts ← colonBody self primary
      return ((line,test,stmts)::acc,true)
    else return (acc,false)
  let last ← elseBody self primary
  let built := branches.foldl (fun orelse (line,test,stmts) => [Stmt.ifElse line test stmts orelse]) last
  match built with
  | [s] => return s
  | _ => stuck

def contextItem (self : Nested) (primary : Parse Expr) : Parse Unit := do
  discard (self .expression)
  if ← takeWord "as" then
    discard (starTarget primary)
    let k ← peek
    if !(isOp k "," || isOp k ")" || isOp k ":") then stuck

def contextItems (self : Nested) (primary : Parse Expr) (closer : String) (trailing : Bool) : Parse Unit := do
  discard <| looping () fun _ => do
    contextItem self primary
    if ← takeOp "," then
      if trailing && isOp (← peek) closer then return ((),false) else return ((),true)
    else return ((),false)

def contextStatement (self : Nested) (primary : Parse Expr) : Parse (List Stmt) := do
  expectWord "with"
  let grouped : Parse Unit := do
    expectOp "("
    contextItems self primary ")" true
    expectOp ")"
    if !isOp (← peek) ":" then stuck
  let open_ : Parse Unit := do
    contextItems self primary ":" false
    if !isOp (← peek) ":" then stuck
  orElse grouped open_
  colonBody self primary

/-- A guarded statement: its body with all handlers, and whether the handlers are starred. -/
def guarded (self : Nested) (primary : Parse Expr) : Parse (List Stmt×Bool) := do
  expectWord "try"
  let main ← colonBody self primary
  let (handlers,count,starred) ← looping (([] : List Stmt),0,false) fun (acc,n,starred) => do
    if ← takeWord "except" then
      let star ← takeOp "*"
      if n > 0 && star != starred then refuse .grammar
      if isOp (← peek) ":" then
        if star then stuck
      else
        discard (self .expression)
        if ← takeWord "as" then discard expectName
      let stmts ← colonBody self primary
      return ((acc++stmts,n+1,star),true)
    else return ((acc,n,starred),false)
  let orelse ← if count > 0 then elseBody self primary else pure []
  let hasFinally := isWord (← peek) "finally"
  let last ← if ← takeWord "finally" then colonBody self primary else pure []
  if count == 0 && !hasFinally then refuse .grammar
  return (main++handlers++orelse++last,starred)

def choiceStatement (self : Nested) (primary bitOr : Parse Expr) : Parse (List Stmt) := do
  expectWord "match"
  let first ← starNamed self bitOr
  if isOp (← peek) "," then discard (moreItems first (starNamed self bitOr) ":")
  else if isStarred first then stuck
  expectOp ":"
  if !(← atNewline) then stuck
  advance
  match ← peek with
  | .indent => advance
  | .bad _ => stuck
  | _ => refuse .indentation
  if !isWord (← peek) "case" then stuck
  let stmts ← looping [] fun acc => do
    if ← takeWord "case" then
      casePattern self
      if ← takeWord "if" then discard (self .named)
      let s ← colonBody self primary
      return (acc++s,true)
    else return (acc,false)
  match ← peek with
  | .dedent =>
    advance
    return stmts
  | _ => stuck

def functionDefinition (self : Nested) (primary bitOr : Parse Expr) : Parse (List Stmt) := do
  expectWord "def"
  discard expectName
  expectOp "("
  let typeNote : Parse Unit := do
    if ← takeOp ":" then discard (self .expression)
  let starNote : Parse Unit := do
    if ← takeOp ":" then discard (starItem self bitOr)
  discard (parameters self typeNote starNote ")")
  expectOp ")"
  if ← takeOp "->" then discard (self .expression)
  colonBody self primary

def classDefinition (self : Nested) (primary disjunction : Parse Expr) : Parse (List Stmt) := do
  expectWord "class"
  discard expectName
  if ← takeOp "(" then discard (arguments self primary disjunction)
  colonBody self primary

def forStatement (self : Nested) (primary : Parse Expr) : Parse (List Stmt) := do
  expectWord "for"
  discard (starTargets primary)
  expectWord "in"
  discard (self .starList)
  let main ← colonBody self primary
  let orelse ← elseBody self primary
  return main++orelse

def decorated (self : Nested) (primary bitOr disjunction : Parse Expr) : Parse (List Stmt) := do
  discard <| looping () fun _ => do
    if ← takeOp "@" then
      discard (self .named)
      if ← atNewline then
        advance
        return ((),true)
      else stuck
    else return ((),false)
  if isWord (← peek) "class" then classDefinition self primary disjunction
  else
    discard (takeWord "async")
    functionDefinition self primary bitOr

/-- One statement; a line of simple statements may hold several. -/
def statementWith (self : Nested) (lv : Levels) : Parse (List Stmt) := do
  let line ← currentLine
  let one (kind : BlockKind) (p : Parse (List Stmt)) : Parse (List Stmt) := do
    return [.block line kind (← p)]
  let simple := simpleLine self lv.primary
  match ← peek with
  | .name w =>
    if w == "if" then return [← ifBranches self lv.primary]
    else if w == "while" then
      one .loop do
        advance
        discard (self .named)
        let main ← colonBody self lv.primary
        return main++(← elseBody self lv.primary)
    else if w == "for" then one .loop (forStatement self lv.primary)
    else if w == "try" then
      let (stmts,starred) ← guarded self lv.primary
      return [.block line (if starred then .other else .attempt) stmts]
    else if w == "with" then one .context (contextStatement self lv.primary)
    else if w == "def" then one .other (functionDefinition self lv.primary lv.bitOr)
    else if w == "class" then one .other (classDefinition self lv.primary lv.disjunction)
    else if w == "async" then
      let next ← peekAt 1
      if isWord next "def" || isWord next "with" || isWord next "for" then
        advance
        if isWord next "def" then one .other (functionDefinition self lv.primary lv.bitOr)
        else if isWord next "with" then one .other (contextStatement self lv.primary)
        else one .other (forStatement self lv.primary)
      else
        advance
        stuck
    else if w == "match" then
      orElse (one .choice (choiceStatement self lv.primary lv.bitOr)) simple
    else simple
  | .op t => if t == "@" then one .other (decorated self lv.primary lv.bitOr lv.disjunction) else simple
  | _ => simple

def parse : Nat→(g : Goal)→Parse g.Out
  | 0, _ => refuse .grammar
  | fuel+1, g =>
    let self := parse fuel
    let lv := levels self
    match g with
    | .factor => lv.factor
    | .inversion => lv.inversion
    | .expression => expressionWith self lv.disjunction
    | .named => namedWith self
    | .starList => starListWith self lv.bitOr
    | .format => starListWith self lv.bitOr
    | .pattern => patternWith self
    | .statement => statementWith self lv

def statements (fuel : Nat) : Parse (List Stmt) :=
  looping [] fun acc => do
    match ← peek with
    | .finish => return (acc,false)
    | _ =>
      let s : List Stmt ← parse fuel .statement
      return (acc++s,true)

/-- What a place where reading got stuck amounts to. A fault in the tokens after it takes precedence over a missing
indentation. -/
def Stuck.verdict (e : Stuck) (tokens : Array Token) : SyntaxFault :=
  let tokenFault := match tokens.back? with
    | some ⟨.bad .grammar,_⟩ => true
    | _ => false
  match e.fault with
  | some .indentation => if tokenFault then .grammar else .indentation
  | some f => f
  | none =>
    match tokens[e.pos]? with
    | some ⟨.bad f,_⟩ => f
    | some ⟨.indent,_⟩ => .indentation
    | some ⟨.dedent,_⟩ => .indentation
    | _ => .grammar

end Parser

def parse (text : String) : Except SyntaxFault (List Stmt) :=
  let toks := (tokens text).toArray
  match Parser.statements (20 * text.length+100) ⟨toks,0⟩ with
  | .ok (stmts,_) => .ok stmts
  | .error e => .error (e.verdict toks)

def parseExpr (text : String) : Except SyntaxFault Expr :=
  let text := String.ofList (text.toList.dropWhile (fun c => c == ' ' || c == '\t'))
  let toks := (tokens text).toArray
  let whole : Parser.Parse Expr := do
    let e ← Parser.parse (20 * text.length+100) .starList
    Parser.repeatWhile (fun _ => do
      if ← Parser.atNewline then
        Parser.advance
        return ((),true)
      else return ((),false)) toks.size ()
    match ← Parser.peek with
    | .finish => return e
    | _ => Parser.stuck
  match whole ⟨toks,0⟩ with
  | .ok (e,_) => .ok e
  | .error e => .error (e.verdict toks)

end ChipForge.Script
