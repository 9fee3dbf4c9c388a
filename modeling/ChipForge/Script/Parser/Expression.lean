import ChipForge.Script.Parser.Cursor

/-! Reading of expressions. Each reader takes the readers for nested parts as an argument; the knot is tied once for the
whole grammar. -/
namespace ChipForge.Script.Parser

/-- Parts of the grammar that are reached again from inside other parts. -/
inductive Goal
  | factor | inversion | expression | named | starList | format | pattern | statement

def Goal.Out : Goal→Type
  | .pattern => Unit
  | .statement => List Stmt
  | _ => Expr

abbrev Nested := (g : Goal)→Parse g.Out

def isTarget : Expr→Bool
  | .name _ => true
  | .attribute _ _ => true
  | .subscript _ _ => true
  | _ => false

mutual

def isTargetRow (stars : Bool) : Expr→Bool
  | .name _ => true
  | .attribute _ _ => true
  | .subscript _ _ => true
  | .tuple items => areTargetRows stars items
  | .list items => areTargetRows stars items
  | .starred value => stars && isStarredTarget value
  | _ => false

def isStarredTarget : Expr→Bool
  | .name _ => true
  | .attribute _ _ => true
  | .subscript _ _ => true
  | .tuple items => areTargetRows true items
  | .list items => areTargetRows true items
  | _ => false

def areTargetRows (stars : Bool) : List Expr→Bool
  | [] => true
  | e::rest => isTargetRow stars e && areTargetRows stars rest

end

/-- Literal text collected so far and finished parts of a format string, in reverse. -/
structure FormatParts where
  pending : String
  done : List Expr

def FormatParts.flush (p : FormatParts) : List Expr :=
  if p.pending.isEmpty then p.done else .const (.str p.pending false)::p.done

/-- Literal characters of a format string before the next field or the end: the characters, the rest, and whether a
doubled brace ended the row. -/
def formatLiteral (raw top : Bool) : Nat→List Char→List Char→Option (List Char×List Char×Bool)
  | 0, acc, cs => some (acc.reverse,cs,false)
  | _ + 1, acc, [] => some (acc.reverse,[],false)
  | fuel+1, acc, c::rest =>
    let brace (c : Char) (acc : List Char) (rest : List Char) : Option (List Char×List Char×Bool) :=
      let doubled := match rest with
        | d::_ => d == c
        | [] => false
      if top && doubled then some ((c::acc).reverse,rest.drop 1,true)
      else if top && c.toNat == 0x7d then none
      else some (acc.reverse,c::rest,false)
    let isBrace (c : Char) : Bool := c.toNat == 0x7b || c.toNat == 0x7d
    if c == '\\' && !raw then
      match rest with
      | e::more =>
        if isBrace e then brace e (c::acc) more
        else formatLiteral raw top fuel (e::c::acc) more
      | [] => some ((c::acc).reverse,[],false)
    else if isBrace c then brace c acc rest
    else formatLiteral raw top fuel (c::acc) rest

/-- Scan state inside a field: open brackets and the quote of an open string with its length. -/
structure FieldScan where
  brackets : List Char
  quote : Option (Char×Nat)

/-- The text of the expression in a field, in reverse, and the rest from its end mark on. -/
def fieldText : Nat→FieldScan→List Char→List Char→Option (List Char×List Char)
  | 0, _, _, _ => none
  | _ + 1, _, _, [] => none
  | fuel+1, st, acc, c::rest =>
    if c == '\\' then none
    else match st.quote with
    | some (q,size) =>
      if c == q then
        if size == 3 then
          match rest with
          | a::b::more =>
            if a == q && b == q then fieldText fuel { st with quote := none } (b::a::c::acc) more
            else fieldText fuel st (c::acc) rest
          | _ => fieldText fuel st (c::acc) rest
        else fieldText fuel { st with quote := none } (c::acc) rest
      else fieldText fuel st (c::acc) rest
    | none =>
      if Lexer.isQuote c then
        match rest with
        | a::b::more =>
          if a == c && b == c then fieldText fuel { st with quote := some (c,3) } (b::a::c::acc) more
          else fieldText fuel { st with quote := some (c,1) } (c::acc) rest
        | _ => fieldText fuel { st with quote := some (c,1) } (c::acc) rest
      else match Lexer.closerOf c with
      | some closer => fieldText fuel { st with brackets := closer::st.brackets } (c::acc) rest
      | none =>
        if c == '#' then none
        else if st.brackets.isEmpty && (c == '!' || c == ':' || c.toNat == 0x7d || c == '=' || c == '>' || c == '<') then
          let paired := match rest with
            | d::_ => d == '=' && (c == '!' || c == '=' || c == '<' || c == '>')
            | [] => false
          if paired then fieldText fuel st ('=' :: c::acc) (rest.drop 1)
          else if c == '>' || c == '<' then fieldText fuel st (c::acc) rest
          else some (acc,c::rest)
        else if Lexer.isCloser c then
          match st.brackets with
          | b::outer => if b == c then fieldText fuel { st with brackets := outer } (c::acc) rest else none
          | [] => none
        else fieldText fuel st (c::acc) rest

def isInnerBlank (c : Char) : Bool := c == ' ' || c == '\t' || c == '\n' || c.toNat == 12

def fieldExpr (self : Nested) (text : List Char) : Parse Expr := do
  let source := String.ofList ('(' :: text++[')'])
  match (self .format) ⟨(tokens source).toArray,0⟩ with
  | .ok (e,_) => return e
  | .error _ => refuse .grammar

mutual

/-- Parts of a format string. A field may hold fields in its layout, but no deeper. -/
def formatParts (self : Nested) (raw : Bool) : Nat→Nat→List Char→FormatParts→Parse (FormatParts×List Char)
  | 0, _, cs, parts => return (parts,cs)
  | fuel+1, depth, cs, parts => do
    match formatLiteral raw (depth == 0) (cs.length+1) [] cs with
    | none => refuse .grammar
    | some (literal,rest,doubled) =>
      match StringValue.ofText raw literal with
      | none => refuse .grammar
      | some text =>
        let parts := { parts with pending := parts.pending++text }
        if doubled then formatParts self raw fuel depth rest parts
        else match rest with
        | [] => return (parts,[])
        | c::more =>
          if c.toNat == 0x7d then return (parts,rest)
          else if depth ≥ 2 then refuse .grammar
          else
            let (shownText,field,rest) ← formatField self raw fuel depth more
            let parts := { parts with pending := parts.pending++shownText }
            formatParts self raw fuel depth rest ⟨"",field::parts.flush⟩

/-- A field after its opening brace: text to show before it, the field, and the rest after its closing brace. -/
def formatField (self : Nested) (raw : Bool) : Nat→Nat→List Char→Parse (String×Expr×List Char)
  | 0, _, _ => refuse .grammar
  | fuel+1, depth, cs => do
    match fieldText (cs.length+1) ⟨[],none⟩ [] cs with
    | none => refuse .grammar
    | some (reversed,rest) =>
      let text := reversed.reverse
      if text.all isInnerBlank then refuse .grammar
      let value ← fieldExpr self text
      let (shownText,rest) := match rest with
        | '=' :: more =>
          let blanks := more.takeWhile (fun c => c == ' ' || (9 ≤ c.toNat && c.toNat≤13))
          (String.ofList (text ++ '=' :: blanks),more.drop blanks.length)
        | _ => ("",rest)
      let (conversion,rest) ← match rest with
        | '!' :: k::more => if k == 's' || k == 'r' || k == 'a' then pure (some k,more) else refuse .grammar
        | '!' :: [] => refuse .grammar
        | _ => pure (none,rest)
      let (spec,rest) ← match rest with
        | ':' :: more =>
          if more.isEmpty then refuse .grammar
          let (parts,rest) ← formatParts self raw fuel (depth+1) more ⟨"",[]⟩
          pure (some (Expr.joined parts.flush.reverse),rest)
        | _ => pure (none,rest)
      let conversion := if !shownText.isEmpty && conversion.isNone && spec.isNone then some 'r' else conversion
      match rest with
      | c::after => if c.toNat == 0x7d then return (shownText,.formatted value conversion spec,after) else refuse .grammar
      | [] => refuse .grammar

end

/-- Pieces of adjacent string literals joined into one constant or format string. -/
def joinStrings (self : Nested) (pieces : List StringPiece) : Parse Expr := do
  let anyBytes := pieces.any (·.bytes)
  if anyBytes then
    if pieces.all (·.bytes) then
      let parts ← pieces.mapM fun p =>
        match StringValue.bytesValue p.raw p.body.length p.body with
        | some bs => pure bs
        | none => refuse .grammar
      return .const (.bytes parts.flatten)
    else refuse .grammar
  else
    let marked := (pieces.head?.map (·.marked)).getD false
    let anyFormat := pieces.any (·.format)
    let parts ← pieces.foldlM (fun (acc : FormatParts) p => do
      if p.format then
        let (acc,rest) ← formatParts self p.raw (2 * p.body.length+2) 0 p.body acc
        if rest.isEmpty then pure acc else refuse .grammar
      else match StringValue.ofText p.raw p.body with
        | some text => pure { acc with pending := acc.pending++text }
        | none => refuse .grammar) ⟨"",[]⟩
    if anyFormat then return .joined parts.flush.reverse
    else return .const (.str parts.pending marked)

def strings (self : Nested) : Parse Expr := do
  let pieces ← looping [] fun acc => do
    match ← peek with
    | .string p =>
      advance
      return (p::acc,true)
    | _ => return (acc,false)
  joinStrings self pieces.reverse

def starTarget (primary : Parse Expr) : Parse Expr := do
  if ← takeOp "*" then
    let value ← primary
    if isStarredTarget value then return .starred value else refuse .grammar
  else
    let value ← primary
    if isTargetRow false value then return value else refuse .grammar

def starTargets (primary : Parse Expr) : Parse Expr := do
  let first ← starTarget primary
  if isOp (← peek) "," then
    let items ← looping [first] fun acc => do
      if ← takeOp "," then
        let k ← peek
        if startsExpr k || isOp k "*" then
          let item ← starTarget primary
          return (item::acc,true)
        else return (acc,false)
      else return (acc,false)
    return .tuple items.reverse
  else return first

def clauses (primary disjunction : Parse Expr) : Parse (List Clause) := do
  let found ← looping [] fun acc => do
    let isAsync := isWord (← peek) "async" && isWord (← peekAt 1) "for"
    if isAsync then advance
    if ← takeWord "for" then
      let target ← starTargets primary
      expectWord "in"
      let source ← disjunction
      let filters ← looping [] fun fs => do
        if ← takeWord "if" then
          let f ← disjunction
          return (f::fs,true)
        else return (fs,false)
      return (.mk isAsync target source filters.reverse::acc,true)
    else return (acc,false)
  if found.isEmpty then stuck else return found.reverse

def atClause : Parse Bool := do
  return isWord (← peek) "for" || (isWord (← peek) "async" && isWord (← peekAt 1) "for")

def starNamed (self : Nested) (bitOr : Parse Expr) : Parse Expr := do
  if ← takeOp "*" then return .starred (← bitOr) else self .named

/-- Items separated by commas up to a closing token, given the first one. -/
def moreItems (first : Expr) (item : Parse Expr) (closer : String) : Parse (List Expr) := do
  let items ← looping [first] fun acc => do
    if ← takeOp "," then
      if isOp (← peek) closer then return (acc,false)
      else
        let e ← item
        return (e::acc,true)
    else return (acc,false)
  return items.reverse

def yieldExpr (self : Nested) : Parse Expr := do
  expectWord "yield"
  if ← takeWord "from" then return .yieldFrom (← self .expression)
  else
    let k ← peek
    if startsExpr k || isOp k "*" then return .yield (some (← self .starList)) else return .yield none

def isStarred : Expr→Bool
  | .starred _ => true
  | _ => false

def parenthesized (self : Nested) (primary bitOr disjunction : Parse Expr) : Parse Expr := do
  expectOp "("
  if ← takeOp ")" then return .tuple []
  if isWord (← peek) "yield" then
    let e ← yieldExpr self
    expectOp ")"
    return e
  let first ← starNamed self bitOr
  if isOp (← peek) "," then
    let items ← moreItems first (starNamed self bitOr) ")"
    expectOp ")"
    return .tuple items
  else if ← atClause then
    if isStarred first then refuse .grammar
    let cs ← clauses primary disjunction
    expectOp ")"
    return .generator first cs
  else if isStarred first then refuse .grammar
  else
    expectOp ")"
    return first

def bracketed (self : Nested) (primary bitOr disjunction : Parse Expr) : Parse Expr := do
  expectOp "["
  if ← takeOp "]" then return .list []
  let first ← starNamed self bitOr
  if ← atClause then
    if isStarred first then refuse .grammar
    let cs ← clauses primary disjunction
    expectOp "]"
    return .listOf first cs
  else
    let items ← moreItems first (starNamed self bitOr) "]"
    expectOp "]"
    return .list items

def dictItem (self : Nested) (bitOr : Parse Expr) : Parse DictItem := do
  if ← takeOp "**" then return .mk none (← bitOr)
  else
    let key ← self .expression
    expectOp ":"
    let value ← self .expression
    return .mk (some key) value

def dictRest (self : Nested) (bitOr : Parse Expr) (first : DictItem) : Parse Expr := do
  let items ← looping [first] fun acc => do
    if ← takeOp "," then
      if isOp (← peek) "\x7d" then return (acc,false)
      else
        let item ← dictItem self bitOr
        return (item::acc,true)
    else return (acc,false)
  expectOp "\x7d"
  return .dict items.reverse

def braced (self : Nested) (primary bitOr disjunction : Parse Expr) : Parse Expr := do
  expectOp "\x7b"
  if ← takeOp "\x7d" then return .dict []
  if isOp (← peek) "**" then
    let first ← dictItem self bitOr
    if ← atClause then refuse .grammar
    dictRest self bitOr first
  else
    let first ← starNamed self bitOr
    if isOp (← peek) ":" && !isStarred first then
      advance
      let value ← self .expression
      if ← atClause then
        let cs ← clauses primary disjunction
        expectOp "\x7d"
        return .dictOf first value cs
      else dictRest self bitOr (.mk (some first) value)
    else if ← atClause then
      if isStarred first then refuse .grammar
      let cs ← clauses primary disjunction
      expectOp "\x7d"
      return .setOf first cs
    else
      let items ← moreItems first (starNamed self bitOr) "\x7d"
      expectOp "\x7d"
      return .set items

def atom (self : Nested) (primary bitOr disjunction : Parse Expr) : Parse Expr := do
  match ← peek with
  | .name w =>
    if w == "None" then advance; return .const .none
    else if w == "True" then advance; return .const (.bool true)
    else if w == "False" then advance; return .const (.bool false)
    else if reserved.contains w then stuck
    else advance; return .name w
  | .number c => advance; return .const c
  | .string _ => strings self
  | .op t =>
    if t == "(" then parenthesized self primary bitOr disjunction
    else if t == "[" then bracketed self primary bitOr disjunction
    else if t == "\x7b" then braced self primary bitOr disjunction
    else if t == "..." then advance; return .const .ellipsis
    else stuck
  | _ => stuck

/-- Arguments read so far, in reverse, and how far the order of kinds has come. -/
structure Arguments where
  args : List Expr
  keywords : List Keyword
  spread : Bool

/-- One argument of a call. Plain ones come before keyword ones, and after a spread dictionary no starred one. -/
def argument (self : Nested) (primary disjunction : Parse Expr) (acc : Arguments) : Parse Arguments := do
  if ← takeOp "*" then
    let value ← self .expression
    if acc.spread then refuse .grammar
    return { acc with args := .starred value::acc.args }
  else if ← takeOp "**" then
    let value ← self .expression
    return { acc with keywords := .mk none value::acc.keywords, spread := true }
  else if (← atName) && isOp (← peekAt 1) "=" then
    let name ← expectName
    advance
    let value ← self .expression
    return { acc with keywords := .mk (some name) value::acc.keywords }
  else
    let value ← self .named
    if isOp (← peek) "=" then refuse .grammar
    if ← atClause then
      let cs ← clauses primary disjunction
      if acc.args.isEmpty && acc.keywords.isEmpty && isOp (← peek) ")" then
        return { acc with args := [.generator value cs] }
      else refuse .grammar
    else if acc.keywords.isEmpty then return { acc with args := value::acc.args }
    else refuse .grammar

def arguments (self : Nested) (primary disjunction : Parse Expr) : Parse (List Expr×List Keyword) := do
  if ← takeOp ")" then return ([],[])
  let acc ← looping (Arguments.mk [] [] false) fun acc => do
    let acc ← argument self primary disjunction acc
    if ← takeOp "," then
      if isOp (← peek) ")" then return (acc,false) else return (acc,true)
    else return (acc,false)
  expectOp ")"
  return (acc.args.reverse,acc.keywords.reverse)

def sliceBound (self : Nested) : Parse (Option Expr) := do
  if startsExpr (← peek) then return some (← self .expression) else return none

def sliceItem (self : Nested) : Parse Expr := do
  if ← takeOp "*" then return .starred (← self .expression)
  let isRange := isOp (← peek) ":"
  let first ← if isRange then pure none else (do return some (← self .named))
  if ← takeOp ":" then
    let bare := match first with
      | some (.named _ _) => true
      | _ => false
    if bare then refuse .grammar
    let upper ← sliceBound self
    let step ← if ← takeOp ":" then sliceBound self else pure none
    return .slice first upper step
  else match first with
    | some e => return e
    | none => stuck

def slices (self : Nested) : Parse Expr := do
  let first ← sliceItem self
  if isOp (← peek) "," || isStarred first then
    let items ← moreItems first (sliceItem self) "]"
    expectOp "]"
    return .tuple items
  else
    expectOp "]"
    return first

def primaryWith (self : Nested) (atom disjunction primary : Parse Expr) : Parse Expr := do
  let line ← currentLine
  let first ← atom
  looping first fun e => do
    match ← peek with
    | .op t =>
      if t == "." then
        advance
        let attr ← expectName
        return (.attribute e attr,true)
      else if t == "(" then
        advance
        let (args,keywords) ← arguments self primary disjunction
        return (.call line e args keywords,true)
      else if t == "[" then
        advance
        let s ← slices self
        return (.subscript e s,true)
      else return (e,false)
    | _ => return (e,false)

def leftAssoc (ops : List (String×BinaryOp)) (operand : Parse Expr) : Parse Expr := do
  let first ← operand
  looping first fun left => do
    match ← peek with
    | .op t =>
      match ops.find? (fun (text,_) => text == t) with
      | some (_,op) =>
        advance
        let right ← operand
        return (.binary left op right,true)
      | none => return (left,false)
    | _ => return (left,false)

/-- A signed value or a power, given the reader of an atom with its trailers. -/
def factorWith (self : Nested) (primary : Parse Expr) : Parse Expr := do
  let line ← currentLine
  let signed (op : UnaryOp) : Parse Expr := do
    advance
    return .unary line op (← self .factor)
  let k ← peek
  if isOp k "+" then signed .plus
  else if isOp k "-" then signed .minus
  else if isOp k "~" then signed .invert
  else
    let base ← if ← takeWord "await" then (do return .await (← primary)) else primary
    if ← takeOp "**" then return .binary base .pow (← self .factor) else return base

def bitOrWith (factor : Parse Expr) : Parse Expr :=
  let term := leftAssoc [("*",.mul),("/",.div),("//",.floorDiv),("%",.mod),("@",.matMul)] factor
  let sum := leftAssoc [("+",.add),("-",.sub)] term
  let shift := leftAssoc [("<<",.shiftLeft),(">>",.shiftRight)] sum
  let bitAnd := leftAssoc [("&",.bitAnd)] shift
  let bitXor := leftAssoc [("^",.bitXor)] bitAnd
  leftAssoc [("|",.bitOr)] bitXor

def takeComparison : Parse (Option CompareOp) := do
  let found (n : Nat) (op : CompareOp) : Parse (Option CompareOp) := do
    for _ in [0:n] do advance
    return some op
  match ← peek with
  | .op t =>
    if t == "==" then found 1 .eq
    else if t == "!=" then found 1 .notEq
    else if t == "<=" then found 1 .ltE
    else if t == "<" then found 1 .lt
    else if t == ">=" then found 1 .gtE
    else if t == ">" then found 1 .gt
    else return none
  | .name w =>
    if w == "in" then found 1 .isIn
    else if w == "not" && isWord (← peekAt 1) "in" then found 2 .notIn
    else if w == "is" then
      if isWord (← peekAt 1) "not" then found 2 .isNot else found 1 .is
    else return none
  | _ => return none

def inversionWith (self : Nested) (bitOr : Parse Expr) : Parse Expr := do
  let line ← currentLine
  if ← takeWord "not" then return .unary line .not (← self .inversion)
  let left ← bitOr
  let rest ← looping [] fun acc => do
    match ← takeComparison with
    | some op =>
      let right ← bitOr
      return (.mk op right::acc,true)
    | none => return (acc,false)
  if rest.isEmpty then return left else return .compare line left rest.reverse

def joinedBy (word : String) (op : BoolOp) (operand : Parse Expr) : Parse Expr := do
  let line ← currentLine
  let first ← operand
  let values ← looping [first] fun acc => do
    if ← takeWord word then
      let e ← operand
      return (e::acc,true)
    else return (acc,false)
  match values with
  | [e] => return e
  | _ => return .boolOp line op values.reverse

def disjunctionWith (inversion : Parse Expr) : Parse Expr := joinedBy "or" .or (joinedBy "and" .and inversion)

/-- How far the parameters have come. -/
structure ParamScan where
  params : List Param
  named : Bool
  slashed : Bool
  starred : Bool
  bareStar : Bool
  defaults : Bool
  closed : Bool

def ParamScan.start : ParamScan := ⟨[],false,false,false,false,false,false⟩

/-- One parameter of a function, its typeNote read by `typeNote` and dropped. -/
def parameter (self : Nested) (typeNote starNote : Parse Unit) (st : ParamScan) : Parse ParamScan := do
  if st.closed then stuck
  if ← takeOp "/" then
    if !st.named || st.slashed || st.starred then refuse .grammar
    return { st with params := .slash::st.params, slashed := true }
  else if ← takeOp "**" then
    if st.bareStar then refuse .grammar
    let name ← expectName
    typeNote
    if isOp (← peek) "=" then refuse .grammar
    return { st with params := .keywordRest name::st.params, closed := true }
  else if ← takeOp "*" then
    if st.starred then refuse .grammar
    if ← atName then
      let name ← expectName
      starNote
      if isOp (← peek) "=" then refuse .grammar
      return { st with params := .rest name::st.params, starred := true }
    else
      if !(isOp (← peek) ",") then refuse .grammar
      return { st with params := .star::st.params, starred := true, bareStar := true }
  else
    let name ← expectName
    typeNote
    let default ← if ← takeOp "=" then (do return some (← self .expression)) else pure none
    if default.isNone && st.defaults && !st.starred then refuse .grammar
    return { st with
      params := .plain name default::st.params, named := true, bareStar := false,
      defaults := st.defaults || default.isSome }

def parameters (self : Nested) (typeNote starNote : Parse Unit) (closer : String) : Parse (List Param) := do
  if isOp (← peek) closer then return []
  let st ← looping ParamScan.start fun st => do
    let st ← parameter self typeNote starNote st
    if ← takeOp "," then
      if isOp (← peek) closer then return (st,false) else return (st,true)
    else return (st,false)
  if st.bareStar then refuse .grammar
  return st.params.reverse

def lambdaExpr (self : Nested) : Parse Expr := do
  expectWord "lambda"
  let params ← parameters self (pure ()) (pure ()) ":"
  expectOp ":"
  return .lambda params (← self .expression)

def expressionWith (self : Nested) (disjunction : Parse Expr) : Parse Expr := do
  if isWord (← peek) "lambda" then lambdaExpr self
  else
    let line ← currentLine
    let body ← disjunction
    if ← takeWord "if" then
      let test ← disjunction
      expectWord "else"
      let orelse ← self .expression
      return .cond line test body orelse
    else return body

def namedWith (self : Nested) : Parse Expr := do
  if (← atName) && isOp (← peekAt 1) ":=" then
    let name ← expectName
    advance
    return .named (.name name) (← self .expression)
  else
    let e ← self .expression
    if isOp (← peek) ":=" then stuck else return e

def starItem (self : Nested) (bitOr : Parse Expr) : Parse Expr := do
  if ← takeOp "*" then return .starred (← bitOr) else self .expression

def starListWith (self : Nested) (bitOr : Parse Expr) : Parse Expr := do
  let first ← starItem self bitOr
  if isOp (← peek) "," then
    let items ← looping [first] fun acc => do
      if ← takeOp "," then
        let k ← peek
        if startsExpr k || isOp k "*" then
          let e ← starItem self bitOr
          return (e::acc,true)
        else return (acc,false)
      else return (acc,false)
    return .tuple items.reverse
  else return first

/-- The readers of one level of nesting, from atoms to alternatives. -/
structure Levels where
  primary : Parse Expr
  factor : Parse Expr
  bitOr : Parse Expr
  inversion : Parse Expr
  disjunction : Parse Expr

/-- Subexpressions inside brackets are read through `self`, so a level needs no recursion. -/
def levels (self : Nested) : Levels :=
  let nestedDisjunction : Parse Expr := disjunctionWith (self .inversion)
  let nestedBitOr : Parse Expr := bitOrWith (self .factor)
  let nestedPrimary : Parse Expr := do
    let e ← self .factor
    match e with
    | .unary _ _ _ => refuse .grammar
    | .binary _ _ _ => refuse .grammar
    | .await _ => refuse .grammar
    | _ => return e
  let primary := primaryWith self (atom self nestedPrimary nestedBitOr nestedDisjunction) nestedDisjunction nestedPrimary
  let factor := factorWith self primary
  let bitOr := bitOrWith factor
  let inversion := inversionWith self bitOr
  ⟨primary,factor,bitOr,inversion,disjunctionWith inversion⟩

end ChipForge.Script.Parser
