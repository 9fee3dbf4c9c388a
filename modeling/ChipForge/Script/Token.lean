import ChipForge.Script.Syntax
import ChipForge.Json.Reader

/-! Tokens of wiring scripts. Indentation is turned into tokens of its own, line ends inside brackets are dropped, and
a script that cannot be cut into tokens ends with a token that says why. -/
namespace ChipForge.Script

/-- Why a script is refused. -/
inductive SyntaxFault
  | grammar
  /-- The text breaks off inside a bracket or after a line continuation. -/
  | unfinished
  | indentation
  /-- Tabs and blanks are mixed so that the depth is unclear. -/
  | tabs
  deriving DecidableEq, Repr

/-- A string literal as written, without its quotes. -/
structure StringPiece where
  raw : Bool
  bytes : Bool
  format : Bool
  marked : Bool
  body : List Char

inductive TokenKind
  | name (id : String)
  | number (c : Const)
  | string (piece : StringPiece)
  | op (text : String)
  | newline
  | indent
  | dedent
  | finish
  | bad (fault : SyntaxFault)

structure Token where
  kind : TokenKind
  line : Nat

namespace Lexer

def unifyLines : List Char→List Char
  | [] => []
  | '\r' :: '\n' :: rest => '\n' :: unifyLines rest
  | '\r' :: rest => '\n' :: unifyLines rest
  | c::rest => c::unifyLines rest

def closeLine (cs : List Char) : List Char :=
  match cs.getLast? with
  | none => []
  | some '\n' => cs
  | some _ => cs++['\n']

/-- Indentation of a line: width with tabs to the next multiple of eight, width with tabs as one, width before the
first continuation, the rest of the line, lines passed, and whether a continuation went wrong. -/
structure Margin where
  col : Nat
  alt : Nat
  continued : Nat
  rest : List Char
  lines : Nat
  broken : Bool

def margin : Nat→Nat→Nat→Nat→List Char→Margin
  | col, alt, cont, lines, ' ' :: rest => margin (col+1) (alt+1) cont lines rest
  | col, alt, cont, lines, '\t' :: rest => margin ((col / 8+1) * 8) (alt+1) cont lines rest
  | _, _, cont, lines, '\x0c' :: rest => margin 0 0 cont lines rest
  | col, alt, cont, lines, '\\' :: '\n' :: rest =>
    if rest.isEmpty then ⟨col,alt,cont,rest,lines,true⟩
    else margin col alt (if cont == 0 then col else cont) (lines+1) rest
  | col, alt, cont, lines, '\\' :: rest => ⟨col,alt,cont,rest,lines,true⟩
  | col, alt, cont, lines, rest => ⟨col,alt,cont,rest,lines,false⟩

/-- State between two tokens. Indentation levels are kept innermost first. -/
structure State where
  line : Nat
  levels : List (Nat×Nat)
  brackets : List Char
  fresh : Bool

def State.initial : State := ⟨1,[],[],true⟩

/-- Outcome of comparing a margin with the open levels: levels left, tokens to emit, or a fault. -/
def settle (col alt : Nat) : List (Nat×Nat)→Nat→Except SyntaxFault (List (Nat×Nat)×Nat)
  | [], closed =>
    if col == 0 then (if alt == 0 then .ok ([],closed) else .error .tabs)
    else if closed == 0 then .ok ([(col,alt)],closed) else .error .indentation
  | (c,a)::outer, closed =>
    if col == c then (if alt == a then .ok ((c,a)::outer,closed) else .error .tabs)
    else if col < c then settle col alt outer (closed+1)
    else if closed == 0 then .ok ((col,alt)::(c,a)::outer,closed) else .error .indentation

/-- Does a deeper level have the deeper margin also when tabs count as one? -/
def opensCleanly (levels : List (Nat×Nat)) (alt : Nat) : Bool :=
  match levels with
  | [] => 0 < alt
  | (_,a)::_ => a < alt

def digitRun (ok : Char→Bool) : List Char→Except Unit (List Char×List Char)
  | [] => .ok ([],[])
  | '_' :: d::rest => if ok d then (digitRun ok rest).map fun (ds,r) => (d::ds,r) else .error ()
  | '_' :: [] => .error ()
  | c::rest => if ok c then (digitRun ok rest).map fun (ds,r) => (c::ds,r) else .ok ([],c::rest)

/-- May a number end before this text? A following word has to be one that can follow a value. -/
def numberEnds (rest : List Char) : Bool :=
  ["and","else","for","if","in","is","or","not"].any (fun w => w.toList.isPrefixOf rest) ||
  match rest with
  | [] => true
  | c::_ => !(c.isAlpha || c.isDigit || c == '_' || c.toNat ≥ 128)

def digitValue (c : Char) : Nat := (Json.hexValue? c).getD 0

def inBase (base : Nat) (ds : List Char) : Nat := ds.foldl (fun n c => base * n+digitValue c) 0

/-- Decimal whole numbers longer than this are refused. -/
def longestNumber : Nat := 4300

def radix (base : Nat) (cs : List Char) : Except Unit (Const×List Char) := do
  let ok (c : Char) : Bool := match Json.hexValue? c with
    | some v => v < base
    | none => false
  let start := match cs with
    | '_' :: rest => rest
    | _ => cs
  match start with
  | c::_ => if !ok c then throw ()
  | [] => throw ()
  let (ds,rest) ← digitRun ok start
  match rest with
  | c::_ => if c.isDigit then throw ()
  | [] => pure ()
  if numberEnds rest then pure (.int (inBase base ds),rest) else throw ()

/-- Exponent of a decimal number, if there is one. A lone `e` may begin the word `else`. -/
def exponent (cs : List Char) : Except Unit (Option Int×List Char) := do
  match cs with
  | e::rest =>
    if e == 'e' || e == 'E' then
      match rest with
      | s::d::_ =>
        if s.isDigit then
          let (ds,r) ← digitRun Char.isDigit rest
          pure (some (inBase 10 ds : Int),r)
        else if s == '+' || s == '-' then
          if d.isDigit then
            let (ds,r) ← digitRun Char.isDigit (rest.drop 1)
            let n : Int := inBase 10 ds
            pure (some (if s == '-' then -n else n),r)
          else throw ()
        else pure (none,cs)
      | s::[] =>
        if s.isDigit then
          let (ds,r) ← digitRun Char.isDigit rest
          pure (some (inBase 10 ds : Int),r)
        else if s == '+' || s == '-' then throw () else pure (none,cs)
      | [] => pure (none,cs)
    else pure (none,cs)
  | [] => pure (none,[])

def decimalRest (whole : List Char) (cs : List Char) : Except Unit (Const×List Char) := do
  let (fraction,pointed,rest) ← match cs with
    | '.' :: d::rest =>
      if d.isDigit then
        let (ds,r) ← digitRun Char.isDigit (d::rest)
        pure (ds,true,r)
      else pure ([],true,d::rest)
    | '.' :: [] => pure ([],true,[])
    | _ => pure ([],false,cs)
  let (power,rest) ← exponent rest
  let isFloat := pointed || power.isSome
  let value := Decimal.nearest (inBase 10 (whole++fraction)) (power.getD 0 - fraction.length)
  match rest with
  | j::after =>
    if j == 'j' || j == 'J' then
      if numberEnds after then return (.imaginary value,after) else throw ()
  | [] => pure ()
  if !numberEnds rest then throw ()
  if isFloat then pure (.float value,rest)
  else
    let padded := whole.length > 1 && whole.head? == some '0' && whole.any (· != '0')
    if padded || whole.length > longestNumber then throw () else pure (.int (inBase 10 whole),rest)

def number (cs : List Char) : Except Unit (Const×List Char) :=
  match cs with
  | '0' :: 'x' :: rest => radix 16 rest
  | '0' :: 'X' :: rest => radix 16 rest
  | '0' :: 'o' :: rest => radix 8 rest
  | '0' :: 'O' :: rest => radix 8 rest
  | '0' :: 'b' :: rest => radix 2 rest
  | '0' :: 'B' :: rest => radix 2 rest
  | '.' :: _ => decimalRest [] cs
  | _ => do
    let (whole,rest) ← digitRun Char.isDigit cs
    decimalRest whole rest

/-- Body of a string up to its closing quotes, in reverse, with the rest. `run` counts the quotes just passed. -/
def stringBody (quote : Char) (size : Nat) : Nat→List Char→List Char→Option (List Char×List Char)
  | run, acc, [] => if run == size then some (acc.drop size,[]) else none
  | run, acc, c::rest =>
    if run == size then some (acc.drop size,c::rest)
    else if c == quote then stringBody quote size (run+1) (c::acc) rest
    else if c == '\n' && size == 1 then none
    else if c == '\\' then
      match rest with
      | e::more => stringBody quote size 0 (e::c::acc) more
      | [] => none
    else stringBody quote size 0 (c::acc) rest

def stringFrom (cs : List Char) : Option (List Char×List Char) :=
  match cs with
  | q1::q2::q3::rest =>
    if q1 == q2 && q2 == q3 then (stringBody q1 3 0 [] rest).map fun (b,r) => (b.reverse,r)
    else if q1 == q2 then some ([],q3::rest)
    else (stringBody q1 1 0 [] (q2::q3::rest)).map fun (b,r) => (b.reverse,r)
  | [q1,q2] => if q1 == q2 then some ([],[]) else none
  | _ => none

def isQuote (c : Char) : Bool := c == '"' || c.toNat == 39

def stringMark? (letters : List Char) : Option (List Char→StringPiece) :=
  match letters.map Char.toLower with
  | [] => some (⟨false,false,false,false,·⟩)
  | ['b'] => some (⟨false,true,false,false,·⟩)
  | ['u'] => some (⟨false,false,false,true,·⟩)
  | ['r'] => some (⟨true,false,false,false,·⟩)
  | ['f'] => some (⟨false,false,true,false,·⟩)
  | ['b','r'] => some (⟨true,true,false,false,·⟩)
  | ['r','b'] => some (⟨true,true,false,false,·⟩)
  | ['f','r'] => some (⟨true,false,true,false,·⟩)
  | ['r','f'] => some (⟨true,false,true,false,·⟩)
  | _ => none

def operators : List String :=
  ["**=","//=",">>=","<<=","...","==","!=","<>","<=",">=","<<",">>","+=","-=","*=","/=","%=","&=",
    "|=","^=","@=","->",":=","**","//"]

def operatorAt (cs : List Char) : String :=
  match operators.find? (fun o => o.toList.isPrefixOf cs) with
  | some o => o
  | none => String.ofList (cs.take 1)

def closerOf (c : Char) : Option Char :=
  if c == '(' then some ')' else if c == '[' then some ']' else if c.toNat == 0x7b then some (Char.ofNat 0x7d) else none

def isCloser (c : Char) : Bool := c == ')' || c == ']' || c.toNat == 0x7d

def deepestNesting : Nat := 200

def deepestLevel : Nat := 100

def isWordStart (c : Char) : Bool := c.isAlpha || c == '_' || c.toNat ≥ 128

def isWordRest (c : Char) : Bool := isWordStart c || c.isDigit

def isWord (cs : List Char) : Bool :=
  match cs with
  | [] => false
  | c::rest => Text.isNameStart c && rest.all Text.isNameRest

/-- Characters of full width stand for the plain ones in names. -/
def plainWidth (c : Char) : Char :=
  if 0xff01 ≤ c.toNat && c.toNat≤0xff5e then Char.ofNat (c.toNat - 0xfee0) else c

def countLines (cs : List Char) : Nat := cs.countP (· == '\n')

/-- Reads one token away from a line start. `none` for the kind means that only blanks were passed. -/
def step (st : State) (cs : List Char) : Option TokenKind×State×List Char :=
  match cs with
  | [] => (some .finish,st,[])
  | c::rest =>
    let bad : Option TokenKind×State×List Char := (some (.bad .grammar),st,[])
    if c == ' ' || c == '\t' || c.toNat == 12 then (none,st,rest)
    else if c == '#' then (none,st,rest.dropWhile (· != '\n'))
    else if c == '\n' then
      let next := { st with line := st.line+1, fresh := true }
      if st.brackets.isEmpty then (some .newline,next,rest) else (none,next,rest)
    else if c == '\\' then
      match rest with
      | '\n' :: more =>
        if more.isEmpty then (some (.bad .unfinished),st,[]) else (none,{ st with line := st.line+1 },more)
      | _ => (some (.bad .unfinished),st,[])
    else if isQuote c then
      match stringFrom cs with
      | some (body,more) =>
        (some (.string ⟨false,false,false,false,body⟩),{ st with line := st.line+countLines body },more)
      | none => bad
    else if isWordStart c then
      let word := cs.takeWhile isWordRest
      let more := cs.drop word.length
      let opened := match more with
        | q::_ => isQuote q
        | [] => false
      match (if opened then stringMark? word else none) with
      | some mark =>
        match stringFrom more with
        | some (body,after) => (some (.string (mark body)),{ st with line := st.line+countLines body },after)
        | none => bad
      | none => if isWord word then (some (.name (String.ofList (word.map plainWidth))),st,more) else bad
    else if c.isDigit || (c == '.' && (rest.head?.map Char.isDigit).getD false) then
      match number cs with
      | .ok (v,more) => (some (.number v),st,more)
      | .error _ => bad
    else
      let o := operatorAt cs
      let more := cs.drop o.length
      match closerOf c with
      | some closer =>
        if st.brackets.length ≥ deepestNesting then bad
        else (some (.op o),{ st with brackets := closer::st.brackets },more)
      | none =>
        if isCloser c then
          match st.brackets with
          | b::outer => if b == c then (some (.op o),{ st with brackets := outer },more) else bad
          | [] => bad
        else if c.toNat < 32 || c.toNat == 127 then bad
        else (some (.op o),st,more)

/-- Reads the margin of a fresh line: tokens for levels opened or closed, or nothing for a blank line. -/
def stepMargin (st : State) (cs : List Char) : List Token×State×List Char :=
  let m := margin 0 0 0 0 cs
  let st := { st with line := st.line+m.lines, fresh := false }
  let fault (f : SyntaxFault) : List Token×State×List Char := ([⟨.bad f,st.line⟩],st,[])
  if m.broken then fault .unfinished
  else
    let blank := match m.rest with
      | '#' :: _ => true
      | '\n' :: _ => true
      | _ => false
    if blank then
      let rest := (m.rest.dropWhile (· != '\n')).drop 1
      ([],{ st with line := st.line+1, fresh := true },rest)
    else if !st.brackets.isEmpty then ([],st,m.rest)
    else
      let col := if m.continued == 0 then m.col else m.continued
      let alt := if m.continued == 0 then m.alt else m.continued
      match settle col alt st.levels 0 with
      | .error f => fault f
      | .ok (levels,closed) =>
        if levels.length > st.levels.length then
          if levels.length ≥ deepestLevel then fault .indentation
          else if opensCleanly st.levels alt then ([⟨.indent,st.line⟩],{ st with levels := levels },m.rest)
          else fault .tabs
        else (List.replicate closed ⟨.dedent,st.line⟩,{ st with levels := levels },m.rest)

/-- Cuts a text into tokens, collected in reverse. Every step consumes a character or ends. -/
def run : Nat→State→List Char→List Token→List Token
  | 0, st, _, acc => ⟨.finish,st.line⟩::acc
  | fuel+1, st, cs, acc =>
    if st.fresh then
      let (tokens,st,rest) := stepMargin st cs
      let acc := tokens.reverse++acc
      match tokens with
      | ⟨.bad _,_⟩::_ => acc
      | _ => run fuel st rest acc
    else
      let line := st.line
      match step st cs with
      | (none,st,rest) => run fuel st rest acc
      | (some .finish,st,_) =>
        if st.brackets.isEmpty then ⟨.finish,line⟩::acc else ⟨.bad .unfinished,line⟩::acc
      | (some (.bad f),_,_) => ⟨.bad f,line⟩::acc
      | (some kind,st,rest) => run fuel st rest (⟨kind,line⟩::acc)

end Lexer

def tokens (text : String) : List Token :=
  let cs := Lexer.closeLine (Lexer.unifyLines text.toList)
  (Lexer.run (2 * cs.length+4) Lexer.State.initial cs []).reverse

end ChipForge.Script
