import ChipForge.Json.Basic

/-! Reading values from text. Besides the standard grammar the words `NaN`, `Infinity` and `-Infinity` are numbers.
A failure says what was expected and how much of the text was left at that point. -/
namespace ChipForge.Json

/-- What went wrong while reading, and how many characters were left there. -/
structure ReadError where
  what : String
  left : Nat

abbrev Read (α : Type) := Except ReadError (α×List Char)

def failAt {α : Type} (what : String) (cs : List Char) : Read α := .error ⟨what,cs.length⟩

def isSpace (c : Char) : Bool := c == ' ' || c == '\t' || c == '\n' || c == '\r'

def skipSpace (cs : List Char) : List Char := cs.dropWhile isSpace

def hexValue? (c : Char) : Option Nat :=
  if c.isDigit then some (c.toNat - 48)
  else if 'a' ≤ c && c ≤ 'f' then some (c.toNat - 87)
  else if 'A' ≤ c && c ≤ 'F' then some (c.toNat - 55)
  else none

def hex4? : List Char→Option (Nat×List Char)
  | a::b::c::d::rest => do
    let a ← hexValue? a
    let b ← hexValue? b
    let c ← hexValue? c
    let d ← hexValue? d
    pure (4096 * a+256 * b+16 * c+d,rest)
  | _ => none

/-- Half of a pair of units that stands alone is no character; the replacement character stands for it. -/
def charOfUnit (n : Nat) : Char := if 0xd800 ≤ n && n≤0xdfff then Char.ofNat 0xfffd else Char.ofNat n

/-- A unit that may be the first half of a pair, with the text after it. -/
def joinUnits (high : Nat) (rest : List Char) : Char×List Char :=
  match rest with
  | '\\' :: 'u' :: more =>
    match hex4? more with
    | some (low,after) =>
      if 0xd800 ≤ high && high≤0xdbff && 0xdc00 ≤ low && low≤0xdfff then
        (Char.ofNat (0x10000+(high - 0xd800) * 1024+(low - 0xdc00)),after)
      else (charOfUnit high,rest)
    | none => (charOfUnit high,rest)
  | _ => (charOfUnit high,rest)

def simpleEscape? (c : Char) : Option Char :=
  match c with
  | '"' => some '"'
  | '\\' => some '\\'
  | '/' => some '/'
  | 'b' => some '\x08'
  | 'f' => some '\x0c'
  | 'n' => some '\n'
  | 'r' => some '\r'
  | 't' => some '\t'
  | _ => none

/-- Characters of a string up to its closing quote, collected in reverse. `start` is the text from the opening quote
on. The fuel is the length of the text. -/
def readChars (start : List Char) : Nat→List Char→List Char→Read String
  | 0, _, _ => failAt "Unterminated string starting at" start
  | _ + 1, _, [] => failAt "Unterminated string starting at" start
  | fuel+1, acc, c::rest =>
    if c == '"' then .ok (String.ofList acc.reverse,rest)
    else if c == '\\' then
      match rest with
      | [] => failAt "Unterminated string starting at" start
      | 'u' :: more =>
        match hex4? more with
        | some (unit,after) =>
          if after.isEmpty then failAt "Invalid \\uXXXX escape" rest
          else
            let (ch,after) := joinUnits unit after
            readChars start fuel (ch::acc) after
        | none => failAt "Invalid \\uXXXX escape" rest
      | e::more =>
        match simpleEscape? e with
        | some ch => readChars start fuel (ch::acc) more
        | none => failAt "Invalid \\escape" (c::rest)
    else if c.toNat<32 then failAt "Invalid control character at" (c::rest)
    else readChars start fuel (c::acc) rest

def readString (start : List Char) : Read String := readChars start (start.length+1) [] (start.drop 1)

def digitsOf (cs : List Char) : Nat := cs.foldl (fun n c => 10 * n+(c.toNat - 48)) 0

def readFraction : List Char→List Char×List Char
  | '.' :: rest =>
    let ds := rest.takeWhile Char.isDigit
    if ds.isEmpty then ([],'.' :: rest) else (ds,rest.drop ds.length)
  | cs => ([],cs)

def readExponent (cs : List Char) : Option Int×List Char :=
  match cs with
  | e::rest =>
    if e == 'e' || e == 'E' then
      let (negative,body) := match rest with
        | '-' :: more => (true,more)
        | '+' :: more => (false,more)
        | more => (false,more)
      let ds := body.takeWhile Char.isDigit
      if ds.isEmpty then (none,cs)
      else
        let n : Int := digitsOf ds
        (some (if negative then -n else n),body.drop ds.length)
    else (none,cs)
  | [] => (none,[])

def readNumber (negative : Bool) (cs : List Char) : Option (Json×List Char) :=
  let whole := match cs with
    | '0' :: _ => ['0']
    | _ => cs.takeWhile Char.isDigit
  if whole.isEmpty then none
  else
    let afterWhole := cs.drop whole.length
    let (fraction,afterFraction) := readFraction afterWhole
    let (exponent,rest) := readExponent afterFraction
    if fraction.isEmpty && exponent.isNone then
      let n : Int := digitsOf whole
      some (.int (if negative then -n else n),rest)
    else
      let x := Decimal.nearest (digitsOf (whole++fraction)) (exponent.getD 0 - fraction.length)
      some (.float (if negative then -x else x),rest)

def keyword? (word : String) (cs : List Char) : Option (List Char) :=
  if word.toList.isPrefixOf cs then some (cs.drop word.length) else none

def readAtom (cs : List Char) : Read Json :=
  let expecting := failAt "Expecting value" cs
  let word (w : String) (v : Json) : Read Json :=
    match keyword? w cs with
    | some rest => .ok (v,rest)
    | none => expecting
  match cs with
  | 'n' :: _ => word "null" .null
  | 't' :: _ => word "true" (.bool true)
  | 'f' :: _ => word "false" (.bool false)
  | 'N' :: _ => word "NaN" (.float (0.0 / 0.0))
  | 'I' :: _ => word "Infinity" (.float (1.0 / 0.0))
  | '-' :: 'I' :: _ => word "-Infinity" (.float (-1.0 / 0.0))
  | '-' :: rest => ((readNumber true rest).map Except.ok).getD expecting
  | _ => ((readNumber false cs).map Except.ok).getD expecting

mutual

/-- A value at the start of the text. The fuel bounds the number of steps. -/
def readValue : Nat→List Char→Read Json
  | 0, cs => failAt "Expecting value" cs
  | fuel+1, cs =>
    match cs with
    | '"' :: _ => (readString cs).map fun (s,rest) => (.str s,rest)
    | '[' :: rest =>
      match skipSpace rest with
      | ']' :: after => .ok (.arr [],after)
      | body => readItems fuel [] body
    | '\x7b' :: rest =>
      match skipSpace rest with
      | '\x7d' :: after => .ok (.obj [],after)
      | body => readFields fuel [] body
    | _ => readAtom cs

def readItems : Nat→List Json→List Char→Read Json
  | 0, _, cs => failAt "Expecting value" cs
  | fuel+1, acc, cs =>
    match readValue fuel cs with
    | .error e => .error e
    | .ok (v,rest) =>
      match skipSpace rest with
      | ']' :: after => .ok (.arr (v::acc).reverse,after)
      | ',' :: after => readItems fuel (v::acc) (skipSpace after)
      | other => failAt "Expecting ',' delimiter" other

def readFields : Nat→List (String×Json)→List Char→Read Json
  | 0, _, cs => failAt "Expecting value" cs
  | fuel+1, acc, cs =>
    match cs with
    | '"' :: _ =>
      match readString cs with
      | .error e => .error e
      | .ok (key,rest) =>
        match skipSpace rest with
        | ':' :: after =>
          match readValue fuel (skipSpace after) with
          | .error e => .error e
          | .ok (v,rest) =>
            match skipSpace rest with
            | '\x7d' :: after => .ok (ofFields ((key,v)::acc).reverse,after)
            | ',' :: after => readFields fuel ((key,v)::acc) (skipSpace after)
            | other => failAt "Expecting ',' delimiter" other
        | other => failAt "Expecting ':' delimiter" other
    | _ => failAt "Expecting property name enclosed in double quotes" cs

end

/-- Place of a failure in the text: line and column from one, and the number of characters before it. -/
def ReadError.describe (e : ReadError) (total : List Char) : String :=
  let before := total.take (total.length - e.left)
  let line := before.countP (· == '\n')+1
  let column := (before.reverse.takeWhile (· != '\n')).length+1
  s!"{e.what}: line {line} column {column} (char {before.length})"

def parse (text : String) : Except String Json :=
  let cs := text.toList
  let fail (e : ReadError) : Except String Json := .error (e.describe cs)
  match cs with
  | '\ufeff'::_ => fail ⟨"Unexpected UTF-8 BOM (decode using utf-8-sig)",cs.length⟩
  | _ =>
    match readValue (2 * cs.length+2) (skipSpace cs) with
    | .error e => fail e
    | .ok (v,rest) =>
      match skipSpace rest with
      | [] => .ok v
      | extra => fail ⟨"Extra data",extra.length⟩

end ChipForge.Json
