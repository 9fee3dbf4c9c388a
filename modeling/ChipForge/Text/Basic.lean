import ChipForge.Text.Classes

/-! Operations on text by character class: trimming, case, reading of numbers. -/
namespace ChipForge.Text

def isBlank (c : Char) : Bool := Classes.member Classes.blankBounds c

def isNameStart (c : Char) : Bool := Classes.member Classes.nameStartBounds c

def isDecimal (c : Char) : Bool := Classes.member Classes.decimalBounds c

def isNameRest (c : Char) : Bool := isNameStart c || isDecimal c || Classes.member Classes.markBounds c

def isDigit (c : Char) : Bool := isDecimal c || Classes.member Classes.digitFormBounds c

def isAlphanumeric (c : Char) : Bool :=
  isNameStart c && !Classes.nameMarks.contains c.toNat || isDigit c || Classes.member Classes.numeralBounds c

/-- Control, format, private and unassigned characters cannot be shown. -/
def isPrintable (c : Char) : Bool := isNameRest c || isAlphanumeric c || Classes.member Classes.symbolBounds c

def isPlain (c : Char) : Bool := c.isAlpha || c.isDigit

/-- Value of a decimal digit of any script. Digits stand in runs of ten that start with zero. -/
def decimalValue? (c : Char) : Option Nat :=
  let below := Classes.boundariesUpTo Classes.decimalBounds c.toNat 24 0 Classes.decimalBounds.size
  if below % 2 == 1 then some ((c.toNat - Classes.decimalBounds.getD (below - 1) 0) % 10) else none

def allDigits (s : String) : Bool := !s.isEmpty && s.toList.all isDigit

def dropBlankEnd (cs : List Char) : List Char := (cs.reverse.dropWhile isBlank).reverse

def trim (s : String) : String := String.ofList (dropBlankEnd (s.toList.dropWhile isBlank))

def squeeze (s : String) : String := String.ofList (s.toList.filter (fun c => !isBlank c))

def shiftIn (code : Nat) : List (Nat×Nat×Nat×Int)→Option Nat
  | [] => none
  | (first,last,step,shift)::rest =>
    if first ≤ code && code ≤ last && (code - first) % step == 0 then some ((code : Int)+shift).toNat
    else shiftIn code rest

/-- The small form of one character. One capital of the table has a small form of two characters. -/
def lowerChar (c : Char) : List Char :=
  if c.toNat < 128 then [c.toLower]
  else if c.toNat == 0x130 then ['i',Char.ofNat 0x307]
  else match shiftIn c.toNat Classes.lowerRuns.toList with
    | some code => [Char.ofNat code]
    | none => [c]

/-- Has the character a form in the other case? -/
def isCased (c : Char) : Bool :=
  if c.toNat < 128 then c.isAlpha
  else (shiftIn c.toNat Classes.lowerRuns.toList).isSome ||
    Classes.lowerRuns.any fun (first,last,step,shift) =>
      let code := (c.toNat : Int) - shift
      (first : Int) ≤ code && code ≤ last && (code.toNat - first) % step == 0

/-- Marks that do not end a word for the purpose of the small final sigma. -/
def isCaseIgnorable (c : Char) : Bool :=
  "'.:^`¨­¯´·¸’‘".toList.contains c || (0x300 ≤ c.toNat && c.toNat≤0x36f)

/-- Small letters of a text, given the characters before it in reverse. A capital sigma at the end of a word becomes
a final sigma. -/
def lowerAfter : List Char→List Char→List Char
  | _, [] => []
  | before, c::rest =>
    let small :=
      if c == 'Σ' then
        let letterBefore := ((before.dropWhile isCaseIgnorable).head?.map isCased).getD false
        let letterAfter := ((rest.dropWhile isCaseIgnorable).head?.map isCased).getD false
        [if letterBefore && !letterAfter then 'ς' else 'σ']
      else lowerChar c
    small++lowerAfter (c::before) rest

def lower (s : String) : String := String.ofList (lowerAfter [] s.toList)

/-- Capital form of a character as far as it lies in the plain Latin alphabet; other characters stay as they are. -/
def latinUpperChar (c : Char) : List Char :=
  match c.toNat with
  | 0x131 => ['I']
  | 0x17f => ['S']
  | 0xdf => ['S','S']
  | 0xfb00 => ['F','F']
  | 0xfb01 => ['F','I']
  | 0xfb02 => ['F','L']
  | 0xfb03 => ['F','F','I']
  | 0xfb04 => ['F','F','L']
  | 0xfb05 => ['S','T']
  | 0xfb06 => ['S','T']
  | _ => [c.toUpper]

/-- The text in capitals, exact for comparison with a word of plain Latin letters. -/
def latinUpper (s : String) : String := String.ofList (s.toList.flatMap latinUpperChar)

/-- Runs of small letters, with the way back to their capitals. -/
def capitalRuns : List (Nat×Nat×Nat×Int) :=
  Classes.lowerRuns.toList.map fun (first,last,step,shift) => ((first+shift).toNat,(last+shift).toNat,step,-shift)

def titleChar (c : Char) : List Char :=
  if c.toNat < 128 then [c.toUpper]
  else
    match Classes.titleSequences.lookup c.toNat with
    | some codes => codes.map Char.ofNat
    | none =>
      match shiftIn c.toNat (Classes.titleExceptions++capitalRuns) with
      | some code => [Char.ofNat code]
      | none => [c]

def capitalize (s : String) : String :=
  match s.toList with
  | [] => ""
  | c::rest => String.ofList (titleChar c++lowerAfter [c] rest)

def findFrom (part : List Char) : Nat→List Char→Option Nat
  | at_, [] => if part.isEmpty then some at_ else none
  | at_, c::rest => if part.isPrefixOf (c::rest) then some at_ else findFrom part (at_+1) rest

def contains (s part : String) : Bool := (findFrom part.toList 0 s.toList).isSome

/-- The text before the first occurrence of a part, and the text after it if there is one. -/
def cut (s part : String) : String×Option String :=
  let cs := s.toList
  match findFrom part.toList 0 cs with
  | none => (s,none)
  | some i => (String.ofList (cs.take i),some (String.ofList (cs.drop (i+part.length))))

/-- What follows the last separator of a text; `part` follows the last one so far, and `skip` characters of it are still
to be passed over. -/
def afterLast (sep : List Char) : Nat→List Char→List Char→List Char
  | _, part, [] => part
  | skip+1, part, _ :: rest => afterLast sep skip part rest
  | 0, part, c::rest =>
    if sep.isPrefixOf (c::rest) then afterLast sep (sep.length - 1) ((c::rest).drop sep.length) rest
    else afterLast sep 0 part rest

def lastPart (s sep : String) : String :=
  if sep.isEmpty then s else String.ofList (afterLast sep.toList 0 s.toList s.toList)

def firstPart (s sep : String) : String := if sep.isEmpty then s else (cut s sep).1

def startsWith (s part : String) : Bool := part.toList.isPrefixOf s.toList

def endsWith (s part : String) : Bool := part.toList.reverse.isPrefixOf s.toList.reverse

def take (s : String) (n : Nat) : String := String.ofList (s.toList.take n)

def unifyLines : List Char→List Char
  | [] => []
  | '\r' :: '\n' :: rest => '\n' :: unifyLines rest
  | '\r' :: rest => '\n' :: unifyLines rest
  | c::rest => c::unifyLines rest

def isLineEnd (c : Char) : Bool :=
  ['\n','\x0b','\x0c','\r','\x1c','\x1d','\x1e','\x85','\u2028','\u2029'].contains c

def linesFrom (cur : List Char) : List Char→List String
  | [] => if cur.isEmpty then [] else [String.ofList cur.reverse]
  | '\r' :: '\n' :: rest => String.ofList cur.reverse::linesFrom [] rest
  | c::rest => if isLineEnd c then String.ofList cur.reverse::linesFrom [] rest else linesFrom (c::cur) rest

def splitLines (s : String) : List String := linesFrom [] s.toList

def readDigits : List Char→Option (List Nat)
  | [] => none
  | [c] => (decimalValue? c).map ([·])
  | c :: '_' :: rest => do
    let d ← decimalValue? c
    let ds ← readDigits rest
    pure (d::ds)
  | c::rest => do
    let d ← decimalValue? c
    let ds ← readDigits rest
    pure (d::ds)

def ofDigitList (ds : List Nat) : Nat := ds.foldl (fun n d => 10 * n+d) 0

def splitSign : List Char→Bool×List Char
  | '-' :: rest => (true,rest)
  | '+' :: rest => (false,rest)
  | cs => (false,cs)

/-- Reads a whole number: blanks around it, a sign and single underscores between digits are allowed. -/
def readInt? (s : String) : Option Int := do
  let (negative,body) := splitSign (trim s).toList
  let ds ← readDigits body
  let n : Int := ofDigitList ds
  pure (if negative then -n else n)

end ChipForge.Text
