import ChipForge.Docs.Signature

/-! A tutorial with numbered headings. Under the heading of a module stands the line that shows how it is called; an old such
line is replaced. -/
namespace ChipForge.Docs
open Text

def headingWords : List (String×String) :=
  [("touppercase","uppercase"),("tolowercase","stringlowercase"),("find","stringfind"),("prevfrane","prevframe"),
    ("vectorcrossproduct","crossproduct"),("shiftleft","shiftleftbitop"),("shiftright","shiftrightbitop"),
    ("lookat","lookatentity")]

def plainHeadings : List String := ["数学运算，本部分支持python的部分原生语法","ENTITY 类型使用要点"]

def fixedLines : List (String×String) :=
  [("offsetvector","  " ++ marker ++ " OffsetVector(vector, offset)"),("fromascii","  " ++ marker ++ " FromAscii(ascii)"),
    ("detector","  " ++ marker ++ " N/A（外部组件，非芯片函数）")]

def isNumeral (c : Char) : Bool := (decimalValue? c).isSome

def afterNumber? (cs : List Char) : Option (List Char) :=
  let digits := cs.takeWhile isNumeral
  if digits.isEmpty then none
  else
    match cs.drop digits.length with
    | '.' :: rest => some rest
    | _ => none

/-- The text of a heading such as `1.2. Name`. -/
def headingText? (line : String) : Option String := do
  let rest ← afterNumber? (line.toList.dropWhile isBlank)
  let tail ← afterNumber? rest
  if tail.isEmpty then none else some (trim (String.ofList tail))

def before (mark : Char) (s : String) : String := trim (String.ofList (s.toList.takeWhile (· != mark)))

/-- The name in a heading: remarks in brackets and a leading quote are left out. -/
def headingName (text : String) : String :=
  let unquoted := trim (String.ofList ((trim text).toList.dropWhile (· == '\x60')))
  before '（' (before '(' unquoted)

def headingKey (name : String) : String :=
  let key := nameKey name
  (headingWords.lookup key).getD key

def entryFor? (index : Index) (name : String) : Option Entry :=
  (index.byName.find (headingKey name)).orElse fun _ => index.byWords.find (wordKey name)

def lineFor? (index : Index) (name : String) : Option String :=
  match entryFor? index name with
  | some entry => some entry.line
  | none => fixedLines.lookup (headingKey name)

/-- What a line is. -/
inductive Reading
  | known (line : String)
  | unknown (name : String)
  | other

def readLine (index : Index) (line : String) : Reading :=
  match headingText? line with
  | none => .other
  | some text =>
    let name := headingName text
    if plainHeadings.contains name then .other
    else
      match lineFor? index name with
      | some l => .known l
      | none => .unknown name

/-- What became of a tutorial. -/
structure Outcome where
  lines : List String
  inserted : Nat
  replaced : Nat
  unknown : List String

namespace Outcome

def empty : Outcome := ⟨[],0,0,[]⟩

def cons (line : String) (o : Outcome) : Outcome := { o with lines := line::o.lines }

def insert (line : String) (o : Outcome) : Outcome := { o with lines := line::o.lines, inserted := o.inserted+1 }

def replace (line : String) (o : Outcome) : Outcome := { o with lines := line::o.lines, replaced := o.replaced+1 }

end Outcome

/-- Goes through lines. `due` is the line that belongs under the heading just passed. -/
def syncFrom (index : Index) : Option String→List String→Outcome
  | none, [] => .empty
  | some signature, [] => Outcome.empty.insert signature
  | due, line::rest =>
    let scanned (_ : Unit) : Outcome :=
      match readLine index line with
      | .other => (syncFrom index none rest).cons line
      | .unknown name =>
        let o := syncFrom index none rest
        { o with lines := line::o.lines, unknown := name::o.unknown }
      | .known signature => (syncFrom index (some signature) rest).cons line
    match due with
    | none => scanned ()
    | some signature =>
      if contains line marker then (syncFrom index none rest).replace signature
      else (scanned ()).insert signature

def syncLines (index : Index) (lines : List String) : Outcome := syncFrom index none lines

def distinct : List String→List String→List String
  | _, [] => []
  | seen, name::rest =>
    let key := nameKey name
    if key.isEmpty || seen.contains key then distinct seen rest else name::distinct (key::seen) rest

/-- The nearest folder at or above a path, given by its parts, that has a catalogue and a tutorial. -/
def rootAbove (complete : List String→Bool) (parts : List String) : Except Failure (List String) :=
  match ((List.range (parts.length+1)).reverse.map parts.take).find? complete with
  | some root => .ok root
  | none => .error (.refusal (.named "FileNotFoundError") "无法定位项目根目录（缺少 moduledef.json 或 芯片教程.txt）")

def syncText (index : Index) (file text : String) : String×List String :=
  let o := syncLines index (splitLines text)
  let unknown := distinct [] o.unknown
  let counts := "matched=" ++ toString (o.inserted+o.replaced) ++ " inserted=" ++ toString o.inserted ++ " replaced=" ++
    toString o.replaced ++ " unmatched=" ++ toString unknown.length ++ " file=" ++ file
  (String.intercalate "\n" o.lines ++ "\n",
    if unknown.isEmpty then [counts] else [counts,"unmatched_preview=" ++ String.intercalate " | " (unknown.take 12)])

end ChipForge.Docs
