import ChipForge.Script.Syntax
import ChipForge.Decimal.Shortest
import ChipForge.Text.Quoted

/-! Printing of expressions with as few parentheses as their precedence allows. A format string whose fields would need
a backslash cannot be printed. -/
namespace ChipForge.Script.Printer
open Text

def precNamed : Nat := 1
def precTuple : Nat := 2
def precYield : Nat := 3
def precTest : Nat := 4
def precOr : Nat := 5
def precAnd : Nat := 6
def precNot : Nat := 7
def precCompare : Nat := 8
def precExpr : Nat := 9
def precArith : Nat := 13
def precTerm : Nat := 14
def precFactor : Nat := 15
def precPower : Nat := 16
def precAwait : Nat := 17
def precAtom : Nat := 18

def tighter (p : Nat) : Nat := if p < precAtom then p+1 else p

def parenthesize (context own : Nat) (text : String) : String :=
  if context > own then "(" ++ text ++ ")" else text

def binaryText : BinaryOp→String×Nat
  | .add => ("+",precArith)
  | .sub => ("-",precArith)
  | .mul => ("*",precTerm)
  | .matMul => ("@",precTerm)
  | .div => ("/",precTerm)
  | .mod => ("%",precTerm)
  | .floorDiv => ("//",precTerm)
  | .shiftLeft => ("<<",12)
  | .shiftRight => (">>",12)
  | .bitAnd => ("&",11)
  | .bitXor => ("^",10)
  | .bitOr => ("|",precExpr)
  | .pow => ("**",precPower)

def unaryText : UnaryOp→String×Nat
  | .not => ("not ",precNot)
  | .invert => ("~",precFactor)
  | .plus => ("+",precFactor)
  | .minus => ("-",precFactor)

def compareText : CompareOp→String
  | .eq => "=="
  | .notEq => "!="
  | .lt => "<"
  | .ltE => "<="
  | .gt => ">"
  | .gtE => ">="
  | .is => "is"
  | .isNot => "is not"
  | .isIn => "in"
  | .notIn => "not in"

/-- An infinite constant is written as a number too large to be finite. -/
def floatLayout (tail : String) : Decimal.Layout :=
  { Decimal.Layout.standard with wholeTail := tail, infinite := "1e309", undefined := "(1e309-1e309)" }

def simpleQuotes : List String := ["'","\""]

def blockQuotes : List String := ["\"\"\"","'''"]

def allQuotes : List String := simpleQuotes++blockQuotes

def escapeOf (c : Char) : String :=
  if c == '\\' then "\\\\"
  else if c == '\n' then "\\n"
  else if c == '\r' then "\\r"
  else if c == '\t' then "\\t"
  else if c.toNat≤0xff then "\\x" ++ hex 2 c.toNat
  else if c.toNat≤0xffff then "\\u" ++ hex 4 c.toNat
  else "\\U" ++ hex 8 c.toNat

def escaped (whitespaceToo : Bool) (c : Char) : String :=
  if !whitespaceToo && (c == '\n' || c == '\t') then c.toString
  else if c == '\\' || !(isPrintable c) then escapeOf c
  else c.toString

/-- Text to stand between quotes with few escapes, and the quotes that fit it, best first. -/
def literalText (s : String) (quotes : List String) (whitespaceToo : Bool) : String×List String :=
  let body := String.join (s.toList.map (escaped whitespaceToo))
  let possible := if contains body "\n" then quotes.filter blockQuotes.contains else quotes
  let possible := possible.filter (fun q => !contains body q)
  if possible.isEmpty then
    let quoted := quoted s
    let mark := take quoted 1
    let inner := String.ofList ((quoted.toList.drop 1).dropLast)
    (inner,[(quotes.find? (fun q => contains q mark)).getD mark])
  else match body.toList.getLast? with
    | none => (body,possible)
    | some last =>
      let clashes (q : String) : Bool := q.toList.head? == some last
      let sorted := possible.filter (fun q => !clashes q)++possible.filter clashes
      if clashes (sorted.headD "") then
        (String.ofList (body.toList.dropLast++['\\',last]),sorted)
      else (body,sorted)

def betweenQuotes (s : String) : String :=
  let (text,quotes) := literalText s allQuotes false
  let quote := quotes.headD "'"
  quote++text++quote

def constText (plainly : Bool) : Const→String
  | .none => "None"
  | .bool true => "True"
  | .bool false => "False"
  | .int n => toString n
  | .float x => (floatLayout ".0").write x
  | .imaginary x => (floatLayout "").write x ++ "j"
  | .str s marked => (if marked then "u" else "")++(if plainly then betweenQuotes s else quoted s)
  | .bytes bs => quotedBytes bs
  | .ellipsis => "..."

def doubleBraces (s : String) : String :=
  String.join (s.toList.map fun c => if c.toNat == 0x7b || c.toNat == 0x7d then String.ofList [c,c] else c.toString)

/-- Joins the parts of a format string: each part with a mark for literal text. -/
def joinFormat (parts : List (String×Bool)) : String :=
  let step (acc : Option (List String×List String)) (part : String×Bool) : Option (List String×List String) :=
    match acc with
    | none => none
    | some (texts,quotes) =>
      let (text,fitting) := literalText part.1 quotes part.2
      if fitting.any quotes.contains then some (texts++[text],fitting) else none
  match parts.foldl step (some ([],allQuotes)) with
  | some (texts,quotes) =>
    let quote := quotes.headD "'"
    quote++String.join texts++quote
  | none =>
    let texts := parts.map fun (text,_) =>
      String.ofList (((quoted ("\"" ++ text)).toList.drop 2).dropLast)
    "'''" ++ String.join texts ++ "'''"

def isIntConst : Expr→Bool
  | .const (.int _) => true
  | .const (.bool _) => true
  | _ => false

def oneOrMore (texts : List String) : String :=
  match texts with
  | [t] => t ++ ","
  | _ => String.intercalate ", " texts

def fieldText (e : String) (conversion : Option Char) (layout : String) : Option String :=
  if contains e "\\" then none
  else
    let gap := if startsWith e "\x7b" then " " else ""
    let mark := match conversion with
      | some c => "!" ++ c.toString
      | none => ""
    some ("\x7b" ++ gap++e++mark++layout ++ "\x7d")

mutual

/-- Text of an expression in a context. With `plainly` set, strings inside avoid backslashes. -/
def print (plainly : Bool) (context : Nat) : Expr→Option String
  | .const c => some (constText plainly c)
  | .name id => some id
  | .boolOp _ op values => do
    let own := match op with
      | .and => precAnd
      | .or => precOr
    let word := match op with
      | .and => " and "
      | .or => " or "
    let texts ← printRising plainly own values
    pure (parenthesize context own (String.intercalate word texts))
  | .named target value => do
    let t ← print plainly precAtom target
    let v ← print plainly precAtom value
    pure (parenthesize context precNamed (t ++ " := " ++ v))
  | .binary left op right => do
    let (sign,own) := binaryText op
    let rightFirst := own == precPower
    let l ← print plainly (if rightFirst then tighter own else own) left
    let r ← print plainly (if rightFirst then own else tighter own) right
    pure (parenthesize context own (l ++ " " ++ sign ++ " " ++ r))
  | .unary _ op operand => do
    let (sign,own) := unaryText op
    let e ← print plainly own operand
    pure (parenthesize context own (sign++e))
  | .lambda params body => do
    let ps ← printParams plainly params
    let b ← print plainly precTest body
    let head := if ps.isEmpty then "lambda" else "lambda " ++ String.intercalate ", " ps
    pure (parenthesize context precTest (head ++ ": " ++ b))
  | .cond _ test body orelse => do
    let b ← print plainly precOr body
    let t ← print plainly precOr test
    let o ← print plainly precTest orelse
    pure (parenthesize context precTest (b ++ " if " ++ t ++ " else " ++ o))
  | .dict items => do
    let texts ← printItems plainly items
    pure ("\x7b" ++ String.intercalate ", " texts ++ "\x7d")
  | .set [] => some "\x7b*()\x7d"
  | .set items => do
    let texts ← printAll plainly items
    pure ("\x7b" ++ String.intercalate ", " texts ++ "\x7d")
  | .listOf item clauses => do
    let e ← print plainly precTest item
    let cs ← printClauses plainly clauses
    pure ("[" ++ e++cs ++ "]")
  | .setOf item clauses => do
    let e ← print plainly precTest item
    let cs ← printClauses plainly clauses
    pure ("\x7b" ++ e++cs ++ "\x7d")
  | .dictOf key value clauses => do
    let k ← print plainly precTest key
    let v ← print plainly precTest value
    let cs ← printClauses plainly clauses
    pure ("\x7b" ++ k ++ ": " ++ v++cs ++ "\x7d")
  | .generator item clauses => do
    let e ← print plainly precTest item
    let cs ← printClauses plainly clauses
    pure ("(" ++ e++cs ++ ")")
  | .await value => do
    let v ← print plainly precAtom value
    pure (parenthesize context precAwait ("await " ++ v))
  | .yield none => some (parenthesize context precYield "yield")
  | .yield (some value) => do
    let v ← print plainly precAtom value
    pure (parenthesize context precYield ("yield " ++ v))
  | .yieldFrom value => do
    let v ← print plainly precAtom value
    pure (parenthesize context precYield ("yield from " ++ v))
  | .compare _ left rest => do
    let l ← print plainly (tighter precCompare) left
    let r ← printComparisons plainly rest
    pure (parenthesize context precCompare (l++r))
  | .call _ fn args keywords => do
    let f ← print plainly precAtom fn
    let as_ ← printAll plainly args
    let ks ← printKeywords plainly keywords
    pure (f ++ "(" ++ String.intercalate ", " (as_++ks) ++ ")")
  | .formatted value conversion spec => do
    let e ← print true precOr value
    let layout ← printSpec spec
    fieldText e conversion layout
  | .joined parts =>
    if plainly then do
      let inner ← printInner parts
      pure ("f" ++ betweenQuotes (String.join (inner.map (·.1))))
    else do
      let inner ← printInner parts
      pure ("f" ++ joinFormat inner)
  | .attribute value attr => do
    let v ← print plainly precAtom value
    pure (v++(if isIntConst value then " " else "") ++ "." ++ attr)
  | .subscript value (.tuple (item::items)) => do
    let v ← print plainly precAtom value
    let first ← print plainly precTest item
    let rest ← printAll plainly items
    pure (v ++ "[" ++ oneOrMore (first::rest) ++ "]")
  | .subscript value slice => do
    let v ← print plainly precAtom value
    let s ← print plainly precTest slice
    pure (v ++ "[" ++ s ++ "]")
  | .starred value => do
    let v ← print plainly precExpr value
    pure ("*" ++ v)
  | .list items => do
    let texts ← printAll plainly items
    pure ("[" ++ String.intercalate ", " texts ++ "]")
  | .tuple [] => some "()"
  | .tuple items => do
    let texts ← printAll plainly items
    pure (parenthesize context precTuple (oneOrMore texts))
  | .slice lower upper step => do
    let l ← printBound plainly lower
    let u ← printBound plainly upper
    let s ← printBound plainly step
    pure (l ++ ":" ++ u++(if step.isSome then ":" ++ s else ""))

def printBound (plainly : Bool) : Option Expr→Option String
  | none => some ""
  | some e => print plainly precTest e

def printAll (plainly : Bool) : List Expr→Option (List String)
  | [] => some []
  | e::rest => do
    let t ← print plainly precTest e
    let ts ← printAll plainly rest
    pure (t::ts)

def printRising (plainly : Bool) (context : Nat) : List Expr→Option (List String)
  | [] => some []
  | e::rest => do
    let t ← print plainly (tighter context) e
    let ts ← printRising plainly (tighter context) rest
    pure (t::ts)

def printParams (plainly : Bool) : List Param→Option (List String)
  | [] => some []
  | .plain name default::rest => do
    let d ← printBound plainly default
    let ts ← printParams plainly rest
    pure ((name++(if default.isSome then "=" ++ d else ""))::ts)
  | .slash::rest => (printParams plainly rest).map ("/" :: ·)
  | .star::rest => (printParams plainly rest).map ("*" :: ·)
  | .rest name::rest => (printParams plainly rest).map (("*" ++ name)::·)
  | .keywordRest name::rest => (printParams plainly rest).map (("**" ++ name)::·)

def printItems (plainly : Bool) : List DictItem→Option (List String)
  | [] => some []
  | .mk none value::rest => do
    let v ← print plainly precExpr value
    let ts ← printItems plainly rest
    pure (("**" ++ v)::ts)
  | .mk (some key) value::rest => do
    let k ← print plainly precTest key
    let v ← print plainly precTest value
    let ts ← printItems plainly rest
    pure ((k ++ ": " ++ v)::ts)

def printFilters (plainly : Bool) : List Expr→Option String
  | [] => some ""
  | e::rest => do
    let t ← print plainly precOr e
    let ts ← printFilters plainly rest
    pure (" if " ++ t++ts)

def printClauses (plainly : Bool) : List Clause→Option String
  | [] => some ""
  | .mk isAsync target source filters::rest => do
    let t ← print plainly precTuple target
    let s ← print plainly precOr source
    let fs ← printFilters plainly filters
    let ts ← printClauses plainly rest
    pure ((if isAsync then " async for " else " for ")++t ++ " in " ++ s++fs++ts)

def printComparisons (plainly : Bool) : List Comparison→Option String
  | [] => some ""
  | .mk op right::rest => do
    let r ← print plainly (tighter precCompare) right
    let ts ← printComparisons plainly rest
    pure (" " ++ compareText op ++ " " ++ r++ts)

def printKeywords (plainly : Bool) : List Keyword→Option (List String)
  | [] => some []
  | .mk name value::rest => do
    let v ← print plainly precTest value
    let ts ← printKeywords plainly rest
    let head := match name with
      | some n => n ++ "="
      | none => "**"
    pure ((head++v)::ts)

def printSpec : Option Expr→Option String
  | none => some ""
  | some (.joined parts) => do
    let inner ← printInner parts
    pure (":" ++ String.join (inner.map (·.1)))
  | some (.const (.str s _)) => some (":" ++ doubleBraces s)
  | some _ => none

def printInner : List Expr→Option (List (String×Bool))
  | [] => some []
  | .const (.str s _)::rest => (printInner rest).map ((doubleBraces s,true)::·)
  | .formatted value conversion spec::rest => do
    let e ← print true precOr value
    let layout ← printSpec spec
    let f ← fieldText e conversion layout
    let ts ← printInner rest
    pure ((f,false)::ts)
  | .joined parts::rest => do
    let inner ← printInner parts
    let ts ← printInner rest
    pure ((String.join (inner.map (·.1)),false)::ts)
  | _ :: _ => none

end

end Printer

/-- Text of an expression, unless it holds a format string that cannot be written. -/
def Expr.print? (e : Expr) : Option String := Printer.print false Printer.precTest e

end ChipForge.Script
