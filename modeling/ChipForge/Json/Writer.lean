import ChipForge.Json.Basic

/-! Writing values as text. A style fixes the separators, the indentation and which characters are escaped. -/
namespace ChipForge.Json

/-- How a value is laid out as text. -/
structure Style where
  itemGap : String
  nameGap : String
  /-- Blanks per level, one item a line, or everything on one line. -/
  indent : Option Nat
  /-- Are characters beyond the plain Latin ones escaped? -/
  asciiOnly : Bool

namespace Style

def spaced : Style := ⟨", ",": ",none,true⟩

def compact : Style := ⟨",",":",none,true⟩

def indented (n : Nat) : Style := ⟨",",": ",some n,true⟩

/-- The same layout with all characters but controls written as they are. -/
def unicode (s : Style) : Style := ⟨s.itemGap,s.nameGap,s.indent,false⟩

end Style

def unit16 (n : Nat) : String := "\\u" ++ Text.hex 4 n

def escapeChar (asciiOnly : Bool) (c : Char) : String :=
  match c with
  | '"' => "\\\""
  | '\\' => "\\\\"
  | '\n' => "\\n"
  | '\r' => "\\r"
  | '\t' => "\\t"
  | '\x08' => "\\b"
  | '\x0c' => "\\f"
  | _ =>
    let n := c.toNat
    if n < 32 then unit16 n
    else if !asciiOnly || n < 127 then c.toString
    else if n < 0x10000 then unit16 n
    else unit16 (0xd800+(n - 0x10000) / 1024)++unit16 (0xdc00+(n - 0x10000) % 1024)

def writeString (asciiOnly : Bool) (s : String) : String :=
  "\"" ++ s.toList.foldl (fun acc c => acc++escapeChar asciiOnly c) "" ++ "\""

/-- Numbers keep their shortest decimal; the undefined and infinite ones are words. -/
def numberLayout : Decimal.Layout := { Decimal.Layout.standard with infinite := "Infinity", undefined := "NaN" }

def Style.breakLine (style : Style) (level : Nat) : String :=
  match style.indent with
  | none => ""
  | some n => "\n" ++ String.ofList (List.replicate (n * level) ' ')

mutual

def writeAt (style : Style) (level : Nat) (acc : String) : Json→String
  | .null => acc ++ "null"
  | .bool true => acc ++ "true"
  | .bool false => acc ++ "false"
  | .int n => acc++toString n
  | .float x => acc++numberLayout.write x
  | .str s => acc++writeString style.asciiOnly s
  | .arr [] => acc ++ "[]"
  | .arr (v::rest) =>
    let first := writeAt style (level+1) (acc ++ "[" ++ style.breakLine (level+1)) v
    writeItems style (level+1) first rest++style.breakLine level ++ "]"
  | .obj [] => acc ++ "\x7b\x7d"
  | .obj ((k,v)::rest) =>
    let start := acc ++ "\x7b" ++ style.breakLine (level+1)++writeString style.asciiOnly k++style.nameGap
    let first := writeAt style (level+1) start v
    writeFields style (level+1) first rest++style.breakLine level ++ "\x7d"

def writeItems (style : Style) (level : Nat) (acc : String) : List Json→String
  | [] => acc
  | v::rest =>
    writeItems style level (writeAt style level (acc++style.itemGap++style.breakLine level) v) rest

def writeFields (style : Style) (level : Nat) (acc : String) : List (String×Json)→String
  | [] => acc
  | (k,v)::rest =>
    let start := acc++style.itemGap++style.breakLine level++writeString style.asciiOnly k++style.nameGap
    writeFields style level (writeAt style level start v) rest

end

def write (style : Style) (v : Json) : String := writeAt style 0 "" v

end ChipForge.Json
