import ChipForge.Text.Basic

/-! Quoted text: a string or a row of bytes between quotes, with what cannot be shown written as an escape. -/
namespace ChipForge.Text

def hex (width n : Nat) : String :=
  let ds := Nat.toDigits 16 n
  String.ofList (List.replicate (width - ds.length) '0' ++ ds)

def preferredQuote (cs : List Char) : Char :=
  if cs.contains '\'' && !cs.contains '"' then '"' else '\''

def quotedChar (quote c : Char) : String :=
  if c == quote || c == '\\' then String.ofList ['\\',c]
  else if c == '\n' then "\\n"
  else if c == '\r' then "\\r"
  else if c == '\t' then "\\t"
  else if c == ' ' || isPrintable c then c.toString
  else if c.toNat≤0xff then "\\x" ++ hex 2 c.toNat
  else if c.toNat≤0xffff then "\\u" ++ hex 4 c.toNat
  else "\\U" ++ hex 8 c.toNat

def quoted (s : String) : String :=
  let cs := s.toList
  let quote := preferredQuote cs
  quote.toString++String.join (cs.map (quotedChar quote))++quote.toString

def quotedByte (quote : Char) (b : Nat) : String :=
  let c := Char.ofNat b
  if c == quote || c == '\\' then String.ofList ['\\',c]
  else if c == '\n' then "\\n"
  else if c == '\r' then "\\r"
  else if c == '\t' then "\\t"
  else if 32 ≤ b && b < 127 then c.toString
  else "\\x" ++ hex 2 b

def quotedBytes (bytes : List Nat) : String :=
  let quote := preferredQuote (bytes.map Char.ofNat)
  "b" ++ quote.toString++String.join (bytes.map (quotedByte quote))++quote.toString

end ChipForge.Text
