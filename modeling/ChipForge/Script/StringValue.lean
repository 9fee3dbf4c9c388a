import ChipForge.Script.Token

/-! Values of string literals: escapes are replaced by the characters or bytes they stand for. -/
namespace ChipForge.Script.StringValue

def hexDigits : Nat→List Char→Option (Nat×List Char)
  | 0, cs => some (0,cs)
  | n+1, c::rest => do
    let d ← Json.hexValue? c
    let (v,rest) ← hexDigits n rest
    pure (d * 16 ^ n+v,rest)
  | _ + 1, [] => none

def isOctal (c : Char) : Bool := '0' ≤ c && c ≤ '7'

def letterEscape? (c : Char) : Option Nat :=
  match c with
  | '\\' => some 92
  | '"' => some 34
  | 'a' => some 7
  | 'b' => some 8
  | 'f' => some 12
  | 'n' => some 10
  | 'r' => some 13
  | 't' => some 9
  | 'v' => some 11
  | _ => if c.toNat == 39 then some 39 else none

/-- What an escape stands for: a code, nothing, or itself with its backslash. -/
inductive Escape
  | code (n : Nat)
  | nothing
  | itself (c : Char)

/-- Reads an escape after its backslash. `wide` allows the forms for characters beyond one byte. -/
def escape (wide : Bool) (cs : List Char) : Option (Escape×List Char) :=
  match cs with
  | [] => some (.itself '\\',[])
  | c::rest =>
    if c == '\n' then some (.nothing,rest)
    else if isOctal c then
      let ds := c::(rest.take 2).takeWhile isOctal
      some (.code (Lexer.inBase 8 ds),cs.drop ds.length)
    else if c == 'x' then (hexDigits 2 rest).map fun (n,r) => (.code n,r)
    else if wide && c == 'u' then (hexDigits 4 rest).map fun (n,r) => (.code n,r)
    else if wide && c == 'U' then
      (hexDigits 8 rest).bind fun (n,r) => if n≤0x10ffff then some (.code n,r) else none
    else if wide && c == 'N' then none
    else match letterEscape? c with
      | some n => some (.code n,rest)
      | none => some (.itself c,rest)

/-- Characters of a text literal. The fuel is the length of the literal. -/
def textValue : Nat→List Char→Option (List Char)
  | 0, _ => some []
  | _ + 1, [] => some []
  | fuel+1, '\\' :: rest => do
    let (e,rest) ← escape true rest
    let tail ← textValue fuel rest
    match e with
    | .code n => pure (Json.charOfUnit n::tail)
    | .nothing => pure tail
    | .itself c => pure ('\\' :: c::tail)
  | fuel+1, c::rest => (textValue fuel rest).map (c::·)

def bytesValue (raw : Bool) : Nat→List Char→Option (List Nat)
  | 0, _ => some []
  | _ + 1, [] => some []
  | fuel+1, c::rest =>
    if c.toNat ≥ 128 then none
    else if c == '\\' && !raw then do
      let (e,rest) ← escape false rest
      let tail ← bytesValue raw fuel rest
      match e with
      | .code n => pure (n % 256::tail)
      | .nothing => pure tail
      | .itself d => if d.toNat ≥ 128 then none else pure (92::d.toNat::tail)
    else (bytesValue raw fuel rest).map (c.toNat::·)

def ofText (raw : Bool) (body : List Char) : Option String :=
  if raw then some (String.ofList body) else (textValue body.length body).map String.ofList

end ChipForge.Script.StringValue
