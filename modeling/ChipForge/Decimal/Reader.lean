import ChipForge.Decimal.Shortest
import ChipForge.Text.Basic

/-! Reading numbers from text: blanks around it, a sign, digits of any script with single underscores between them, a
point and an exponent are allowed, and so are the words for the infinite and the undefined. -/
namespace ChipForge.Decimal
open Text

def takeDigits : List Char→List Nat×List Char
  | [] => ([],[])
  | c::rest =>
    match decimalValue? c with
    | none => ([],c::rest)
    | some d =>
      let (ds,after) := takeMore rest
      (d::ds,after)
where
  takeMore : List Char→List Nat×List Char
  | [] => ([],[])
  | '_' :: c::rest =>
    match decimalValue? c with
    | none => ([],'_' :: c::rest)
    | some d =>
      let (ds,after) := takeMore rest
      (d::ds,after)
  | c::rest =>
    match decimalValue? c with
    | none => ([],c::rest)
    | some d =>
      let (ds,after) := takeMore rest
      (d::ds,after)

def readExponent? : List Char→Option Int
  | [] => some 0
  | c::rest =>
    if c == 'e' || c == 'E' then
      let (negative,body) := splitSign rest
      let (ds,after) := takeDigits body
      if ds.isEmpty || !after.isEmpty then none
      else
        let n : Int := ofDigitList ds
        some (if negative then -n else n)
    else none

def readUnsigned? (cs : List Char) : Option Float :=
  let word := lower (String.ofList cs)
  if word == "inf" || word == "infinity" then some (1.0 / 0.0)
  else if word == "nan" then some (0.0 / 0.0)
  else
    let (whole,rest) := takeDigits cs
    let (fraction,rest) := match rest with
      | '.' :: more => takeDigits more
      | _ => ([],rest)
    if whole.isEmpty && fraction.isEmpty then none
    else do
      let e ← readExponent? rest
      pure (nearest (ofDigitList (whole++fraction)) (e - fraction.length))

def read? (s : String) : Option Float := do
  let (negative,body) := splitSign (trim s).toList
  let x ← readUnsigned? body
  pure (if negative then -x else x)

end ChipForge.Decimal
