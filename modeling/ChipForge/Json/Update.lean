import ChipForge.Json.Access

/-! Changing parts of a value that should be records and lists. -/
namespace ChipForge.Json

def update (v : Json) (key : String) (f : Json→Json) : Json :=
  match v with
  | .obj fields => .obj (fields.map fun (k,x) => if k == key then (k,f x) else (k,x))
  | other => other

def updateAt (v : Json) (i : Nat) (f : Json→Json) : Json :=
  match v with
  | .arr items => .arr (items.modify i f)
  | other => other

/-- Overwrites a field that is there. -/
def replace (v : Json) (key : String) (value : Json) : Json := if (v.get? key).isSome then v.set key value else v

def assign (v : Json) (key : String) (value : Json) : Except Failure Json :=
  match v with
  | .obj fields => .ok (.obj (insert key value fields))
  | .arr _ => .error (.fault .wrongKind "list indices must be integers or slices, not str")
  | other => .error (.fault .wrongKind ("'" ++ other.kindName ++ "' object does not support item assignment"))

def append (v item : Json) : Except Failure Json :=
  match v with
  | .arr items => .ok (.arr (items++[item]))
  | other => noMember other "append"

def joined (a b : Json) : Except Failure (List Json) :=
  match a, b with
  | .arr xs, .arr ys => .ok (xs++ys)
  | .str s, .str t => .ok ((s++t).toList.map fun c => .str c.toString)
  | .arr _, other =>
    .error (.fault .wrongKind ("can only concatenate list (not \"" ++ other.kindName ++ "\") to list"))
  | x, y =>
    .error (.fault .wrongKind
      ("unsupported operand type(s) for +: '" ++ x.kindName ++ "' and '" ++ y.kindName ++ "'"))

def withItems (v : Json) (items : List Json) : Json :=
  match v with
  | .arr _ => .arr items
  | other => other

def assignEach (v : Json) (key : String) (value : Json) : Except Failure Json := do
  pure (v.withItems (← (← v.each).mapM fun item => item.assign key value))

def indexIn? (n : Int) (length : Nat) : Option Nat :=
  let i := if n < 0 then n+length else n
  if 0 ≤ i && i < length then some i.toNat else none

def pick (v index : Json) : Except Failure (Nat×Json) :=
  match v, index.asInt? with
  | .arr items, some n =>
    match (indexIn? n items.length).bind fun i => items[i]?.map fun x => (i,x) with
    | some found => .ok found
    | none => .error (.fault .outOfRange "list index out of range")
  | .arr _, none =>
    .error (.fault .wrongKind ("list indices must be integers or slices, not " ++ index.kindName))
  | .obj _, _ => missingKey index.shown
  | .str _, _ => .error (.fault .wrongKind "string indices must be integers")
  | other, _ => notSubscriptable other

end ChipForge.Json
