import ChipForge.Json.Writer
import ChipForge.Save.Edit

/-! Revising a value in place, one part after another. Lines are said on the way; what was done before a failure stays
done. -/
namespace ChipForge.Save

/-- What a revision leaves behind. -/
structure Revised (β α : Type) where
  said : List String
  outcome : Except Failure α
  value : β

def Revise (α : Type) := Json→Revised Json α

namespace Revise

variable {α σ : Type}

instance : Monad Revise where
  pure a v := ⟨[],.ok a,v⟩
  bind m f v :=
    match m v with
    | ⟨said,.ok a,w⟩ =>
      let next := f a w
      ⟨said++next.said,next.outcome,next.value⟩
    | ⟨said,.error e,w⟩ => ⟨said,.error e,w⟩

instance : MonadLift (Except Failure) Revise := ⟨fun r v => ⟨[],r,v⟩⟩

def tell (line : String) : Revise Unit := fun v => ⟨[line ++ "\n"],.ok (),v⟩

/-- The value as it stands. -/
def here : Revise Json := fun v => ⟨[],.ok v,v⟩

def assign (key : String) (x : Json) : Revise Unit := fun v =>
  match v.assign key x with
  | .ok w => ⟨[],.ok (),w⟩
  | .error e => ⟨[],.error e,v⟩

/-- Revises another value and leaves this one as it is. -/
def aside (w : Json) (m : Revise α) : Revise (α×Json) := fun v =>
  let r := m w
  ⟨r.said,r.outcome.map (·,r.value),v⟩

/-- Revises a field. One that is missing has a value of its own, which is not kept. -/
def inField (key : String) (missing : Json) (m : Revise α) : Revise α := fun v =>
  match v.fieldOr key missing with
  | .ok x =>
    let r := m x
    ⟨r.said,r.outcome,v.replace key r.value⟩
  | .error e => ⟨[],.error e,v⟩

def inItem (i : Nat) (m : Revise α) : Revise α := fun v =>
  match v.itemAt i with
  | .ok x =>
    let r := m x
    ⟨r.said,r.outcome,v.updateAt i fun _ => r.value⟩
  | .error e => ⟨[],.error e,v⟩

def sweep (f : Nat→σ→Revise σ) : Nat→σ→List Json→Revised (List Json) σ
  | _, s, [] => ⟨[],.ok s,[]⟩
  | i, s, x::rest =>
    match f i s x with
    | ⟨said,.ok s',y⟩ =>
      let r := sweep f (i+1) s' rest
      ⟨said++r.said,r.outcome,y::r.value⟩
    | ⟨said,.error e,y⟩ => ⟨said,.error e,y::rest⟩

/-- Revises the items of a list in turn, up to the first failure. -/
def inItems (f : Nat→σ→Revise σ) (s : σ) : Revise σ := fun v =>
  match v.each with
  | .ok items =>
    let r := sweep f 0 s items
    ⟨r.said,r.outcome,v.withItems r.value⟩
  | .error e => ⟨[],.error e,v⟩

/-- Revises the value that a field holds as text, and writes it back if need be. An empty text holds none. -/
def inText (key : String) (style : Json.Style) (changed : α→Bool) (m : Revise α) : Revise (Option α) := do
  let text ← (← here).field key
  if text.truthy then
    let (a,w) ← aside (← text.parseText) m
    (if changed a then assign key (.str (Json.write style w)) else pure ())
    pure (some a)
  else pure none

def perform (m : Revise α) : Edit α := fun desk =>
  let r := m desk.save
  (r.outcome,{ desk with save := r.value, said := desk.said++r.said })

end Revise

end ChipForge.Save
