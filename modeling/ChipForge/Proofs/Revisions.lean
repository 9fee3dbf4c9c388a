import ChipForge.Proofs.Fields
import ChipForge.Save.Revise

/-! What is known of the outcome of a revision and of the value it leaves, if it ends well. Later proofs take revisions
apart with the rules below and never open the monad again. A loop over items has an invariant on the items that are
done. -/
namespace ChipForge

/-- The items that a loop over the value goes through. -/
def Json.listed (v : Json) : List Json := v.each.toOption.getD []

@[simp] theorem Json.listed_arr (items : List Json) : (Json.arr items).listed=items := rfl

theorem Json.withItems_listed (v : Json) : v.withItems v.listed=v := by cases v <;> rfl

namespace Save

/-- Lists of one length with related items. The relation may look at the items before in the first list. -/
def Aligned (R : List Json→Json→Json→Prop) (xs ys : List Json) : Prop :=
  xs.length=ys.length ∧ ∀ {i x y}, xs[i]?=some x → ys[i]?=some y→R (xs.take i) x y

namespace Aligned

variable {R S T : List Json→Json→Json→Prop} {x y : Json} {xs ys zs : List Json}

theorem nil : Aligned R [] [] := ⟨rfl,nofun⟩

theorem concat (h : Aligned R xs ys) (hlast : R xs x y) : Aligned R (xs++[x]) (ys++[y]) := by
  refine ⟨by simp [h.1],fun {i a b} ha hb => ?_⟩
  rcases Nat.lt_trichotomy i xs.length with hi | rfl | hi
  · rw [List.getElem?_append_left hi] at ha
    rw [List.getElem?_append_left (h.1 ▸ hi)] at hb
    rw [List.take_append_of_le_length (Nat.le_of_lt hi)]
    exact h.2 ha hb
  · rw [List.getElem?_concat_length] at ha
    rw [h.1,List.getElem?_concat_length] at hb
    cases ha
    cases hb
    rwa [List.take_left]
  · rw [List.getElem?_eq_none (by simp; omega)] at ha
    cases ha

theorem imp (h : Aligned R xs ys) (hRS : ∀ {before x rest y}, xs=before++x::rest→R before x y→S before x y) :
    Aligned S xs ys := by
  refine ⟨h.1,fun {i x y} hx hy => @hRS _ x (xs.drop (i+1)) y ?_ (h.2 hx hy)⟩
  obtain ⟨hi,rfl⟩ := List.getElem?_eq_some_iff.1 hx
  rw [← List.drop_eq_getElem_cons hi,List.take_append_drop]

end Aligned

namespace Revise
open Json

variable {α β σ κ : Type} {m : Revise α} {v x : Json} {key : String} {P Q : α→Json→Prop} {a : α} {w : Json}

/-- What a revision yields and leaves is as a condition says, if it ends well. -/
def Ensures (m : Revise α) (v : Json) (P : α→Json→Prop) : Prop := ∀ a, (m v).outcome=.ok a→P a (m v).value

theorem Ensures.imp (h : Ensures m v P) (hPQ : ∀ {a w}, P a w→Q a w) : Ensures m v Q := fun a ha => hPQ (h a ha)

theorem ensures_ok (h : m v=⟨(m v).said,.ok a,w⟩) : Ensures m v P ↔ P a w := by
  rw [Ensures,h]
  exact ⟨fun h => h a rfl,fun h _ ha => by cases ha; exact h⟩

theorem ensures_error {e : Failure} (h : (m v).outcome=.error e) : Ensures m v P := by
  intro a ha
  cases h.symm.trans ha

@[simp] theorem ensures_pure : Ensures (pure a) v P ↔ P a v := ensures_ok rfl

@[simp] theorem ensures_tell {line : String} {P : Unit→Json→Prop} : Ensures (tell line) v P ↔ P () v := ensures_ok rfl

@[simp] theorem ensures_here {P : Json→Json→Prop} : Ensures here v P ↔ P v v := ensures_ok rfl

@[simp] theorem ensures_lift {r : Except Failure α} : Ensures (liftM r) v P ↔ ∀ a, r=.ok a→P a v := Iff.rfl

@[simp] theorem ensures_bind {f : α→Revise β} {P : β→Json→Prop} :
    Ensures (m >>= f) v P ↔ Ensures m v fun a w => Ensures (f a) w P := by
  simp only [Ensures,bind]
  rcases m v with ⟨said,_ | a,w⟩
  · constructor <;> rintro h _ ⟨⟩
  · constructor
    · rintro h _ ⟨⟩
      exact h
    · exact fun h => h a rfl

@[simp] theorem ensures_assign {P : Unit→Json→Prop} :
    Ensures (assign key x) v P ↔ (v.isObj→P () (v.set key x)) := by
  cases v with
  | obj fields => exact (ensures_ok rfl).trans ⟨fun h _ => h,fun h => h rfl⟩
  | _ => exact ⟨nofun,fun _ => ensures_error rfl⟩

@[simp] theorem ensures_inField {missing : Json} : Ensures (inField key missing m) v P ↔
    (v.isObj→Ensures m ((v.get? key).getD missing) fun a x => P a (v.replace key x)) := by
  cases v with
  | obj fields => exact ⟨fun h _ => h,fun h => h rfl⟩
  | _ => exact ⟨nofun,fun _ => ensures_error rfl⟩

@[simp] theorem ensures_aside {P : α×Json→Json→Prop} :
    Ensures (aside w m) v P ↔ Ensures m w fun a y => P (a,y) v := by
  simp only [Ensures,aside]
  cases (m w).outcome with
  | error e => exact ⟨nofun,nofun⟩
  | ok a => exact ⟨fun h _ hb => by cases hb; exact h _ rfl,fun h _ hp => by cases hp; exact h a rfl⟩

theorem ensures_inItem {i : Nat} {items : List Json} (h : items[i]?=some x) : Ensures (inItem i m) (.arr items) P ↔
    Ensures m x fun a y => P a (.arr (items.modify i fun _ => y)) := by
  simp only [Ensures,inItem,itemAt,h]
  rfl

/-- What holds at the start and is kept by each step, holds of all items in the end. -/
theorem ensures_inItems {f : Nat→σ→Revise σ} {s : σ} {I : σ→List Json→List Json→Prop} (hstart : I s [] [])
    (hstep : ∀ {s done done' x}, I s done done'→Ensures (f done.length s) x fun t y => I t (done++[x]) (done'++[y])) :
    Ensures (inItems f s) v fun t w => ∃ items, I t v.listed items ∧ w=v.withItems items := by
  have hsweep : ∀ rest {s t done done'}, I s done done'→(sweep f done.length s rest).outcome=.ok t →
      I t (done++rest) (done'++(sweep f done.length s rest).value) := by
    intro rest
    induction rest with
    | nil =>
      rintro s _ done done' h ⟨⟩
      rwa [sweep,List.append_nil,List.append_nil]
    | cons x rest ih =>
      intro s t done done' h
      have hnext := hstep (x := x) h
      rw [sweep]
      unfold Ensures at hnext
      generalize f done.length s x=step at hnext
      rcases step with ⟨said,_ | s',y⟩
      · exact nofun
      · intro hrest
        have hall := ih (t := t) (hnext s' rfl)
        rw [List.length_append] at hall
        simpa using hall hrest
  intro t ht
  simp only [inItems,listed] at ht ⊢
  cases hitems : v.each with
  | error e =>
    rw [hitems] at ht
    cases ht
  | ok items =>
    rw [hitems] at ht
    exact ⟨_,hsweep items hstart ht,rfl⟩

theorem ensures_inText {style : Json.Style} {changed : α→Bool} {P : Option α→Json→Prop}
    (hempty : (fieldOf v key).truthy=false→P none v)
    (htext : ∀ x, (fieldOf v key).truthy→(fieldOf v key).parseText=.ok x→Ensures m x fun a y => P (some a) (if changed a then v.set key (.str (Json.write style y)) else v)) :
    Ensures (inText key style changed m) v P := by
  simp only [inText,ensures_bind,ensures_here,ensures_lift]
  intro text hfield
  obtain rfl : text=fieldOf v key := field_eq_ok hfield
  split
  · rename_i htruthy
    simp only [ensures_bind,ensures_lift,ensures_aside]
    refine fun x hx => (htext x htruthy hx).imp fun {a y} h => ?_
    split
    · rw [if_pos ‹_›] at h
      simpa using fun _ => h
    · rw [if_neg ‹_›] at h
      simpa using h
  · exact ensures_pure.2 (hempty (Bool.eq_false_iff.2 ‹_›))

/-- A view of the value that the revision leaves as it is. -/
def Leaves (K : Json→κ) (m : Revise α) : Prop := ∀ v, Ensures m v fun _ w => K w=K v

namespace Leaves

variable {K : Json→κ}

theorem pure (a : α) : Leaves K (pure a : Revise α) := fun _ => ensures_pure.2 rfl

theorem bind {f : α→Revise β} (hm : Leaves K m) (hf : ∀ a, Leaves K (f a)) : Leaves K (m >>= f) := by
  refine fun v => ensures_bind.2 ((hm v).imp fun {a w} hw => (hf a w).imp fun h => ?_)
  rw [h,hw]

theorem lift (r : Except Failure α) : Leaves K (liftM r : Revise α) := fun _ _ _ => rfl

theorem tell (line : String) : Leaves K (tell line) := fun _ => ensures_tell.2 rfl

theorem here : Leaves K here := fun _ => ensures_here.2 rfl

theorem assign (h : ∀ v, K (v.set key x)=K v) : Leaves K (assign key x) := fun v => ensures_assign.2 fun _ => h v

theorem inField {κ' : Type} {L : Json→κ'} {missing : Json} (hm : Leaves L m)
    (h : ∀ {v x x'}, v.get? key=some x→L x'=L x→K (v.set key x')=K v) : Leaves K (inField key missing m) := by
  refine fun v => ensures_inField.2 fun _ => (hm _).imp fun {a x'} hx' => ?_
  rw [Json.replace]
  cases hget : v.get? key with
  | none => rfl
  | some x =>
    rw [hget] at hx'
    exact h hget hx'

end Leaves

end Revise

end Save

end ChipForge
