import ChipForge.Json.Update

/-! What is found in a record after a field was set or changed, and what it means that a required field or item is
there. -/
namespace ChipForge.Json

variable {key : String} {v x : Json}

@[simp] theorem lookup_insert (key other : String) (value : Json) (fields : List (String×Json)) :
    lookup other (insert key value fields)=if other=key then some value else lookup other fields := by
  induction fields with
  | nil =>
    by_cases h : other=key
    · simp [insert,lookup,h]
    · simp [insert,lookup,h,Ne.symm h]
  | cons field rest ih =>
    obtain ⟨k,v⟩ := field
    by_cases hk : k=key
    · by_cases h : other=key
      · simp [insert,lookup,hk,h]
      · simp [insert,lookup,hk,h,Ne.symm h]
    · by_cases h : k=other
      · have hne : other≠key := h ▸ hk
        simp [insert,lookup,h,hne]
      · simp [insert,lookup,hk,h,ih]

theorem get?_set_ne (v : Json) {other : String} (value : Json) (h : other≠key) :
    (v.set key value).get? other=v.get? other := by
  cases v <;> simp [set,get?,h]

theorem get?_set_self {field : String} (value : Json) (h : v.get? field=some x) :
    (v.set key value).get? key=some value := by
  cases v with
  | obj fields => simp [set,get?]
  | _ => cases h

@[simp] theorem get?_update (v : Json) (key other : String) (f : Json→Json) :
    (v.update key f).get? other=if other=key then (v.get? other).map f else v.get? other := by
  cases v with
  | obj fields =>
    simp only [update,get?]
    induction fields with
    | nil => simp [lookup]
    | cons field rest ih =>
      obtain ⟨k,x⟩ := field
      by_cases hk : k=key
      · by_cases ho : other=key
        · simp [lookup,hk,ho]
        · simpa [lookup,hk,ho,Ne.symm ho] using ih
      · by_cases hx : k=other
        · have hne : other≠key := hx ▸ hk
          simp [lookup,hx,hne]
        · simpa [lookup,hk,hx] using ih
  | _ => simp [update,get?]

theorem field_eq_ok (h : v.field key=.ok x) : x=(v.get? key).getD .null := by
  cases v with
  | obj fields =>
    cases h
    rfl
  | _ => cases h

theorem item_eq_ok (h : v.item key=.ok x) : v.get? key=some x := by
  cases v with
  | obj fields =>
    unfold item at h
    cases hx : lookup key fields with
    | none =>
      simp only [hx] at h
      cases h
    | some y =>
      simp only [hx] at h
      cases h
      exact hx
  | _ => cases h

theorem item_of_get? (h : v.get? key=some x) : v.item key=.ok x := by
  cases v with
  | obj fields =>
    have hx : lookup key fields=some x := h
    simp [item,hx]
  | _ => cases h

theorem item_of_get?_none (h : v.get? key=none) : ∃ f, v.item key=.error f := by
  cases hitem : v.item key with
  | error f => exact ⟨f,rfl⟩
  | ok x =>
    rw [item_eq_ok hitem] at h
    cases h

theorem fieldOr_eq_ok {default : Json} (h : v.fieldOr key default=.ok x) : x=(v.get? key).getD default := by
  cases v with
  | obj fields =>
    cases h
    rfl
  | _ => cases h

theorem get?_of_fieldOr {default : Json} (h : v.fieldOr key default=.ok x) (hx : x≠default) : v.get? key=some x := by
  have hget := fieldOr_eq_ok h
  cases hfield : v.get? key with
  | none =>
    rw [hfield] at hget
    exact absurd hget hx
  | some y =>
    rw [hfield] at hget
    exact congrArg some hget.symm

/-- The items of a list in a field, none if there is no list. -/
def itemsOf (key : String) (v : Json) : List Json :=
  match v.get? key with
  | some (.arr items) => items
  | _ => []

theorem itemsOf_update (v : Json) (key other : String) (i : Nat) (f : Json→Json) :
    itemsOf other (v.update key fun list => list.updateAt i f) =
      if other=key then (itemsOf other v).modify i f else itemsOf other v := by
  unfold itemsOf
  rw [get?_update]
  by_cases h : other=key
  · rw [if_pos h,if_pos h]
    cases v.get? other with
    | none => simp
    | some x => cases x <;> simp [updateAt]
  · rw [if_neg h,if_neg h]

theorem pick_eq_ok {index : Json} {i : Nat} (h : v.pick index=.ok (i,x)) :
    ∃ items n, v=.arr items ∧ index.asInt?=some n ∧ indexIn? n items.length=some i ∧ items[i]?=some x := by
  unfold pick at h
  split at h
  · rename_i items n hn
    cases hfound : (indexIn? n items.length).bind fun i => items[i]?.map fun x => (i,x) with
    | none =>
      rw [hfound] at h
      cases h
    | some found =>
      rw [hfound] at h
      cases h
      obtain ⟨j,hj,hmap⟩ := Option.bind_eq_some_iff.1 hfound
      obtain ⟨y,hy,hpair⟩ := Option.map_eq_some_iff.1 hmap
      cases hpair
      exact ⟨items,n,rfl,hn,hj,hy⟩
  · cases h
  · cases h
  · cases h
  · cases h

def fieldOf (d : Json) (key : String) : Json := (d.get? key).getD .null

/-- Does a definition have a key? -/
def isKeyed (k : String) (d : Json) : Bool :=
  match d.get? "Key" with
  | some (.str key) => key == k
  | _ => false

theorem isKeyed_iff {k : String} {d : Json} : isKeyed k d=true ↔ d.get? "Key" = some (.str k) := by
  rw [isKeyed]
  split
  · rename_i key hkey
    rw [hkey,beq_iff_eq]
    simp
  · rename_i hother
    exact ⟨nofun,fun h => absurd h (hother k)⟩

end ChipForge.Json
