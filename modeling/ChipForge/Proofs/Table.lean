import ChipForge.Table
import Mathlib.Data.List.Basic

/-! What a table holds under a key after an entry was made or taken out, and keys in order. -/
namespace ChipForge.Table
open List

variable {α β κ : Type} [BEq κ] {key : κ} {t : Table α κ} {value : α} {entry : κ×α}

@[simp] theorem find_empty (key : κ) : (empty : Table α κ).find key=none := rfl

theorem has_eq_isSome (t : Table α κ) (key : κ) : t.has key=(t.find key).isSome := rfl

variable [LawfulBEq κ] [DecidableEq κ]

theorem find_cons (k : κ) (v : α) (rest : List (κ×α)) (key : κ) :
    find ((k,v)::rest) key=if key=k then some v else find rest key := by
  unfold find
  rw [lookup_cons]
  by_cases h : key=k
  · simp [h]
  · simp [h,beq_eq_false_iff_ne.2 h]

theorem putIn_cons (entry : κ×α) (rest : List (κ×α)) : putIn key value (entry::rest) =
    if entry.1=key then (entry.1,value)::rest else entry::putIn key value rest := by
  simp only [putIn,beq_iff_eq]

@[simp] theorem find_put (t : Table α κ) (key other : κ) (value : α) :
    (t.put key value).find other=if other=key then some value else t.find other := by
  unfold put
  induction t with
  | nil => exact find_cons ..
  | cons entry rest ih =>
    rw [putIn_cons,find_cons]
    by_cases hk : entry.1=key
    · rw [if_pos hk,find_cons,hk]
      split_ifs <;> rfl
    · rw [if_neg hk,find_cons,ih]
      split_ifs with h1 h2
      · exact absurd (h1.symm.trans h2) hk
      all_goals rfl

theorem find_put_self (t : Table α κ) (key : κ) (value : α) : (t.put key value).find key=some value := by
  simp

theorem find_put_ne (t : Table α κ) {other : κ} (value : α) (h : other≠key) :
    (t.put key value).find other=t.find other := by
  simp [h]

@[simp] theorem find_putNew (t : Table α κ) (key other : κ) (value : α) :
    (t.putNew key value).find other=if other=key then some ((t.find key).getD value) else t.find other := by
  unfold putNew
  rw [has_eq_isSome]
  cases h : t.find key with
  | none => simp
  | some old =>
    simp only [Option.isSome_some,if_true,Option.getD_some]
    split_ifs with hk
    · rw [hk,h]
    · rfl

@[simp] theorem find_drop (t : Table α κ) (key other : κ) :
    (t.drop key).find other=if other=key then none else t.find other := by
  unfold drop
  induction t with
  | nil => exact (ite_self _).symm
  | cons entry rest ih =>
    rw [filter_cons,find_cons]
    by_cases hk : entry.1=key
    · rw [if_neg (by simp [hk]),ih,hk]
      split_ifs <;> rfl
    · rw [if_pos (by simpa using hk),find_cons,ih]
      split_ifs with h1 h2
      · exact absurd (h1.symm.trans h2) hk
      all_goals rfl

/-- Keys in order of first entry. -/
def keys (t : Table α κ) : List κ := t.toList.map (·.1)

theorem find_isSome_iff (t : Table α κ) (key : κ) : (t.find key).isSome ↔ key∈t.keys := by
  unfold keys toList
  induction t with
  | nil => simp [find]
  | cons entry rest ih =>
    rw [find_cons,map_cons,mem_cons,← ih]
    by_cases h : key=entry.1 <;> simp [h]

theorem keys_put (t : Table α κ) (key : κ) (value : α) :
    (t.put key value).keys=if key∈t.keys then t.keys else t.keys++[key] := by
  unfold keys toList put
  induction t with
  | nil => rfl
  | cons entry rest ih =>
    rw [putIn_cons,map_cons]
    by_cases h : entry.1=key
    · simp [h]
    · rw [if_neg h,map_cons,ih]
      simp only [mem_cons,Ne.symm h,false_or]
      split_ifs <;> rfl

theorem nodup_keys_put (h : t.keys.Nodup) (key : κ) (value : α) : (t.put key value).keys.Nodup := by
  rw [keys_put]
  split_ifs with hkey
  · exact h
  · rw [nodup_append]
    refine ⟨h,pairwise_singleton _ _,fun a ha b hb hab => hkey ?_⟩
    rwa [← mem_singleton.1 hb,← hab]

theorem nodup_keys_putNew (h : t.keys.Nodup) (key : κ) (value : α) : (t.putNew key value).keys.Nodup := by
  unfold putNew
  split_ifs
  · exact h
  · exact nodup_keys_put h key value

/-- Entries under different new keys come last in their order. -/
theorem keys_foldl_put (f : κ→α) {ids : List κ} (h : (t.keys++ids).Nodup) :
    (ids.foldl (fun t id => t.put id (f id)) t).keys=t.keys++ids := by
  induction ids generalizing t with
  | nil => exact (append_nil _).symm
  | cons id rest ih =>
    have hid : id∉t.keys := fun hid => (nodup_append.1 h).2.2 id hid id mem_cons_self rfl
    have hkeys : (t.put id (f id)).keys=t.keys++[id] := by rw [keys_put,if_neg hid]
    rw [foldl_cons,ih (by rwa [hkeys,append_assoc]),hkeys,append_assoc]
    rfl

theorem find_foldl_put (f : κ→α) (ids : List κ) (t : Table α κ) (key : κ) :
    (ids.foldl (fun t id => t.put id (f id)) t).find key=if key∈ids then some (f key) else t.find key := by
  induction ids generalizing t with
  | nil => rfl
  | cons id rest ih =>
    rw [foldl_cons,ih,find_put]
    by_cases hkey : key=id
    · simp [hkey]
    · simp [hkey]

theorem find_foldl_put_entries {entries : List (κ×α)} (h : (entries.map (·.1)).Nodup) (t : Table α κ) :
    (∀ e∈entries, (entries.foldl (fun t e => t.put e.1 e.2) t).find e.1=some e.2) ∧
      ∀ key∉entries.map (·.1), (entries.foldl (fun t e => t.put e.1 e.2) t).find key=t.find key := by
  induction entries generalizing t with
  | nil => exact ⟨(fun _ h => nomatch h),fun _ _ => rfl⟩
  | cons first rest ih =>
    obtain ⟨hfirst,hrest⟩ := nodup_cons.1 h
    obtain ⟨hmem,hother⟩ := ih hrest (t.put first.1 first.2)
    refine ⟨forall_mem_cons.2 ⟨?_,hmem⟩,fun key hkey => ?_⟩
    · rw [foldl_cons,hother _ hfirst,find_put_self]
    · obtain ⟨hne,hkey⟩ := not_or.1 (mt mem_cons.2 hkey)
      rw [foldl_cons,hother _ hkey,find_put_ne _ _ hne]

theorem mem_of_find (h : t.find key=some value) : (key,value)∈t.toList := by
  induction t with
  | nil => cases h
  | cons entry rest ih =>
    rw [find_cons] at h
    split_ifs at h with hkey
    · cases h
      rw [hkey]
      exact mem_cons_self
    · exact mem_cons_of_mem _ (ih h)

theorem find_of_mem (h : t.keys.Nodup) (hmem : entry∈t.toList) : t.find entry.1=some entry.2 := by
  induction t with
  | nil => cases hmem
  | cons first rest ih =>
    have hkeys : first.1∉rest.map (·.1) ∧ (rest.map (·.1)).Nodup := nodup_cons.1 h
    rw [find_cons]
    rcases mem_cons.1 hmem with rfl | hmem
    · rw [if_pos rfl]
    · have hne : entry.1≠first.1 := by
        intro hsame
        rw [← hsame] at hkeys
        exact hkeys.1 (mem_map_of_mem hmem)
      rw [if_neg hne]
      exact ih hkeys.2 hmem

theorem filter_key (h : t.keys.Nodup) (hfind : t.find key=some value) :
    (t.toList.filter fun entry => entry.1 == key)=[(key,value)] := by
  induction t with
  | nil => cases hfind
  | cons first rest ih =>
    have hkeys : first.1∉rest.map (·.1) ∧ (rest.map (·.1)).Nodup := nodup_cons.1 h
    rw [find_cons] at hfind
    change List.filter _ (first::rest)=_
    rw [filter_cons]
    by_cases hkey : key=first.1
    · rw [if_pos hkey] at hfind
      cases hfind
      have hrest : (rest.filter fun entry => entry.1 == key)=[] := filter_eq_nil_iff.2 fun entry hentry hsame =>
        hkeys.1 (hkey ▸ eq_of_beq hsame ▸ mem_map_of_mem hentry)
      rw [if_pos (beq_iff_eq.2 hkey.symm),hrest,hkey]
    · rw [if_neg hkey] at hfind
      rw [if_neg fun hsame => hkey (eq_of_beq hsame).symm]
      exact ih hkeys.2 hfind

theorem find_map (f : α→β) (entries : List (κ×α)) (key : κ) :
    find (entries.map fun entry => (entry.1,f entry.2)) key=(find entries key).map f := by
  induction entries with
  | nil => rfl
  | cons entry rest ih =>
    rw [map_cons,find_cons,find_cons,ih]
    split_ifs <;> rfl

theorem mem_put (h : entry∈(t.put key value).toList) : entry=(key,value) ∨ entry∈t.toList := by
  unfold put toList at *
  induction t with
  | nil => exact .inl (mem_singleton.1 h)
  | cons first rest ih =>
    rw [putIn_cons] at h
    split_ifs at h with hkey
    · exact (mem_cons.1 h).imp (hkey ▸ id) (mem_cons_of_mem first)
    · rcases mem_cons.1 h with rfl | h
      · exact .inr mem_cons_self
      · exact (ih h).imp id (mem_cons_of_mem first)

/-- A new value of its own keeps the values of entries apart. -/
theorem nodup_map_put {f : κ×α→β} (h : (t.toList.map f).Nodup) (hnew : f (key,value)∉t.toList.map f) :
    ((t.put key value).toList.map f).Nodup := by
  unfold put toList at *
  induction t with
  | nil => exact pairwise_singleton _ _
  | cons first rest ih =>
    rw [map_cons,nodup_cons] at h
    rw [map_cons,mem_cons,not_or] at hnew
    rw [putIn_cons]
    split_ifs with hkey
    · exact nodup_cons.2 ⟨hkey ▸ hnew.2,h.2⟩
    · refine nodup_cons.2 ⟨fun hmem => ?_,ih h.2 hnew.2⟩
      obtain ⟨entry,hentry,hsame⟩ := mem_map.1 hmem
      rcases mem_put (t := rest) hentry with rfl | hentry
      · exact hnew.1 hsame
      · exact h.1 (hsame ▸ mem_map_of_mem hentry)

end ChipForge.Table

namespace ChipForge

/-- Different keys in order are in strict order. -/
theorem pairwise_lt_mergeSort {κ : Type} [LT κ] [DecidableLT κ] [LE κ] [Std.IsLinearOrder κ] [Std.LawfulOrderLT κ]
    {keys : List κ} (h : keys.Nodup) : (keys.mergeSort fun a b => !decide (b < a)).Pairwise (· < ·) := by
  have hsorted : (keys.mergeSort fun a b => !decide (b < a)).Pairwise fun a b => (!decide (b < a))=true := by
    apply List.pairwise_mergeSort
    · intro a b c
      simp only [Bool.not_eq_true',decide_eq_false_iff_not,Std.not_lt]
      exact Std.le_trans
    · intro a b
      simp only [Bool.or_eq_true,Bool.not_eq_true',decide_eq_false_iff_not,Std.not_lt]
      exact Std.le_total
  have hnodup := (List.mergeSort_perm keys fun a b => !decide (b < a)).nodup_iff.2 h
  refine (hsorted.and hnodup).imp fun {a b} hab => ?_
  have hle : a ≤ b := Std.not_lt.1 (by simpa using hab.1)
  exact Std.lt_of_le_of_ne hle hab.2

end ChipForge
