import ChipForge.Inference.Types
import Mathlib.Data.List.Basic
import Mathlib.Data.List.Induction

/-! Votes are counted in the order in which types first occur. The winner is the most frequent type; of several such
types it is the vector if the vector is one of them, and the one that occurs first otherwise. -/
namespace ChipForge.Inference
open List

variable {n : Nat} {t : GateType} {votes : List (GateType×Nat)}

/-- The most frequent of some types, nothing if there are none. -/
def MostFrequent (ds : List GateType) : Option GateType→Prop
  | none => ds=[]
  | some t => t∈ds ∧ (∀ u∈ds, ds.count u ≤ ds.count t) ∧
      ∀ u∈ds, ds.count u=ds.count t → t=.vector ∨ (u≠.vector ∧ ds.idxOf t ≤ ds.idxOf u)

theorem MostFrequent.unique {ds : List GateType} {r r' : Option GateType} (h : MostFrequent ds r)
    (h' : MostFrequent ds r') : r=r' := by
  cases r with
  | none =>
    cases r' with
    | none => rfl
    | some t' =>
      have hempty : ds=[] := h
      rw [hempty] at h'
      exact absurd h'.1 not_mem_nil
  | some t =>
    cases r' with
    | none =>
      have hempty : ds=[] := h'
      rw [hempty] at h
      exact absurd h.1 not_mem_nil
    | some t' =>
      obtain ⟨ht,hmost,hties⟩ := h
      obtain ⟨ht',hmost',hties'⟩ := h'
      have hcount : ds.count t'=ds.count t := Nat.le_antisymm (hmost t' ht') (hmost' t ht)
      rcases hties t' ht' hcount with hvector | ⟨hne,hle⟩
      · rcases hties' t ht hcount.symm with hvector' | ⟨hne',-⟩
        · rw [hvector,hvector']
        · exact absurd hvector hne'
      · rcases hties' t ht hcount.symm with hvector' | ⟨-,hle'⟩
        · exact absurd hvector' hne
        · rw [(idxOf_inj ht).1 (Nat.le_antisymm hle hle')]

def tally (ds : List GateType) : List (GateType×Nat) := ds.foldl (fun acc t => addVotes 1 t acc) []

theorem tally_concat (ds : List GateType) (t : GateType) : tally (ds++[t])=addVotes 1 t (tally ds) := by
  rw [tally,foldl_append]
  rfl

theorem addVotes_of_notMem (h : t∉votes.map (·.1)) : addVotes n t votes=votes++[(t,n)] := by
  induction votes with
  | nil => rfl
  | cons vote rest ih =>
    obtain ⟨hne,hrest⟩ := not_or.1 (mem_cons.not.1 (map_cons ▸ h))
    rw [addVotes,if_neg (by simpa using Ne.symm hne),ih hrest]
    rfl

theorem addVotes_of_mem (h : t∈votes.map (·.1)) (hnodup : (votes.map (·.1)).Nodup) :
    addVotes n t votes=votes.map fun vote => (vote.1,if vote.1=t then vote.2+n else vote.2) := by
  induction votes with
  | nil => exact absurd h not_mem_nil
  | cons vote rest ih =>
    obtain ⟨hfresh,hrest⟩ := nodup_cons.1 hnodup
    rw [addVotes,map_cons]
    by_cases heq : vote.1=t
    · rw [if_pos (by simpa using heq),if_pos heq]
      refine congrArg _ ((map_congr_left fun other hother => ?_).trans (map_id rest)).symm
      rw [if_neg]
      · rfl
      · intro hother'
        exact hfresh (mem_map.2 ⟨other,hother,hother'.trans heq.symm⟩)
    · have hin : t∈rest.map (·.1) := (mem_cons.1 (map_cons ▸ h)).resolve_left (Ne.symm heq)
      rw [if_neg (by simpa using heq),if_neg heq,ih hin hrest]

/-- Each type that occurs has one entry with its number, in the order of first occurrences. -/
theorem tally_spec (ds : List GateType) :
    (∀ t k, (t,k)∈tally ds ↔ t∈ds ∧ k=ds.count t) ∧ (tally ds).Pairwise fun v w => ds.idxOf v.1 < ds.idxOf w.1 := by
  induction ds using List.reverseRecOn with
  | nil => simp [tally]
  | append_singleton ds t ih =>
    obtain ⟨hmem,horder⟩ := ih
    have hkeys : ∀ u, u∈(tally ds).map (·.1) ↔ u∈ds := by
      intro u
      rw [mem_map]
      constructor
      · rintro ⟨⟨v,k⟩,hv,rfl⟩
        exact ((hmem v k).1 hv).1
      · exact fun hu => ⟨(u,ds.count u),(hmem u _).2 ⟨hu,rfl⟩,rfl⟩
    have hkept : ∀ v∈tally ds, (ds++[t]).idxOf v.1=ds.idxOf v.1 := fun v hv =>
      idxOf_append_of_mem ((hkeys v.1).1 (mem_map_of_mem hv))
    rw [tally_concat]
    by_cases ht : t∈ds
    · have hnodup : ((tally ds).map (·.1)).Nodup := by
        refine pairwise_map.2 (horder.imp fun hlt heq => ?_)
        rw [heq] at hlt
        exact Nat.lt_irrefl _ hlt
      rw [addVotes_of_mem ((hkeys t).2 ht) hnodup]
      refine ⟨fun u k => ?_,pairwise_map.2 (horder.imp_of_mem fun hv hw hlt => ?_)⟩
      · rw [mem_map,count_append,mem_append]
        constructor
        · rintro ⟨⟨v,n⟩,hv,heq⟩
          obtain ⟨hin,rfl⟩ := (hmem v n).1 hv
          cases heq
          refine ⟨.inl hin,?_⟩
          by_cases hvt : v=t
          · simp [hvt]
          · simp [hvt,Ne.symm hvt]
        · rintro ⟨hu,rfl⟩
          have hin : u∈ds := hu.elim id fun hu => mem_singleton.1 hu ▸ ht
          refine ⟨(u,ds.count u),(hmem u _).2 ⟨hin,rfl⟩,?_⟩
          by_cases hut : u=t
          · simp [hut]
          · simp [hut,Ne.symm hut]
      · rw [hkept _ hv,hkept _ hw]
        exact hlt
    · rw [addVotes_of_notMem fun hin => ht ((hkeys t).1 hin)]
      refine ⟨fun u k => ?_,pairwise_append.2 ⟨horder.imp_of_mem fun hv hw hlt => ?_,by simp,?_⟩⟩
      · rw [mem_append,hmem,mem_singleton,mem_append,mem_singleton,count_append]
        constructor
        · rintro (⟨hu,rfl⟩ | heq)
          · have hne : t≠u := fun heq => ht (heq ▸ hu)
            exact ⟨.inl hu,by simp [hne]⟩
          · cases heq
            exact ⟨.inr rfl,by simp [count_eq_zero_of_not_mem ht]⟩
        · rintro ⟨hu | rfl,rfl⟩
          · have hne : t≠u := fun heq => ht (heq ▸ hu)
            exact .inl ⟨hu,by simp [hne]⟩
          · exact .inr (by simp [count_eq_zero_of_not_mem ht])
      · rw [hkept _ hv,hkept _ hw]
        exact hlt
      · rintro v hv w hw
        cases mem_singleton.1 hw
        have hin : v.1∈ds := (hkeys v.1).1 (mem_map_of_mem hv)
        rw [hkept v hv,idxOf_append_of_notMem ht]
        have hlt := idxOf_lt_length_of_mem hin
        omega

theorem foldl_max_spec (votes : List (GateType×Nat)) (m : Nat) :
    (∀ v∈votes, v.2 ≤ votes.foldl (fun m (_,k) => max m k) m) ∧ m ≤ votes.foldl (fun m (_,k) => max m k) m ∧
      (votes.foldl (fun m (_,k) => max m k) m=m ∨ ∃ v∈votes, v.2=votes.foldl (fun m (_,k) => max m k) m) := by
  induction votes generalizing m with
  | nil => simp
  | cons vote rest ih =>
    obtain ⟨t,k⟩ := vote
    obtain ⟨hall,hle,hreached⟩ := ih (max m k)
    rw [foldl_cons]
    refine ⟨fun v hv => ?_,Nat.le_trans (Nat.le_max_left m k) hle,?_⟩
    · rcases mem_cons.1 hv with rfl | hv
      · exact Nat.le_trans (Nat.le_max_right m k) hle
      · exact hall v hv
    · rcases hreached with heq | ⟨v,hv,heq⟩
      · by_cases hm : k ≤ m
        · exact .inl (heq.trans (Nat.max_eq_left hm))
        · exact .inr ⟨(t,k),mem_cons_self,(heq.trans (Nat.max_eq_right (by omega))).symm⟩
      · exact .inr ⟨v,mem_cons_of_mem _ hv,heq⟩

/-- The winner of the votes is the most frequent type. -/
theorem winner?_tally (ds : List GateType) : MostFrequent ds (winner? (tally ds)) := by
  obtain ⟨hmem,horder⟩ := tally_spec ds
  obtain ⟨hall,-,hreached⟩ := foldl_max_spec (tally ds) 0
  obtain ⟨most,hmostdef⟩ : ∃ most, most=(tally ds).foldl (fun m (_,k) => max m k) 0 := ⟨_,rfl⟩
  obtain ⟨best,hdef⟩ : ∃ best, best=((tally ds).filter fun v => v.2 == most).map (·.1) := ⟨_,rfl⟩
  have hwinner : winner? (tally ds)=if best.contains .vector then some .vector else best.head? := by
    rw [hdef,hmostdef]
    rfl
  rw [← hmostdef] at hall hreached
  have hmost : ∀ u∈ds, ds.count u ≤ most := fun u hu => hall (u,ds.count u) ((hmem u _).2 ⟨hu,rfl⟩)
  have hbest : ∀ u, u∈best ↔ u∈ds ∧ ds.count u=most := by
    intro u
    rw [hdef,mem_map]
    constructor
    · rintro ⟨⟨v,k⟩,hv,rfl⟩
      obtain ⟨hv,hk⟩ := mem_filter.1 hv
      obtain ⟨hin,rfl⟩ := (hmem v k).1 hv
      exact ⟨hin,by simpa using hk⟩
    · rintro ⟨hin,hcount⟩
      exact ⟨(u,ds.count u),mem_filter.2 ⟨(hmem u _).2 ⟨hin,rfl⟩,by simpa using hcount⟩,rfl⟩
  by_cases hvector : best.contains .vector=true
  · obtain ⟨hin,hcount⟩ := (hbest .vector).1 (by simpa using hvector)
    rw [hwinner,if_pos hvector]
    exact ⟨hin,fun u hu => hcount ▸ hmost u hu,fun _ _ _ => .inl rfl⟩
  · rw [hwinner,if_neg hvector]
    have hsorted : best.Pairwise fun t u => ds.idxOf t < ds.idxOf u := by
      rw [hdef]
      exact pairwise_map.2 (horder.filter _)
    cases hlist : best with
    | nil =>
      -- a type that occurs would be among the best
      refine eq_nil_iff_forall_not_mem.2 fun t ht => ?_
      have hpos : 0 < ds.count t := count_pos_iff.2 ht
      rcases hreached with hzero | ⟨⟨u,k⟩,hu,hk⟩
      · have hle := hmost t ht
        omega
      · obtain ⟨hin,rfl⟩ := (hmem u k).1 hu
        have hcontra := (hbest u).2 ⟨hin,hk⟩
        rw [hlist] at hcontra
        exact not_mem_nil hcontra
    | cons t rest =>
      obtain ⟨hin,hcount⟩ := (hbest t).1 (by simp [hlist])
      refine ⟨hin,fun u hu => hcount ▸ hmost u hu,fun u hu htie => .inr ?_⟩
      have hu : u∈best := (hbest u).2 ⟨hu,htie.trans hcount⟩
      refine ⟨fun heq => hvector (by simpa using heq ▸ hu),?_⟩
      rw [hlist] at hu hsorted
      rcases mem_cons.1 hu with rfl | hu
      · exact Nat.le_refl _
      · exact Nat.le_of_lt ((pairwise_cons.1 hsorted).1 u hu)

end ChipForge.Inference
