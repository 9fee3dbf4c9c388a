import ChipForge.Inference.UnionFind
import ChipForge.Proofs.Table
import Mathlib.Data.Finset.Card

/-! Ranks rise along the way from a name to its root, so every search ends at the root. Shortening ways changes no root,
an assertion changes what is known of one class, and a union makes one class of two. -/
namespace ChipForge.Inference.UnionFind
open List Table Option

variable {uf uf' : UnionFind} {x y a b : String} {low : UnionFind} {root old : String}

def above (uf : UnionFind) (x : String) : String := (uf.parent.find x).getD x

/-- Names point to themselves or to names of higher rank. -/
structure Ranked (uf : UnionFind) : Prop where
  ranks : ∀ x, (uf.parent.find x).isSome=(uf.rank.find x).isSome
  climbs : ∀ {x p}, uf.parent.find x=some p → p≠x →
    ∃ i j, uf.rank.find x=some i ∧ uf.rank.find p=some j ∧ i < j

/-- Root of the class of a name. -/
def rootOf (uf : UnionFind) (x : String) : String := (uf.find x).1

/-- What is known of the type of the class of a name. -/
def known (uf : UnionFind) (x : String) : Option Fixed := (uf.info x).1

theorem above_eq (h : uf.parent.find x=some y) : uf.above x=y := by
  rw [above,h,getD_some]

theorem find_parent_of_above_ne (h : uf.above x≠x) : uf.parent.find x=some (uf.above x) := by
  cases hp : uf.parent.find x with
  | none => exact absurd (by rw [above,hp,getD_none]) h
  | some p => rw [above_eq hp]

def rankOf (uf : UnionFind) (x : String) : Nat := (uf.rank.find x).getD 0

theorem Ranked.rankOf_lt (h : Ranked uf) (hx : uf.above x≠x) : uf.rankOf x < uf.rankOf (uf.above x) := by
  obtain ⟨i,j,hi,hj,hlt⟩ := h.climbs (find_parent_of_above_ne hx) hx
  rwa [rankOf,rankOf,hi,hj]

def higher (uf : UnionFind) (x : String) : Finset String := uf.parent.keys.toFinset.filter fun y => uf.rankOf x < uf.rankOf y

theorem Ranked.higher_ssubset (h : Ranked uf) (hx : uf.above x≠x) : uf.higher (uf.above x) ⊂ uf.higher x := by
  have hlt := h.rankOf_lt hx
  have hitem : uf.above x∈uf.parent.keys := by
    obtain ⟨i,j,-,hj,-⟩ := h.climbs (find_parent_of_above_ne hx) hx
    rw [← find_isSome_iff,h.ranks,hj,isSome_some]
  have hsub : uf.higher (uf.above x) ⊆ uf.higher x := Finset.monotone_filter_right _ fun _ _ hy => Nat.lt_trans hlt hy
  refine (Finset.ssubset_iff_of_subset hsub).2 ⟨uf.above x,?_,?_⟩
  · exact Finset.mem_filter.2 ⟨mem_toFinset.2 hitem,hlt⟩
  · exact fun hmem => Nat.lt_irrefl _ (Finset.mem_filter.1 hmem).2

theorem findWithin_of_root (h : uf.above x=x) (fuel : Nat) : findWithin fuel uf x=(x,uf) := by
  cases fuel with
  | zero => rfl
  | succ fuel =>
    have hp : (uf.parent.find x).getD x=x := h
    simp [findWithin,hp]

theorem findWithin_succ (h : uf.above x≠x) (fuel : Nat) :
    findWithin (fuel+1) uf x =
      ((findWithin fuel uf (uf.above x)).1,
        { (findWithin fuel uf (uf.above x)).2 with
          parent := (findWithin fuel uf (uf.above x)).2.parent.put x (findWithin fuel uf (uf.above x)).1 }) := by
  have hne : (uf.parent.find x).getD x≠x := h
  simp [findWithin,hne,above]

/-- A search as it goes, from name to name: it ends at a root, and then each name on the way is made to point there. -/
inductive Finds (uf : UnionFind) : String→String→UnionFind→Prop
  | root {x : String} (hx : uf.above x=x) : Finds uf x x uf
  | step {x root : String} {uf' : UnionFind} (hx : uf.above x≠x) (hrest : Finds uf (uf.above x) root uf') :
    Finds uf x root { uf' with parent := uf'.parent.put x root }

/-- The items of higher rank get fewer on the way, so a search takes no more steps than there are items. -/
theorem Ranked.finds_findWithin (h : Ranked uf) {fuel : Nat} (hfuel : (uf.higher x).card < fuel) :
    Finds uf x (findWithin fuel uf x).1 (findWithin fuel uf x).2 := by
  induction fuel generalizing x with
  | zero => omega
  | succ fuel ih =>
    by_cases hx : uf.above x=x
    · rw [findWithin_of_root hx]
      exact .root hx
    · have hcard := Finset.card_lt_card (h.higher_ssubset hx)
      rw [findWithin_succ hx]
      exact .step hx (ih (by omega))

theorem Ranked.finds (h : Ranked uf) (x : String) : Finds uf x (uf.rootOf x) (uf.find x).2 := by
  have hitems : (uf.higher x).card ≤ uf.parent.keys.length := (Finset.card_filter_le _ _).trans (toFinset_card_le _)
  rw [Table.keys,length_map] at hitems
  exact h.finds_findWithin (Nat.lt_succ_of_le hitems)

section
variable {r r' : String}

theorem Finds.unique {uf'' : UnionFind} (h : Finds uf x r uf') (h' : Finds uf x r' uf'') : r=r' := by
  induction h generalizing uf'' with
  | root hx =>
    cases h' with
    | root => rfl
    | step hne => exact absurd hx hne
  | step hne _ ih =>
    cases h' with
    | root hx => exact absurd hx hne
    | step _ hrest => exact ih hrest

theorem Finds.above_root (h : Finds uf x r uf') : uf.above r=r := by
  induction h with
  | root hx => exact hx
  | step _ _ ih => exact ih

theorem Finds.root_eq (h : Finds uf x r uf') {rep : String→String} (hstep : ∀ x, rep (uf.above x)=rep x)
    (hroot : ∀ x, uf.above x=x → rep x=x) : r=rep x := by
  induction h with
  | root hx => exact (hroot _ hx).symm
  | step _ _ ih => rw [ih,hstep]

theorem Finds.rank_le (h : Finds uf x r uf') (hranked : Ranked uf) {i : Nat} (hx : uf.rank.find x=some i) :
    ∃ j, uf.rank.find r=some j ∧ i ≤ j := by
  induction h generalizing i with
  | root => exact ⟨i,hx,Nat.le_refl i⟩
  | step hne _ ih =>
    obtain ⟨i',j,hi,hj,hlt⟩ := hranked.climbs (find_parent_of_above_ne hne) hne
    obtain ⟨k,hk,hle⟩ := ih hj
    cases hx.symm.trans hi
    exact ⟨k,hk,by omega⟩

end

theorem Ranked.above_rootOf (h : Ranked uf) (x : String) : uf.above (uf.rootOf x)=uf.rootOf x := (h.finds x).above_root

theorem rootOf_of_root (h : uf.above x=x) : uf.rootOf x=x := by
  rw [rootOf,find,findWithin_of_root h]

theorem Ranked.rootOf_above (h : Ranked uf) (x : String) : uf.rootOf (uf.above x)=uf.rootOf x := by
  by_cases hx : uf.above x=x
  · rw [hx]
  · exact (Finds.step hx (h.finds _)).unique (h.finds x)

/-- Roots are the only choice of one name for each way. -/
theorem Ranked.rootOf_unique (h : Ranked uf) {rep : String→String} (hstep : ∀ x, rep (uf.above x)=rep x)
    (hroot : ∀ x, uf.above x=x → rep x=x) (x : String) : uf.rootOf x=rep x := (h.finds x).root_eq hstep hroot

/-- The same classes with the same knowledge; only ways may differ. -/
structure Alike (uf uf' : UnionFind) : Prop where
  ranked : Ranked uf'
  roots : ∀ x, uf'.rootOf x=uf.rootOf x
  rank : uf'.rank=uf.rank
  fixed : uf'.fixed=uf.fixed
  conflicts : uf'.conflicts=uf.conflicts

theorem Alike.refl (h : Ranked uf) : Alike uf uf := ⟨h,fun _ => rfl,rfl,rfl,rfl⟩

theorem Alike.trans {uf'' : UnionFind} (h : Alike uf uf') (h' : Alike uf' uf'') : Alike uf uf'' :=
  ⟨h'.ranked,fun x => (h'.roots x).trans (h.roots x),h'.rank.trans h.rank,h'.fixed.trans h.fixed,
    h'.conflicts.trans h.conflicts⟩

/-- Pointing an item to its root changes no class. -/
theorem Ranked.alike_shorten (h : Ranked uf) (hx : (uf.parent.find x).isSome) :
    Alike uf { uf with parent := uf.parent.put x (uf.rootOf x) } := by
  have habove : ∀ y, above { uf with parent := uf.parent.put x (uf.rootOf x) } y =
      if y=x then uf.rootOf x else uf.above y := by
    intro y
    simp only [above,find_put]
    split_ifs <;> rfl
  have hranked : Ranked { uf with parent := uf.parent.put x (uf.rootOf x) } := by
    refine ⟨fun y => ?_,fun {y p} hy hne => ?_⟩
    · simp only [find_put]
      split_ifs with hyx
      · rw [hyx,← h.ranks x,hx,isSome_some]
      · exact h.ranks y
    · simp only [find_put] at hy
      split_ifs at hy with hyx
      · cases hy
        subst hyx
        have habove_ne : uf.above y≠y := fun hroot => hne (rootOf_of_root hroot)
        obtain ⟨i,j,hi,hj,hlt⟩ := h.climbs (find_parent_of_above_ne habove_ne) habove_ne
        obtain ⟨r,hr,hle⟩ := (h.finds _).rank_le h hj
        rw [h.rootOf_above] at hr
        exact ⟨i,r,hi,hr,by omega⟩
      · exact h.climbs hy hne
  refine ⟨hranked,fun y => hranked.rootOf_unique (fun z => ?_) (fun z hz => ?_) y,rfl,rfl,rfl⟩
  · rw [habove]
    split_ifs with hzx
    · rw [hzx,rootOf_of_root (h.above_rootOf x)]
    · exact h.rootOf_above z
  · rw [habove] at hz
    split_ifs at hz with hzx
    · rwa [hzx] at hz ⊢
    · exact rootOf_of_root hz

theorem Finds.alike {r : String} (h : Finds uf x r uf') (hranked : Ranked uf) : Alike uf uf' := by
  induction h with
  | root => exact .refl hranked
  | @step x r uf' hx hrest ih =>
    have hmeet : r=uf'.rootOf x := by
      rw [ih.roots]
      exact (Finds.step hx hrest).unique (hranked.finds x)
    have hitem : (uf'.parent.find x).isSome := by
      rw [ih.ranked.ranks,ih.rank,← hranked.ranks,find_parent_of_above_ne hx,isSome_some]
    rw [hmeet]
    exact ih.trans (ih.ranked.alike_shorten hitem)

theorem Ranked.alike_find (h : Ranked uf) (x : String) : Alike uf (uf.find x).2 := (h.finds x).alike h

theorem Ranked.alike_info (h : Ranked uf) (x : String) : Alike uf (uf.info x).2 := h.alike_find x

/-- Types are kept at roots. -/
def Rooted (uf : UnionFind) : Prop := ∀ x, (uf.fixed.find x).isSome → uf.rootOf x=x

theorem Alike.rooted (h : Alike uf uf') (huf : Rooted uf) : Rooted uf' := by
  intro x hx
  rw [h.roots]
  exact huf x (h.fixed ▸ hx)

theorem Ranked.known_eq (h : Ranked uf) (x : String) : uf.known x=uf.fixed.find (uf.rootOf x) := by
  rw [known,info,← (h.alike_find x).fixed,rootOf]

theorem Alike.known (h : Alike uf uf') (huf : Ranked uf) (x : String) : uf'.known x=uf.known x := by
  rw [h.ranked.known_eq,huf.known_eq,h.roots,h.fixed]

theorem Ranked.known_congr (h : Ranked uf) (hxy : uf.rootOf x=uf.rootOf y) : uf.known x=uf.known y := by
  rw [h.known_eq,h.known_eq,hxy]

/-- Knowledge after an assertion, which counts where nothing is known or where it has the higher priority. -/
def raised (t : GateType) (priority : Int) : Option Fixed→Fixed
  | none => ⟨priority,t⟩
  | some cur => if cur.priority < priority then ⟨priority,t⟩ else cur

theorem Ranked.of_parent (h : Ranked uf) (hparent : uf'.parent=uf.parent) (hrank : uf'.rank=uf.rank) :
    Ranked uf' ∧ ∀ x, uf'.rootOf x=uf.rootOf x := by
  have hranked : Ranked uf' := by
    refine ⟨fun x => ?_,fun {x p} hx hne => ?_⟩
    · rw [hparent,hrank]
      exact h.ranks x
    · rw [hparent] at hx
      rw [hrank]
      exact h.climbs hx hne
  have habove : ∀ x, uf'.above x=uf.above x := fun x => by rw [above,above,hparent]
  refine ⟨hranked,hranked.rootOf_unique (fun x => ?_) (fun x hx => ?_)⟩
  · rw [habove,h.rootOf_above]
  · rw [habove] at hx
    exact rootOf_of_root hx

theorem find_fixed_assert (uf : UnionFind) (x y : String) (t : GateType) (priority : Int) :
    (uf.assert x t priority).parent=(uf.find x).2.parent ∧ (uf.assert x t priority).rank=(uf.find x).2.rank ∧
      (uf.assert x t priority).fixed.find y =
        if y=uf.rootOf x then some (raised t priority ((uf.find x).2.fixed.find y)) else (uf.find x).2.fixed.find y := by
  rcases hfind : uf.find x with ⟨root,uf₁⟩
  cases hcur : uf₁.fixed.find root with
  | none =>
    simp only [assert,rootOf,hfind,hcur,find_put,true_and]
    split_ifs with hy
    · rw [hy,hcur,raised]
    · rfl
  | some cur =>
    simp only [assert,rootOf,hfind,hcur]
    by_cases hlt : cur.priority < priority
    · simp only [hlt,if_true,find_put,true_and]
      split_ifs with hy
      · rw [hy,hcur,raised,if_pos hlt]
      · rfl
    · simp only [hlt,if_false,true_and]
      split_ifs with hy
      · rw [hy,hcur,raised,if_neg hlt]
      · rfl

theorem assert_conflicts (uf : UnionFind) (x : String) (t : GateType) (priority : Int) :
    (uf.assert x t priority).conflicts=[] ↔
      (uf.find x).2.conflicts=[] ∧ ∀ f, (uf.find x).2.fixed.find (uf.rootOf x)=some f → f.type=t := by
  rcases hfind : uf.find x with ⟨root,uf₁⟩
  cases hcur : uf₁.fixed.find root with
  | none => simp [assert,rootOf,hfind,hcur]
  | some cur =>
    simp only [assert,rootOf,hfind,hcur]
    by_cases htype : cur.type=t
    · split_ifs <;> simp_all
    · split_ifs <;> simp_all

/-- An assertion made of a name: it counts for the class of the name, and all else is as before. -/
structure Told (uf : UnionFind) (x : String) (t : GateType) (priority : Int) (uf' : UnionFind) : Prop where
  ranked : Ranked uf'
  roots : ∀ y, uf'.rootOf y=uf.rootOf y
  rank : uf'.rank=uf.rank
  known : ∀ y, uf'.known y=if uf.rootOf y=uf.rootOf x then some (raised t priority (uf.known y)) else uf.known y
  rooted : Rooted uf→Rooted uf'
  conflicts : uf'.conflicts=[] ↔ uf.conflicts=[] ∧ ∀ f, uf.known x=some f → f.type=t

theorem Alike.told {t : GateType} {priority : Int} (h : Alike uf low) (huf : Ranked uf)
    (htold : Told low x t priority uf') : Told uf x t priority uf' := by
  refine ⟨htold.ranked,fun y => (htold.roots y).trans (h.roots y),htold.rank.trans h.rank,fun y => ?_,
    fun hroots => htold.rooted (h.rooted hroots),?_⟩
  · rw [htold.known,h.roots,h.roots,h.known huf]
  · rw [htold.conflicts,h.conflicts,h.known huf]

theorem Ranked.assert_told (h : Ranked uf) (x : String) (t : GateType) (priority : Int) :
    Told uf x t priority (uf.assert x t priority) := by
  have hfind := h.alike_find x
  obtain ⟨hparent,hrank,-⟩ := find_fixed_assert uf x x t priority
  obtain ⟨hranked,hroots⟩ := hfind.ranked.of_parent hparent hrank
  have hsame : ∀ y, (uf.assert x t priority).rootOf y=uf.rootOf y := fun y => (hroots y).trans (hfind.roots y)
  refine ⟨hranked,hsame,hrank.trans hfind.rank,fun y => ?_,fun hrooted y hy => ?_,?_⟩
  · rw [hranked.known_eq,hsame,(find_fixed_assert uf x (uf.rootOf y) t priority).2.2,hfind.fixed,h.known_eq]
  · rw [hsame]
    rw [(find_fixed_assert uf x y t priority).2.2,hfind.fixed] at hy
    split_ifs at hy with hroot
    · rw [hroot,rootOf_of_root (h.above_rootOf x)]
    · exact hrooted y hy
  · rw [assert_conflicts,hfind.conflicts,hfind.fixed,h.known_eq]

theorem raised_spec (t : GateType) (priority : Int) (known : Option Fixed) :
    (raised t priority known=⟨priority,t⟩ ∧ ∀ f, known=some f → f.priority < priority) ∨
      ∃ f, known=some f ∧ raised t priority known=f ∧ priority ≤ f.priority := by
  cases known with
  | none => exact .inl ⟨rfl,by simp⟩
  | some f =>
    by_cases hlt : f.priority < priority
    · refine .inl ⟨if_pos hlt,fun g hg => ?_⟩
      cases hg
      exact hlt
    · exact .inr ⟨f,rfl,if_neg hlt,by omega⟩

/-- What is known after an assertion was known before or is the assertion, which has beaten what was known. -/
theorem Told.cases (h : Told uf x t priority uf') (y : String) :
    uf'.known y=uf.known y ∨ (uf.rootOf y=uf.rootOf x ∧ uf'.known y=some ⟨priority,t⟩ ∧
      ∀ f, uf.known y=some f → f.priority < priority) := by
  rw [h.known]
  split_ifs with hy
  · rcases raised_spec t priority (uf.known y) with ⟨hraised,hlt⟩ | ⟨f,hknown,hraised,-⟩
    · exact .inr ⟨hy,by rw [hraised],hlt⟩
    · exact .inl (by rw [hraised,hknown])
  · exact .inl rfl

/-- What is known of a class that was made of two: the knowledge of higher priority. -/
def Merged : Option Fixed→Option Fixed→Option Fixed→Prop
  | none, q, r => r=q
  | p, none, r => r=p
  | some f, some g, r => ∃ t, r=some ⟨max f.priority g.priority,t⟩ ∧
      ((t=f.type ∧ g.priority ≤ f.priority) ∨ (t=g.type ∧ f.priority ≤ g.priority))

theorem Merged.refl (p : Option Fixed) : Merged p p p := by
  cases p with
  | none => rfl
  | some f => exact ⟨f.type,by rw [Int.max_self],.inl ⟨rfl,Int.le_refl _⟩⟩

theorem Merged.symm {p q r : Option Fixed} (h : Merged p q r) : Merged q p r := by
  cases p with
  | none => cases q <;> exact h
  | some f =>
    cases q with
    | none => exact h
    | some g =>
      obtain ⟨t,hr,hor⟩ := h
      exact ⟨t,by rw [hr,Int.max_comm],hor.symm⟩

theorem mergeFixed_parent (uf : UnionFind) (root old : String) :
    (uf.mergeFixed root old).parent=uf.parent ∧ (uf.mergeFixed root old).rank=uf.rank := by
  unfold mergeFixed
  split
  · exact ⟨rfl,rfl⟩
  · split
    · exact ⟨rfl,rfl⟩
    · split_ifs <;> exact ⟨rfl,rfl⟩

theorem mergeFixed_fixed (uf : UnionFind) (hne : root≠old) :
    Merged (uf.fixed.find root) (uf.fixed.find old) ((uf.mergeFixed root old).fixed.find root) ∧
      (uf.mergeFixed root old).fixed.find old=none ∧
      ∀ y, y≠root → y≠old→(uf.mergeFixed root old).fixed.find y=uf.fixed.find y := by
  unfold mergeFixed
  cases hold : uf.fixed.find old with
  | none =>
    refine ⟨?_,hold,fun _ _ _ => rfl⟩
    cases uf.fixed.find root <;> rfl
  | some theirs =>
    cases hroot : uf.fixed.find root with
    | none =>
      simp only [find_drop,find_put,hne,if_true,if_false]
      exact ⟨rfl,trivial,fun y h1 h2 => by simp [h1,h2]⟩
    | some ours =>
      simp only
      split_ifs with htype
      · have hsame : ours.type=theirs.type := by simpa using htype
        simp only [find_drop,find_put,hne,if_true,if_false]
        refine ⟨⟨ours.type,rfl,?_⟩,trivial,fun y h1 h2 => by simp [h1,h2]⟩
        rcases Int.le_total theirs.priority ours.priority with hle | hle
        · exact .inl ⟨rfl,hle⟩
        · exact .inr ⟨hsame,hle⟩
      · simp only [find_drop,find_put,hne,if_true,if_false]
        refine ⟨⟨theirs.type,?_,.inr ⟨rfl,by omega⟩⟩,trivial,fun y h1 h2 => by simp [h1,h2]⟩
        rw [Int.max_eq_right (by omega)]
      · simp only [find_drop,find_put,hne,if_true,if_false]
        refine ⟨⟨ours.type,?_,.inl ⟨rfl,by omega⟩⟩,trivial,fun y h1 h2 => by simp [h1,h2]⟩
        rw [Int.max_eq_left (by omega)]

/-- Types that are merged are in conflict if they differ. -/
theorem mergeFixed_conflicts (uf : UnionFind) (root old : String) :
    (uf.mergeFixed root old).conflicts=[] ↔
      uf.conflicts=[] ∧ ∀ f g, uf.fixed.find root=some f → uf.fixed.find old=some g → f.type=g.type := by
  unfold mergeFixed
  cases hold : uf.fixed.find old with
  | none => simp
  | some theirs =>
    cases hroot : uf.fixed.find root with
    | none => simp
    | some ours => by_cases htype : ours.type=theirs.type <;> simp [htype]

/-- An item in the class of one of two others. -/
abbrev OfEither (uf : UnionFind) (a b y : String) : Prop := uf.rootOf y=uf.rootOf a ∨ uf.rootOf y=uf.rootOf b

/-- Both classes have no type, or both have one and neither or both are vectors. -/
abbrev Fit (uf : UnionFind) (a b : String) : Prop := uf.known a=none ∧ uf.known b=none ∨
  ∃ f g, uf.known a=some f ∧ uf.known b=some g ∧ (f.type=.vector ↔ g.type=.vector)

/-- Two classes made one: which they were, the root of both, and what is known of it. -/
structure Joins (uf : UnionFind) (a b : String) (uf' : UnionFind) : Prop where
  ranked : Ranked uf'
  items : ∀ y, (uf'.rank.find y).isSome=(uf.rank.find y).isSome
  same : ∀ y z, uf'.rootOf y=uf'.rootOf z ↔ uf.rootOf y=uf.rootOf z ∨
    (uf.rootOf y=uf.rootOf a ∧ uf.rootOf z=uf.rootOf b) ∨ (uf.rootOf y=uf.rootOf b ∧ uf.rootOf z=uf.rootOf a)
  known : ∀ y, uf.OfEither a b y→Merged (uf.known a) (uf.known b) (uf'.known y)
  others : ∀ y, ¬uf.OfEither a b y → uf'.known y=uf.known y
  rooted : Rooted uf→Rooted uf'
  conflicts : uf'.conflicts=[] ↔ uf.conflicts=[] ∧ ∀ f g, uf.known a=some f → uf.known b=some g → f.type=g.type

theorem Joins.symm (h : Joins uf a b uf') : Joins uf b a uf' where
  ranked := h.ranked
  items := h.items
  same y z := (h.same y z).trans (or_congr Iff.rfl or_comm)
  known y hy := (h.known y hy.symm).symm
  others y hy := h.others y fun hor => hy hor.symm
  rooted := h.rooted
  conflicts := h.conflicts.trans (and_congr_right fun _ =>
    ⟨fun hall f g hf hg => (hall g f hg hf).symm,fun hall f g hf hg => (hall g f hg hf).symm⟩)

/-- Putting a root below another that is not lower joins their classes. -/
theorem Ranked.link_joins (h : Ranked uf) {i j : Nat} (hroot : uf.above root=root) (hold : uf.above old=old)
    (hne : root≠old) (hi : uf.rank.find root=some i) (hj : uf.rank.find old=some j) (hle : j ≤ i) :
    Joins uf root old (uf.link root old i j) := by
  -- the classes after the root was put below, before what is known is merged
  set low : UnionFind := { uf with
    parent := uf.parent.put old root
    rank := if i == j then uf.rank.put root (i+1) else uf.rank } with hlow
  have hlink : uf.link root old i j=low.mergeFixed root old := by
    simp only [link,hlow]
    split_ifs <;> rfl
  have habove : ∀ y, low.above y=if y=old then root else uf.above y := by
    intro y
    simp only [above,hlow,find_put]
    split_ifs <;> rfl
  have hrank : ∀ y, low.rank.find y=if y=root then some (if i=j then i+1 else i) else uf.rank.find y := by
    intro y
    by_cases hij : i=j
    · simp [hlow,hij]
    · simp only [hlow,beq_eq_false_iff_ne.2 hij,Bool.false_eq_true,if_false,hij]
      split_ifs with hy
      · rw [hy,hi]
      · rfl
  have hitems : ∀ y, (low.rank.find y).isSome=(uf.rank.find y).isSome := by
    intro y
    rw [hrank]
    by_cases hy : y=root
    · rw [if_pos hy,hy,hi,isSome_some,isSome_some]
    · rw [if_neg hy]
  have hranked : Ranked low := by
    refine ⟨fun y => ?_,fun {y p} hy hp => ?_⟩
    · rw [hitems]
      simp only [hlow,find_put]
      by_cases hyold : y=old
      · rw [if_pos hyold,hyold,hj,isSome_some,isSome_some]
      · rw [if_neg hyold,h.ranks y]
    · simp only [hlow,find_put] at hy
      split_ifs at hy with hyold
      · cases hy
        rw [hrank,hrank,hyold,if_neg (Ne.symm hne),if_pos rfl]
        exact ⟨j,_,hj,rfl,by split_ifs <;> omega⟩
      · obtain ⟨k,l,hk,hl,hlt⟩ := h.climbs hy hp
        have hyroot : y≠root := by
          rintro rfl
          rw [above_eq hy] at hroot
          exact hp hroot
        rw [hrank,hrank,if_neg hyroot]
        split_ifs with hproot hij
        · rw [hproot,hi] at hl
          cases hl
          exact ⟨k,_,hk,rfl,by omega⟩
        · rw [hproot,hi] at hl
          cases hl
          exact ⟨k,_,hk,rfl,hlt⟩
        · exact ⟨k,l,hk,hl,hlt⟩
  have hroots : ∀ y, low.rootOf y=if uf.rootOf y=old then root else uf.rootOf y := by
    refine hranked.rootOf_unique (fun y => ?_) (fun y hy => ?_)
    · rw [habove]
      by_cases hyold : y=old
      · rw [if_pos hyold,hyold,rootOf_of_root hroot,if_neg hne,rootOf_of_root hold,if_pos rfl]
      · rw [if_neg hyold,h.rootOf_above]
    · rw [habove] at hy
      split_ifs at hy with hyold
      · exact absurd (hy.trans hyold) hne
      · rw [rootOf_of_root hy,if_neg hyold]
  obtain ⟨hparent,hsame⟩ := mergeFixed_parent low root old
  obtain ⟨hranked',hroots'⟩ := hranked.of_parent hparent hsame
  have hrootOf : ∀ y, (low.mergeFixed root old).rootOf y=if uf.rootOf y=old then root else uf.rootOf y :=
    fun y => (hroots' y).trans (hroots y)
  obtain ⟨hmerged,hgone,hrest⟩ := mergeFixed_fixed low hne
  have hfixed : low.fixed=uf.fixed := rfl
  rw [hfixed] at hmerged hrest
  rw [hlink]
  refine ⟨hranked',fun y => ?_,fun y z => ?_,fun y hy => ?_,fun y hy => ?_,fun hrooted y hy => ?_,?_⟩
  · rw [hsame,hitems]
  · rw [hrootOf,hrootOf,rootOf_of_root hroot,rootOf_of_root hold]
    by_cases hy : uf.rootOf y=old
    · by_cases hz : uf.rootOf z=old
      · simp [hy,hz]
      · simp [hy,hz,Ne.symm hne,Ne.symm hz,eq_comm]
    · by_cases hz : uf.rootOf z=old
      · simp [hy,hz]
      · simp [hy,hz]
  · rw [hranked'.known_eq,hrootOf,h.known_eq,h.known_eq,rootOf_of_root hroot,rootOf_of_root hold]
    rw [OfEither,rootOf_of_root hroot,rootOf_of_root hold] at hy
    split_ifs with hyold
    · exact hmerged
    · rw [hy.resolve_right hyold]
      exact hmerged
  · obtain ⟨hyroot,hyold⟩ := not_or.1 hy
    rw [rootOf_of_root hroot] at hyroot
    rw [rootOf_of_root hold] at hyold
    rw [hranked'.known_eq,hrootOf,if_neg hyold,hrest _ hyroot hyold,h.known_eq]
  · rw [hrootOf]
    by_cases hyroot : y=root
    · rw [hyroot,rootOf_of_root hroot,if_neg hne]
    · have hyold : y≠old := by
        rintro rfl
        rw [hgone] at hy
        cases hy
      rw [hrest y hyroot hyold] at hy
      rw [hrooted y hy,if_neg hyold]
  · rw [mergeFixed_conflicts,hfixed,h.known_eq,h.known_eq,rootOf_of_root hroot,rootOf_of_root hold]

theorem Alike.joins (h : Alike uf low) (huf : Ranked uf) (hjoins : Joins low a b uf') : Joins uf a b uf' := by
  refine ⟨hjoins.ranked,fun y => ?_,fun y z => ?_,fun y hy => ?_,fun y hy => ?_,
    fun hrooted => hjoins.rooted (h.rooted hrooted),?_⟩
  · rw [hjoins.items,h.rank]
  · have hsame := hjoins.same y z
    rwa [h.roots,h.roots,h.roots,h.roots] at hsame
  · have hknown := hjoins.known y (by rwa [OfEither,h.roots,h.roots,h.roots])
    rwa [h.known huf,h.known huf] at hknown
  · rw [hjoins.others y (by rwa [OfEither,h.roots,h.roots,h.roots]),h.known huf]
  · rw [hjoins.conflicts,h.conflicts,h.known huf,h.known huf]

theorem Alike.joins_same (h : Alike uf uf') (huf : Ranked uf) (hab : uf.rootOf a=uf.rootOf b) : Joins uf a b uf' := by
  refine ⟨h.ranked,fun y => by rw [h.rank],fun y z => ?_,fun y hy => ?_,fun y _ => h.known huf y,h.rooted,?_⟩
  · rw [h.roots,h.roots,hab]
    constructor
    · exact .inl
    · rintro (hyz | ⟨hy,hz⟩ | ⟨hy,hz⟩)
      · exact hyz
      · exact hy.trans hz.symm
      · exact hy.trans hz.symm
  · have hya : uf.rootOf y=uf.rootOf a := hy.elim id fun hyb => hyb.trans hab.symm
    rw [h.known huf,huf.known_congr hya,← huf.known_congr hab]
    exact Merged.refl _
  · rw [h.conflicts,huf.known_congr hab]
    refine (and_iff_left fun f g hf hg => ?_).symm
    cases hf.symm.trans hg
    rfl

theorem Ranked.joins_of_roots (h : Ranked uf) (hjoins : Joins uf (uf.rootOf a) (uf.rootOf b) uf') : Joins uf a b uf' := by
  have ha := rootOf_of_root (h.above_rootOf a)
  have hb := rootOf_of_root (h.above_rootOf b)
  have hknown := hjoins.known
  have hsame := hjoins.same
  have hothers := hjoins.others
  have hconflicts := hjoins.conflicts
  simp only [OfEither,ha,hb] at hknown hothers
  rw [h.known_congr ha,h.known_congr hb] at hknown hconflicts
  exact ⟨hjoins.ranked,hjoins.items,fun y z => by rw [hsame,ha,hb],hknown,hothers,hjoins.rooted,hconflicts⟩

/-- A union that ends well joins the classes. -/
theorem Ranked.union_joins (h : Ranked uf) (hunion : uf.union a b=(.ok (),uf')) : Joins uf a b uf' := by
  have hfirst := h.alike_find a
  have hlow := hfirst.trans (hfirst.ranked.alike_find b)
  have hrootb : ((uf.find a).2.find b).1=uf.rootOf b := hfirst.roots b
  have hroot : ∀ x, ((uf.find a).2.find b).2.above (uf.rootOf x)=uf.rootOf x := by
    intro x
    rw [← hlow.roots x]
    exact hlow.ranked.above_rootOf x
  unfold union at hunion
  simp only [hrootb] at hunion
  rw [show (uf.find a).1=uf.rootOf a from rfl] at hunion
  split_ifs at hunion with hsame
  · cases hunion
    exact hlow.joins_same h (by simpa using hsame)
  · have hne : uf.rootOf a≠uf.rootOf b := by simpa using hsame
    refine h.joins_of_roots (hlow.joins h ?_)
    split at hunion
    · rename_i i j hi hj
      split_ifs at hunion with hlt
      · cases hunion
        exact (hlow.ranked.link_joins (hroot b) (hroot a) hne.symm hj hi (by omega)).symm
      · cases hunion
        exact hlow.ranked.link_joins (hroot a) (hroot b) hne hi hj (by omega)
    · cases hunion
    · cases hunion

/-- Items can always be joined. -/
theorem Ranked.union_ok (h : Ranked uf) (ha : (uf.rank.find a).isSome) (hb : (uf.rank.find b).isSome) :
    ∃ uf', uf.union a b=(.ok (),uf') := by
  have hfirst := h.alike_find a
  have hlow := hfirst.trans (hfirst.ranked.alike_find b)
  have hrootb : ((uf.find a).2.find b).1=uf.rootOf b := hfirst.roots b
  obtain ⟨i,hi⟩ := isSome_iff_exists.1 ha
  obtain ⟨j,hj⟩ := isSome_iff_exists.1 hb
  obtain ⟨i',hi',-⟩ := (h.finds _).rank_le h hi
  obtain ⟨j',hj',-⟩ := (h.finds _).rank_le h hj
  rw [← hlow.rank] at hi' hj'
  unfold union
  simp only [hrootb]
  rw [show (uf.find a).1=uf.rootOf a from rfl,hi',hj']
  by_cases hsame : (uf.rootOf a == uf.rootOf b)=true
  · exact ⟨_,by rw [if_pos hsame]⟩
  · rw [if_neg hsame]
    dsimp only
    split_ifs
    · exact ⟨_,rfl⟩
    · exact ⟨_,rfl⟩

theorem Joins.same_joined (h : Joins uf a b uf') (hy : uf.OfEither a b y) (z : String) :
    uf'.rootOf z=uf'.rootOf y ↔ uf.OfEither a b z := by
  rw [h.same]
  constructor
  · rintro (hzy | ⟨hza,-⟩ | ⟨hzb,-⟩)
    · rwa [OfEither,hzy]
    · exact .inl hza
    · exact .inr hzb
  · rintro (hza | hzb)
    · exact hy.imp (fun hya => hza.trans hya.symm) fun hyb => .inl ⟨hza,hyb⟩
    · exact hy.symm.imp (fun hyb => hzb.trans hyb.symm) fun hya => .inr ⟨hzb,hya⟩

/-- Where two classes are joined that both have a type or both have none, every member knows afterwards what one of the
two ends knew, with at least the priority of what it knew itself. -/
theorem Joins.known_member (h : Joins uf a b uf') (huf : Ranked uf)
    (hknown : uf.Fit a b)
    (hy : uf.OfEither a b y) :
    (uf.known y=none ∧ uf'.known y=none) ∨
      ∃ m k z, uf.known y=some m ∧ uf'.known y=some k ∧ (z=a ∨ z=b) ∧ uf.known z=some k ∧
        m.priority ≤ k.priority ∧ (k.type=.vector ↔ m.type=.vector) := by
  have hmerged := h.known y hy
  have hmember : uf.known y=uf.known a ∨ uf.known y=uf.known b := hy.imp huf.known_congr huf.known_congr
  rcases hknown with ⟨ha,hb⟩ | ⟨f,g,ha,hb,hvector⟩
  · rw [ha,hb] at hmerged hmember
    exact .inl ⟨hmember.elim id id,hmerged⟩
  · rw [ha,hb] at hmerged hmember
    obtain ⟨t,hk,⟨rfl,hle⟩ | ⟨rfl,hle⟩⟩ := hmerged
    · rw [Int.max_eq_left hle] at hk
      refine .inr ?_
      rcases hmember with hm | hm
      · exact ⟨f,f,a,hm,hk,.inl rfl,ha,Int.le_refl _,Iff.rfl⟩
      · exact ⟨g,f,a,hm,hk,.inl rfl,ha,hle,hvector⟩
    · rw [Int.max_eq_right hle] at hk
      refine .inr ?_
      rcases hmember with hm | hm
      · exact ⟨f,g,b,hm,hk,.inr rfl,hb,hle,hvector.symm⟩
      · exact ⟨g,g,b,hm,hk,.inr rfl,hb,Int.le_refl _,Iff.rfl⟩

/-- Every item starts in a class of its own of which nothing is known. -/
theorem ranked_ofItems (items : List String) :
    Ranked (ofItems items) ∧ (∀ x, (ofItems items).rootOf x=x) ∧ (∀ x, (ofItems items).known x=none) ∧
      ∀ x, ((ofItems items).rank.find x).isSome ↔ x∈items := by
  have hparent : ∀ x, (ofItems items).parent.find x=if x∈items then some x else none := by
    intro x
    simp only [ofItems,find_foldl_put (fun x => x),find_empty]
  have hrank : ∀ x, (ofItems items).rank.find x=if x∈items then some 0 else none := by
    intro x
    simp only [ofItems,find_foldl_put (fun _ => 0),find_empty]
  have hroot : ∀ x, (ofItems items).above x=x := by
    intro x
    rw [above,hparent]
    split_ifs <;> rfl
  have hranked : Ranked (ofItems items) := by
    refine ⟨fun x => ?_,fun {x p} hx hne => ?_⟩
    · rw [hparent,hrank]
      split_ifs <;> rfl
    · rw [← above_eq hx,hroot] at hne
      exact absurd rfl hne
  refine ⟨hranked,fun x => rootOf_of_root (hroot x),fun x => ?_,fun x => ?_⟩
  · rw [hranked.known_eq]
    rfl
  · rw [hrank]
    split_ifs with hx <;> simp [hx]

end ChipForge.Inference.UnionFind
