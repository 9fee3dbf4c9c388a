import ChipForge.Proofs.ColumnSwaps
import Mathlib.Data.String.Basic
import Mathlib.Data.Sym.Card

/-! Runs of swaps. The queue of a column is worked off: a swap adds at most two pairs of rows to it, but uses up a pair of
nodes, and there are finitely many. All the while the columns are in order of height and the ranks say where each node
stands, so that no rank is missing. -/
namespace ChipForge.Layout
open List

variable {α : Type} [Coordinate α] {before after : Table (List String)} {c : Int} {cluster ids : List String}
  {u v : String} {t : Table (Position α)} {b : Board α}

/-- Ranks that say where in a column a node stands. -/
def Inverts (ranks : Ranks) (ids : List String) : Prop :=
  ∀ id i, ranks.find id=some i ↔ ∃ k : ℕ, i=k ∧ ids[k]?=some id

theorem find_rankFrom (h : ids.Nodup) (i : Int) (ranks : Ranks) (id : String) :
    (rankFrom i ranks ids).find id=if id∈ids then some (i+ids.idxOf id) else ranks.find id := by
  induction ids generalizing i ranks with
  | nil => rfl
  | cons first rest ih =>
    obtain ⟨hfirst,hrest⟩ := nodup_cons.1 h
    rw [rankFrom,ih hrest,Table.find_put]
    by_cases hid : id=first
    · simp [hid,hfirst]
    · simp only [hid,mem_cons,false_or,if_false,idxOf_cons_ne _ (Ne.symm hid)]
      split_ifs
      · congr 1
        omega
      · rfl

theorem inverts_ranksOf (h : ids.Nodup) : Inverts (ranksOf ids) ids := by
  intro id i
  rw [ranksOf,find_rankFrom h]
  constructor
  · intro hfind
    split_ifs at hfind with hid
    · exact ⟨ids.idxOf id,by simpa using hfind.symm,getElem?_idxOf hid⟩
    · cases hfind
  · rintro ⟨k,rfl,hk⟩
    obtain ⟨hlt,rfl⟩ := List.getElem?_eq_some_iff.1 hk
    rw [if_pos (getElem_mem hlt),h.idxOf_getElem,zero_add]

theorem set_set_eq_map_swap (h : ids.Nodup) {k l : ℕ} (hk : ids[k]?=some u) (hl : ids[l]?=some v) :
    (ids.set k v).set l u=ids.map (Equiv.swap u v) := by
  obtain ⟨hklt,rfl⟩ := List.getElem?_eq_some_iff.1 hk
  obtain ⟨hllt,rfl⟩ := List.getElem?_eq_some_iff.1 hl
  refine ext_getElem (by simp) fun n hn hn' => ?_
  have hnlt : n < ids.length := by simpa using hn'
  simp only [getElem_set,getElem_map,Equiv.swap_apply_def,h.getElem_inj_iff,eq_comm (a := n)]
  split_ifs with hln hkn
  · subst hkn hln
    rfl
  all_goals rfl

theorem Inverts.swap {ranks : Ranks} (h : Inverts ranks ids) {k l : ℕ} (hk : ids[k]?=some u) (hl : ids[l]?=some v) :
    Inverts ((ranks.put v k).put u l) (ids.map (Equiv.swap u v)) := by
  have hu : ranks.find u=some (k : Int) := (h u k).2 ⟨k,rfl,hk⟩
  have hv : ranks.find v=some (l : Int) := (h v l).2 ⟨l,rfl,hl⟩
  have hfind : ∀ id, ((ranks.put v k).put u l).find id=ranks.find (Equiv.swap u v id) := by
    intro id
    rw [Table.find_put,Table.find_put,Equiv.swap_apply_def]
    split_ifs
    · rw [hv]
    · rw [hu]
    · rfl
  intro id i
  rw [hfind,h]
  refine exists_congr fun n => and_congr_right fun _ => ?_
  rw [getElem?_map,Option.map_eq_some_iff]
  constructor
  · exact fun hn => ⟨_,hn,Equiv.swap_apply_self u v id⟩
  · rintro ⟨id,hn,rfl⟩
    rwa [Equiv.swap_apply_self]

theorem map_swap_perm (h : ids.Nodup) (huv : u∈ids ↔ v∈ids) : (ids.map (Equiv.swap u v)).Perm ids := by
  rw [perm_ext_iff_of_nodup (h.map (Equiv.swap u v).injective) h]
  intro id
  rw [mem_map_of_involutive (Equiv.swap_apply_self u v),Equiv.swap_apply_def]
  split_ifs with hidu hidv
  · rw [hidu,huv]
  · rw [hidv,huv]
  · rfl

theorem Inverts.nodup {ranks : Ranks} (h : Inverts ranks ids) : ids.Nodup := by
  refine nodup_iff_getElem?_ne_getElem?.2 fun i j hij hj heq => ?_
  have hi := (h ids[j] i).2 ⟨i,rfl,heq.trans (getElem?_eq_getElem hj)⟩
  have hj := (h ids[j] j).2 ⟨j,rfl,getElem?_eq_getElem hj⟩
  have := hi.symm.trans hj
  simp at this
  omega

theorem swapInColumn_eq {ranks : Ranks} {k l : ℕ} (hids : b.columns.find c=some ids) (hranks : b.ranks.find c=some ranks)
    (hinv : Inverts ranks ids) (hk : ids[k]?=some u) (hl : ids[l]?=some v) :
    swapInColumn b c u v=some ⟨b.columns.put c (ids.map (Equiv.swap u v)),b.columnOf,
      b.ranks.put c ((ranks.put v k).put u l),exchange b.positions u v⟩ := by
  have hset := set_set_eq_map_swap hinv.nodup hk hl
  simp [swapInColumn,hids,hranks,(hinv u k).2 ⟨k,rfl,hk⟩,(hinv v l).2 ⟨l,rfl,hl⟩,hk,hl,hset,exchange]

/-- A board as swaps leave it that started from a cluster at its places. -/
structure Board.Fits (cluster : List String) (t : Table (Position α)) (b : Board α) : Prop where
  x : ∀ id, (b.positions.find id).map (·.x)=(t.find id).map (·.x)
  columns : ∀ c, (b.columns.column c).Perm (columnIn cluster t c)
  ranks : ∀ {c ids}, b.columns.find c=some ids→∃ ranks, b.ranks.find c=some ranks ∧ Inverts ranks ids
  heights : ∀ c, (b.columns.column c).map (heightIn b.positions) =
    ((Board.ofCluster cluster t).columns.column c).map (heightIn t)

theorem Board.fits_ofCluster (h : cluster.Nodup) (t : Table (Position α)) : (Board.ofCluster cluster t).Fits cluster t := by
  have hpositions := Board.positions_ofCluster cluster t
  have hcolumns : ∀ c, ((Board.ofCluster cluster t).columns.column c).Perm (columnIn cluster t c) := fun c => by
    rw [Board.column_ofCluster]
    exact mergeSort_perm _ _
  refine ⟨fun id => by rw [hpositions],hcolumns,fun {c ids} hids => ⟨ranksOf ids,?_,inverts_ranksOf ?_⟩,
    fun c => by rw [hpositions]⟩
  · have hranks : (Board.ofCluster cluster t).ranks=(Board.ofCluster cluster t).columns.map ranksOf := by
      simp only [Board.ofCluster]
      split <;> rfl
    rw [hranks,ByColumn.find_map,hids]
    rfl
  · have hcolumn : (Board.ofCluster cluster t).columns.column c=ids := by rw [Columns.column,hids,Option.getD_some]
    exact hcolumn ▸ (hcolumns c).nodup_iff.2 (h.filter _)

namespace Board.Fits

theorem nodup (h : b.Fits cluster t) (hcluster : cluster.Nodup) (c : Int) : (b.columns.column c).Nodup :=
  (h.columns c).nodup_iff.2 (hcluster.filter _)

/-- The ranks of a column that has nodes are there. -/
theorem ranksOf (h : b.Fits cluster t) (hu : u∈b.columns.column c) : ∃ ranks,
    b.columns.find c=some (b.columns.column c) ∧ b.ranks.find c=some ranks ∧ Inverts ranks (b.columns.column c) := by
  cases hids : b.columns.find c with
  | none =>
    rw [Columns.column,hids] at hu
    cases hu
  | some ids =>
    obtain ⟨ranks,hranks,hinv⟩ := h.ranks hids
    have hcolumn : b.columns.column c=ids := by rw [Columns.column,hids,Option.getD_some]
    exact ⟨ranks,by rw [hcolumn],hranks,hcolumn ▸ hinv⟩

theorem isSome_scoreChange (before after : Table (List String)) (h : b.Fits cluster t) (hu : u∈b.columns.column c)
    (hv : v∈b.columns.column c) : (scoreChange before after b.columnOf b.ranks c u v).isSome := by
  obtain ⟨ranks,-,hranks,hinv⟩ := h.ranksOf hu
  obtain ⟨k,hk⟩ := getElem?_of_mem hu
  obtain ⟨l,hl⟩ := getElem?_of_mem hv
  simp [scoreChange,hranks,(hinv u k).2 ⟨k,rfl,hk⟩,(hinv v l).2 ⟨l,rfl,hl⟩]

theorem mem_columnIn (h : b.Fits cluster t) (hu : u∈b.columns.column c) : u∈columnIn cluster b.positions c := by
  rw [columnIn_congr h.x]
  exact (h.columns c).mem_iff.1 hu

theorem swap (h : b.Fits cluster t) (hcluster : cluster.Nodup) (hu : u∈b.columns.column c)
    (hv : v∈b.columns.column c) : ∃ b', swapInColumn b c u v=some b' ∧ b'.Fits cluster t := by
  obtain ⟨ranks,hids,hranks,hinv⟩ := h.ranksOf hu
  obtain ⟨k,hk⟩ := getElem?_of_mem hu
  obtain ⟨l,hl⟩ := getElem?_of_mem hv
  have hheight := heightIn_exchange (isSome_of_mem_columnIn (h.mem_columnIn hu))
    (isSome_of_mem_columnIn (h.mem_columnIn hv))
  refine ⟨_,swapInColumn_eq hids hranks hinv hk hl,fun id => (exchange_x _ u v id).trans (h.x id),fun d => ?_,
    fun {d ids} hd => ?_,fun d => ?_⟩
  · rw [Columns.column_put]
    split_ifs with hd
    · rw [hd]
      exact (map_swap_perm (h.nodup hcluster c) (iff_of_true hu hv)).trans (h.columns c)
    · exact h.columns d
  · rw [Table.find_put] at hd ⊢
    split_ifs at hd ⊢ with hdc
    · cases hd
      exact ⟨_,rfl,hinv.swap hk hl⟩
    · exact h.ranks hd
  · rw [← h.heights d,Columns.column_put]
    split_ifs with hd
    · rw [hd,map_map]
      refine map_congr_left fun id _ => ?_
      rw [Function.comp_apply,hheight,Equiv.swap_apply_self]
    · -- The two nodes are in another column.
      refine map_congr_left fun id hid => ?_
      have hne : ∀ w∈b.columns.column c, id≠w := by
        rintro w hw rfl
        have hidColumn := (Layout.mem_columnIn.1 (h.mem_columnIn hid)).2
        have hwColumn := (Layout.mem_columnIn.1 (h.mem_columnIn hw)).2
        exact hd (Option.some.inj (hidColumn.symm.trans hwColumn))
      rw [hheight,Equiv.swap_apply_of_ne_of_ne (hne u hu) (hne v hv)]

end Board.Fits

/-- One try of a queue: its first pair is taken off, and pairs to try for it are put last. -/
inductive Tries (before after : Table (List String)) (c : Int) :
    List (ℕ×ℕ)×Shuffle α→List (ℕ×ℕ)×Shuffle α→Prop
  | next {p : ℕ×ℕ} {queue more : List (ℕ×ℕ)} {s t : Shuffle α}
      (h : tryPair? before after c s p=some (t,more)) : Tries before after c (p::queue,s) (queue++more,t)

theorem Board.Fits.tryPair? (before after : Table (List String)) {s : Shuffle α} (h : s.board.Fits cluster t)
    (hcluster : cluster.Nodup) {p : ℕ×ℕ} (hfirst : p.1 < (s.board.columns.column c).length)
    (hsecond : p.2 < (s.board.columns.column c).length) : ∃ next, tryPair? before after c s p=some next := by
  have hu := getElem_mem hfirst
  have hv := getElem_mem hsecond
  obtain ⟨change,hchange⟩ := Option.isSome_iff_exists.1 (h.isSome_scoreChange before after hu hv)
  obtain ⟨board,hboard,-⟩ := h.swap hcluster hu hv
  unfold Layout.tryPair?
  simp only [getElem?_eq_getElem hfirst,getElem?_eq_getElem hsecond,Option.bind_eq_bind,Option.bind_some,hchange,
    hboard]
  split_ifs <;> exact ⟨_,rfl⟩

theorem Board.Fits.swaps {s s' : Shuffle α} {p : ℕ×ℕ} (hcluster : cluster.Nodup) (hswap : Swaps c s p u v s')
    (h : s.board.Fits cluster t) : s'.board.Fits cluster t := by
  obtain ⟨board,hboard,hfits⟩ := h.swap hcluster (mem_of_getElem? hswap.first) (mem_of_getElem? hswap.second)
  rw [hswap.board] at hboard
  cases hboard
  exact hfits

theorem Board.Fits.tries {s s' : Shuffle α} {queue queue' : List (ℕ×ℕ)} (hcluster : cluster.Nodup)
    (h : s.board.Fits cluster t) (htries : Relation.ReflTransGen (Tries before after c) (queue,s) (queue',s')) :
    s'.board.Fits cluster t := by
  suffices hall : ∀ a, Relation.ReflTransGen (Tries before after c) (queue,s) a → a.2.board.Fits cluster t from
    hall _ htries
  intro a ha
  induction ha with
  | refl => exact h
  | tail _ hstep ih =>
    obtain ⟨hp⟩ := hstep
    obtain ⟨rfl,-⟩ | ⟨u,v,hswap,-⟩ := tryPair?_eq_some hp
    · exact ih
    · exact ih.swaps hcluster hswap

theorem unordered_comm (u v : String) : unordered u v=unordered v u := by
  unfold unordered
  rcases lt_trichotomy u v with h | h | h
  · rw [if_neg h.asymm,if_pos h]
  · rw [h]
  · rw [if_pos h,if_neg h.asymm]

/-- The pairs of different nodes of a column. -/
def pairsIn (ids : List String) : Finset (String×String) := ids.toFinset.offDiag.image fun p => unordered p.1 p.2

theorem mem_pairsIn (hu : u∈ids) (hv : v∈ids) (hne : u≠v) : unordered u v∈pairsIn ids :=
  Finset.mem_image.2 ⟨(u,v),Finset.mem_offDiag.2 ⟨mem_toFinset.2 hu,mem_toFinset.2 hv,hne⟩,rfl⟩

theorem card_pairsIn_le (ids : List String) : 2 * (pairsIn ids).card ≤ ids.length * (ids.length - 1) := by
  have himage : pairsIn ids =
      (ids.toFinset.offDiag.image Sym2.mk.uncurry).image (Sym2.lift ⟨unordered,unordered_comm⟩) := by
    rw [pairsIn,Finset.image_image]
    rfl
  have hcard : (pairsIn ids).card ≤ ids.toFinset.card.choose 2 := by
    rw [himage,← Sym2.card_image_offDiag]
    exact Finset.card_image_le
  calc 2 * (pairsIn ids).card≤2 * ids.length.choose 2 :=
        Nat.mul_le_mul_left 2 (hcard.trans (Nat.choose_le_choose 2 (toFinset_card_le ids)))
    _ ≤ ids.length * (ids.length - 1) := by
        rw [Nat.choose_two_right]
        exact Nat.mul_div_le _ 2

/-- The pairs of nodes of a column that may still be swapped. -/
def openPairs (ids : List String) (noted : List (String×String)) : Finset (String×String) :=
  (pairsIn ids).filter (·∉noted)

theorem card_openPairs_cons {noted : List (String×String)} (hu : u∈ids) (hv : v∈ids) (hne : u≠v)
    (hnew : unordered u v∉noted) :
    (openPairs ids (unordered u v::noted)).card+1=(openPairs ids noted).card := by
  have hmem : unordered u v∈openPairs ids noted := Finset.mem_filter.2 ⟨mem_pairsIn hu hv hne,hnew⟩
  have herase : openPairs ids (unordered u v::noted)=(openPairs ids noted).erase (unordered u v) := by
    ext pair
    simp only [openPairs,Finset.mem_filter,Finset.mem_erase,mem_cons,not_or]
    tauto
  rw [herase,Finset.card_erase_add_one hmem]

theorem length_affected (length i j : ℕ) : (affected length i j).length≤2 := by
  unfold affected
  split_ifs <;> simp

theorem mem_affected {length i j : ℕ} (hij : i < j) (hj : j < length) {p : ℕ×ℕ} (h : p∈affected length i j) :
    p.1 < p.2 ∧ p.2 < length := by
  unfold affected at h
  rcases mem_append.1 h with h | h
  · split_ifs at h with hi
    · cases mem_singleton.1 h
      exact ⟨by omega,by omega⟩
    · cases h
  · split_ifs at h with hlast
    · cases mem_singleton.1 h
      exact ⟨by omega,hlast⟩
    · cases h

/-- A queue of pairs of rows is worked off within a bound on the pairs in it and twice the pairs of nodes that may be
swapped. -/
theorem tryPairs_runs (hcluster : cluster.Nodup) (fuel : ℕ) (queue : List (ℕ×ℕ)) (s : Shuffle α)
    (h : s.board.Fits cluster t) (hqueue : ∀ p∈queue, p.1 < p.2 ∧ p.2 < (columnIn cluster t c).length)
    (hfuel : queue.length+2 * (openPairs (columnIn cluster t c) s.swapped).card ≤ fuel) :
    Relation.ReflTransGen (Tries before after c) (queue,s) ([],tryPairs before after c fuel queue s) := by
  induction fuel generalizing queue s with
  | zero =>
    obtain rfl : queue=[] := eq_nil_of_length_eq_zero (by omega)
    exact .refl
  | succ fuel ih =>
    cases queue with
    | nil => exact .refl
    | cons p queue =>
      obtain ⟨hlt,hlast⟩ := hqueue p mem_cons_self
      have hlength := (h.columns c).length_eq
      obtain ⟨⟨s',more⟩,hp⟩ := h.tryPair? before after hcluster (p := p) (hlength ▸ hlt.trans hlast)
        (hlength ▸ hlast)
      rw [tryPairs_cons,hp]
      refine .head (.next hp) ?_
      rw [length_cons] at hfuel
      obtain ⟨rfl,rfl⟩ | ⟨u,v,hswap,rfl⟩ := tryPair?_eq_some hp
      · simp only [append_nil]
        exact ih queue s' h (fun q hq => hqueue q (mem_cons_of_mem _ hq)) (by omega)
      · have hu := (h.columns c).mem_iff.1 (mem_of_getElem? hswap.first)
        have hv := (h.columns c).mem_iff.1 (mem_of_getElem? hswap.second)
        have hne : u≠v := by
          rintro rfl
          have hsame : p.1=p.2 :=
            (getElem?_inj (by omega) (h.nodup hcluster c)).1 (hswap.first.trans hswap.second.symm)
          omega
        have hcard := card_openPairs_cons hu hv hne hswap.fresh
        rw [← hswap.noted] at hcard
        refine ih _ s' (h.swaps hcluster hswap) (fun q hq => ?_) ?_
        · rcases mem_append.1 hq with hq | hq
          · exact hqueue q (mem_cons_of_mem _ hq)
          · rw [hlength] at hq
            exact mem_affected hlt hlast hq
        · have hmore := length_affected (s.board.columns.column c).length p.1 p.2
          rw [length_append]
          omega

/-- Every column comes to the end of its queue. -/
theorem shuffleColumn_runs (hcluster : cluster.Nodup) {s : Shuffle α} (h : s.board.Fits cluster t) :
    Relation.ReflTransGen (Tries before after c) (adjacentPairs (s.board.columns.column c).length,s)
      ([],shuffleColumn before after s c) := by
  have hlength := (h.columns c).length_eq
  refine tryPairs_runs hcluster _ _ s h (fun p hp => ?_) ?_
  · obtain ⟨i,hi,rfl⟩ := mem_map.1 hp
    have := mem_range.1 hi
    exact ⟨Nat.lt_succ_self i,by omega⟩
  · have hopen : (openPairs (columnIn cluster t c) s.swapped).card≤(pairsIn (columnIn cluster t c)).card :=
      Finset.card_filter_le _ _
    have hpairs := card_pairsIn_le (columnIn cluster t c)
    have hadjacent : (adjacentPairs (s.board.columns.column c).length).length=(columnIn cluster t c).length - 1 := by
      rw [adjacentPairs,length_map,length_range,hlength]
    rw [hadjacent,hlength]
    cases hn : (columnIn cluster t c).length with
    | zero =>
      rw [hn,Nat.zero_mul] at hpairs
      omega
    | succ n =>
      rw [hn,Nat.add_sub_cancel] at hpairs
      rw [Nat.add_sub_cancel]
      calc n+2 * (openPairs (columnIn cluster t c) s.swapped).card ≤ n+(n+1) * n := by omega
        _ ≤ (n+1) * (n+1) := by rw [Nat.mul_succ]; omega

section Heights
variable {clusters : List (List String)} {s s' : Settled α}

/-- Swaps permute the heights of the nodes, and each column of a cluster is mapped to itself. -/
theorem Swapped.heights (h : Swapped clusters s s') (hnodup : ∀ cluster∈clusters, cluster.Nodup)
    (hdisjoint : clusters.Pairwise List.Disjoint) : ∃ σ : Equiv.Perm String,
      (∀ id, heightIn s'.positions id=heightIn s.positions (σ id)) ∧ ∀ cluster∈clusters, ∀ c,
        ((Layout.columnIn cluster s.positions c).map σ).Perm (Layout.columnIn cluster s.positions c) := by
  induction h with
  | refl => exact ⟨Equiv.refl _,fun _ => rfl,fun cluster _ c => by simp⟩
  | @exchange s' cluster' c' u v h hcluster' hu hv _ ih =>
    obtain ⟨σ,hheight,hperm⟩ := ih
    refine ⟨(Equiv.swap u v).trans σ,fun id => ?_,fun cluster hcluster c => ?_⟩
    · rw [heightIn_exchange (isSome_of_mem_columnIn hu) (isSome_of_mem_columnIn hv),hheight]
      rfl
    -- A column of a cluster holds both nodes or neither.
    have hboth : u∈Layout.columnIn cluster s.positions c ↔ v∈Layout.columnIn cluster s.positions c := by
      rw [← h.columnIn]
      by_cases hsame : cluster=cluster'
      · rw [hsame,mem_columnIn,mem_columnIn]
        rw [mem_columnIn] at hu hv
        simp only [hu,hv]
      · have : Std.Symm (List.Disjoint (α := String)) := ⟨fun _ _ h _ ha hb => h hb ha⟩
        have hapart : List.Disjoint cluster cluster' := hdisjoint.forall hcluster hcluster' hsame
        exact iff_of_false (fun hmem => hapart (mem_columnIn.1 hmem).1 (mem_columnIn.1 hu).1)
          (fun hmem => hapart (mem_columnIn.1 hmem).1 (mem_columnIn.1 hv).1)
    have hswap := map_swap_perm ((hnodup cluster hcluster).filter _) hboth
    rw [Equiv.coe_trans,← map_map]
    exact (hswap.map σ).trans (hperm cluster hcluster c)

/-- Heights that can be sorted: of two different heights one is less, and so transitively. -/
structure Sortable (t : Table (Position α)) : Prop where
  asymm : ∀ u v, Coordinate.lt (heightIn t u) (heightIn t v)→¬ Coordinate.lt (heightIn t v) (heightIn t u)
  trans : ∀ u v w, ¬ Coordinate.lt (heightIn t v) (heightIn t u)→¬ Coordinate.lt (heightIn t w) (heightIn t v) →
    ¬ Coordinate.lt (heightIn t w) (heightIn t u)

theorem Sortable.perm {t t' : Table (Position α)} (h : Sortable t) {σ : Equiv.Perm String}
    (hσ : ∀ id, heightIn t' id=heightIn t (σ id)) : Sortable t' := by
  refine ⟨fun u v => ?_,fun u v w => ?_⟩
  · rw [hσ,hσ]
    exact h.asymm _ _
  · rw [hσ,hσ,hσ]
    exact h.trans _ _ _

/-- The columns of a board are in order of height. -/
def Board.Sorted (b : Board α) : Prop :=
  ∀ c, (b.columns.column c).Pairwise fun u v => ¬ Coordinate.lt (heightIn b.positions v) (heightIn b.positions u)

theorem Board.Fits.sorted (h : b.Fits cluster t) (ht : Sortable t) : b.Sorted := by
  intro c
  have hsorted : ((Board.ofCluster cluster t).columns.column c).Pairwise fun u v =>
      ¬ Coordinate.lt (heightIn t v) (heightIn t u) := by
    rw [Board.column_ofCluster]
    refine (pairwise_mergeSort (fun u v w huv hvw => ?_) (fun u v => ?_) _).imp fun huv => by simpa using huv
    · simpa using ht.trans u v w (by simpa using huv) (by simpa using hvw)
    · by_cases huv : Coordinate.lt (heightIn t u) (heightIn t v)
      · simp [ht.asymm u v huv]
      · simp [huv]
  have hrows := pairwise_map (R := fun y z : α => ¬ Coordinate.lt z y) (f := heightIn b.positions)
    (l := b.columns.column c)
  rw [← hrows,h.heights c,pairwise_map]
  exact hsorted

end Heights

/-- The board on which a column is begun, after whole passes, then clusters, then columns of the next cluster. -/
def columnStart (before after : Table (List String)) (clusters : List (List String)) (t : Table (Position α))
    (passes : ℕ) (done : List (List String)) (cluster : List String) (front : List Int) : Shuffle α :=
  let s := done.foldl (shuffleCluster before after) (shuffle before after clusters passes ⟨t,[]⟩)
  front.foldl (shuffleColumn before after) ⟨Board.ofCluster cluster s.positions,s.swapped⟩

/-- Swaps come to an end and only permute rows. Each exchanges the heights of two nodes of a column of a cluster, no pair
twice. No node leaves its distance from the left, and the heights in a column of a cluster stay the same but for their
order. Each column comes to the end of its queue without a missing node or rank. At every try the ranks say where in the
columns the nodes stand, and if the heights can be sorted, the columns are in order of height. -/
theorem shuffle_permutes_rows (before after : Table (List String)) {clusters : List (List String)}
    (hnodup : ∀ cluster ∈ clusters, cluster.Nodup) (hdisjoint : clusters.Pairwise List.Disjoint)
    (t : Table (Position α)) (passes : ℕ) :
    let final := shuffle before after clusters passes ⟨t, []⟩
    Swapped clusters ⟨t, []⟩ final ∧ final.swapped.Nodup ∧
      (∀ id, (final.positions.find id).map (·.x) = (t.find id).map (·.x)) ∧
      (∀ cluster ∈ clusters, ∀ c, ((columnIn cluster final.positions c).map (heightIn final.positions)).Perm
        ((columnIn cluster t c).map (heightIn t))) ∧
      ∀ done cluster rest front c, clusters = done ++ cluster :: rest →
        let start := columnStart before after clusters t passes done cluster front
        let queue := adjacentPairs (start.board.columns.column c).length
        Relation.ReflTransGen (Tries before after c) (queue, start) ([], shuffleColumn before after start c) ∧
        ∀ queue' now, Relation.ReflTransGen (Tries before after c) (queue, start) (queue', now) →
          (∀ d, (now.board.columns.column d).Perm (columnIn cluster t d)) ∧
          (∀ d ids, now.board.columns.find d = some ids →
            ∃ ranks, now.board.ranks.find d = some ranks ∧ Inverts ranks ids) ∧
          (Sortable t → now.board.Sorted) := by
  intro final
  have hswapped : Swapped clusters ⟨t,[]⟩ final := shuffle_swapped clusters passes _
  refine ⟨hswapped,hswapped.nodup nodup_nil,hswapped.x,fun cluster hcluster c => ?_,?_⟩
  · obtain ⟨σ,hheight,hperm⟩ := hswapped.heights hnodup hdisjoint
    have hmap : (columnIn cluster t c).map (heightIn final.positions) =
        ((columnIn cluster t c).map σ).map (heightIn t) := by
      rw [map_map]
      exact map_congr_left fun id _ => hheight id
    rw [hswapped.columnIn,hmap]
    exact (hperm cluster hcluster c).map _
  · intro done cluster rest front c hsplit start queue
    have hmem : cluster ∈ clusters := by simp [hsplit]
    have hdone : done ⊆ clusters := by simp [hsplit]
    have hbegun : Swapped clusters ⟨t,[]⟩ (done.foldl (shuffleCluster before after) final) :=
      hswapped.trans (shuffleClusters_swapped hdone final)
    have hfits : start.board.Fits cluster (done.foldl (shuffleCluster before after) final).positions :=
      shuffleColumns_invariant (P := fun s => s.board.Fits cluster _)
        (fun hswap h => h.swaps (hnodup cluster hmem) hswap) front (Board.fits_ofCluster (hnodup cluster hmem) _)
    refine ⟨shuffleColumn_runs (hnodup cluster hmem) hfits,fun queue' now hnow => ?_⟩
    have hnowFits := hfits.tries (hnodup cluster hmem) hnow
    refine ⟨fun d => ?_,fun d ids hids => hnowFits.ranks hids,fun ht => ?_⟩
    · rw [← hbegun.columnIn]
      exact hnowFits.columns d
    · obtain ⟨σ,hheight,-⟩ := hbegun.heights hnodup hdisjoint
      exact hnowFits.sorted (ht.perm hheight)

/-- Two wires that cross, and a node apart. -/
def crossed : Table (Position Number) :=
  [("a",⟨.int 0,.int 0⟩),("b",⟨.int 0,.int 600⟩),("c",⟨.int 800,.int 0⟩),("d",⟨.int 800,.int 600⟩),
    ("e",⟨.int 0,.int 300⟩)]

theorem shuffle_permutes_rows_crossed :
    (∀ cluster ∈ [["a", "b", "c", "d"], ["e"]], cluster.Nodup) ∧
    [["a", "b", "c", "d"], ["e"]].Pairwise List.Disjoint ∧
    let final := shuffle [("c", ["b"]), ("d", ["a"])] [("a", ["d"]), ("b", ["c"])] [["a", "b", "c", "d"], ["e"]] 3
      ⟨crossed, []⟩
    final.swapped.Nodup ∧ ∀ c, ((columnIn ["a", "b", "c", "d"] final.positions c).map (heightIn final.positions)).Perm
      ((columnIn ["a", "b", "c", "d"] crossed c).map (heightIn crossed)) := by
  have hnodup : ∀ cluster ∈ [["a","b","c","d"],["e"]], cluster.Nodup := by decide
  have hdisjoint : [["a","b","c","d"],["e"]].Pairwise List.Disjoint := by simp
  obtain ⟨-,hnoted,-,hheights,-⟩ :=
    shuffle_permutes_rows [("c",["b"]),("d",["a"])] [("a",["d"]),("b",["c"])] hnodup hdisjoint crossed 3
  exact ⟨hnodup,hdisjoint,hnoted,hheights _ mem_cons_self⟩

end ChipForge.Layout
