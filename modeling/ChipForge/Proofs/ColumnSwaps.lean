import ChipForge.Layout.Engine
import ChipForge.Proofs.ColumnOrders
import Mathlib.Logic.Equiv.Basic

/-! What swaps do to places. A swap exchanges the heights of two nodes of one column of a cluster and is noted, and no
pair is noted twice; every run is a row of such exchanges. -/
namespace ChipForge.Layout
open List

variable {α : Type} [Coordinate α]

def exchange (t : Table (Position α)) (u v : String) : Table (Position α) :=
  setHeight (setHeight t u (heightIn t v)) v (heightIn t u)

omit [Coordinate α] in
theorem find_setHeight (t : Table (Position α)) (id : String) (y : α) (other : String) :
    (setHeight t id y).find other=if other=id then (t.find id).map fun p => { p with y := y } else t.find other := by
  unfold setHeight
  cases hid : t.find id with
  | none =>
    split_ifs with h
    · rw [h,hid,Option.map_none]
    · rfl
  | some p => rw [Table.find_put,Option.map_some]

omit [Coordinate α] in
theorem setHeight_x (t : Table (Position α)) (id : String) (y : α) (other : String) :
    ((setHeight t id y).find other).map (·.x)=(t.find other).map (·.x) := by
  rw [find_setHeight]
  split_ifs with h
  · rw [h,Option.map_map]
    rfl
  · rfl

theorem exchange_x (t : Table (Position α)) (u v id : String) :
    ((exchange t u v).find id).map (·.x)=(t.find id).map (·.x) := by
  rw [exchange,setHeight_x,setHeight_x]

theorem heightIn_exchange {t : Table (Position α)} {u v : String} (hu : (t.find u).isSome) (hv : (t.find v).isSome)
    (id : String) : heightIn (exchange t u v) id=heightIn t (Equiv.swap u v id) := by
  obtain ⟨p,hp⟩ := Option.isSome_iff_exists.1 hu
  obtain ⟨q,hq⟩ := Option.isSome_iff_exists.1 hv
  unfold heightIn exchange
  simp only [find_setHeight]
  by_cases hidv : id=v
  · rw [if_pos hidv,hidv,Equiv.swap_apply_right]
    split_ifs <;> simp [heightIn,hp,hq]
  · rw [if_neg hidv]
    by_cases hidu : id=u
    · rw [if_pos hidu,hidu,Equiv.swap_apply_left]
      simp [heightIn,hp,hq]
    · rw [if_neg hidu,Equiv.swap_apply_of_ne_of_ne hidu hidv]

/-- The least distance from the left at which a node of a cluster stands. -/
def leftOf (cluster : List String) (t : Table (Position α)) : α :=
  match cluster.filterMap fun id => (t.find id).map (·.x) with
  | [] => Coordinate.rows 0
  | x::rest => leastOf x rest

def columnFrom (left : α) (t : Table (Position α)) (id : String) : Option Int :=
  (t.find id).map fun p => Coordinate.nearestColumn (Coordinate.sub p.x left)

/-- The nodes of a cluster in a column, counted from its leftmost node. -/
def columnIn (cluster : List String) (t : Table (Position α)) (c : Int) : List String :=
  cluster.filter fun id => columnFrom (leftOf cluster t) t id == some c

theorem mem_columnIn {cluster : List String} {t : Table (Position α)} {c : Int} {id : String} :
    id∈columnIn cluster t c ↔ id∈cluster ∧ columnFrom (leftOf cluster t) t id=some c := by
  rw [columnIn,mem_filter,beq_iff_eq]

theorem isSome_of_mem_columnIn {cluster : List String} {t : Table (Position α)} {c : Int} {id : String}
    (h : id∈columnIn cluster t c) : (t.find id).isSome := by
  obtain ⟨p,hp,-⟩ := Option.map_eq_some_iff.1 (mem_columnIn.1 h).2
  rw [hp]
  rfl

theorem columnIn_congr {s t : Table (Position α)} (h : ∀ id, (t.find id).map (·.x)=(s.find id).map (·.x))
    (cluster : List String) : columnIn cluster t=columnIn cluster s := by
  have hleft : leftOf cluster t=leftOf cluster s := by
    unfold leftOf
    rw [funext h]
  have hcolumn : columnFrom (leftOf cluster s) t=columnFrom (leftOf cluster s) s := by
    funext id
    have hid := congrArg (Option.map fun x => Coordinate.nearestColumn (Coordinate.sub x (leftOf cluster s))) (h id)
    rwa [Option.map_map,Option.map_map] at hid
  funext c
  rw [columnIn,columnIn,hleft,hcolumn]

/-- Places after exchanges of heights in columns of clusters, each of a pair that was not noted before. -/
inductive Swapped (clusters : List (List String)) : Settled α→Settled α→Prop
  | refl (s : Settled α) : Swapped clusters s s
  | exchange {s t : Settled α} {cluster : List String} {c : Int} {u v : String} (h : Swapped clusters s t)
      (hcluster : cluster∈clusters) (hu : u∈columnIn cluster t.positions c) (hv : v∈columnIn cluster t.positions c)
      (hnew : unordered u v∉t.swapped) :
      Swapped clusters s ⟨exchange t.positions u v,unordered u v::t.swapped⟩

section Swapped
variable {clusters : List (List String)} {s t r : Settled α}

theorem Swapped.trans (h : Swapped clusters r s) (h' : Swapped clusters s t) : Swapped clusters r t := by
  induction h' with
  | refl => exact h
  | exchange _ hcluster hu hv hnew ih => exact ih.exchange hcluster hu hv hnew

theorem Swapped.x (h : Swapped clusters s t) (id : String) :
    (t.positions.find id).map (·.x)=(s.positions.find id).map (·.x) := by
  induction h with
  | refl => rfl
  | exchange _ _ _ _ _ ih => exact (exchange_x _ _ _ id).trans ih

theorem Swapped.columnIn (h : Swapped clusters s t) (cluster : List String) :
    columnIn cluster t.positions=columnIn cluster s.positions :=
  columnIn_congr h.x cluster

theorem Swapped.nodup (h : Swapped clusters s t) (hs : s.swapped.Nodup) : t.swapped.Nodup := by
  induction h with
  | refl => exact hs
  | exchange _ _ _ _ hnew ih => exact nodup_cons.2 ⟨hnew,ih⟩

end Swapped

variable {before after : Table (List String)} {c : Int}

/-- A pair of rows is tried: the outcome, and the pairs to try for it; none if a node or a rank is missing. -/
def tryPair? (before after : Table (List String)) (c : Int) (s : Shuffle α) (p : Nat×Nat) :
    Option (Shuffle α×List (Nat×Nat)) := do
  let ids := s.board.columns.column c
  let u ← ids[p.1]?
  let v ← ids[p.2]?
  if s.swapped.contains (unordered u v) then pure (s,[])
  else
    let change ← scoreChange before after s.board.columnOf s.board.ranks c u v
    if change < 0 then
      let board ← swapInColumn s.board c u v
      pure (⟨board,unordered u v::s.swapped⟩,affected ids.length p.1 p.2)
    else pure (s,[])

/-- Two nodes of a column that were not swapped before are swapped. -/
structure Swaps (c : Int) (s : Shuffle α) (p : Nat×Nat) (u v : String) (t : Shuffle α) : Prop where
  first : (s.board.columns.column c)[p.1]?=some u
  second : (s.board.columns.column c)[p.2]?=some v
  fresh : unordered u v∉s.swapped
  board : swapInColumn s.board c u v=some t.board
  noted : t.swapped=unordered u v::s.swapped

theorem tryPair?_eq_some {s t : Shuffle α} {p : Nat×Nat} {more : List (Nat×Nat)}
    (h : tryPair? before after c s p=some (t,more)) :
    t=s ∧ more=[] ∨ ∃ u v, Swaps c s p u v t ∧ more=affected (s.board.columns.column c).length p.1 p.2 := by
  unfold tryPair? at h
  simp only [Option.bind_eq_bind,Option.bind_eq_some_iff,Option.pure_def] at h
  obtain ⟨u,hu,v,hv,h⟩ := h
  split_ifs at h with hnoted
  · cases h
    exact .inl ⟨rfl,rfl⟩
  · obtain ⟨change,-,h⟩ := Option.bind_eq_some_iff.1 h
    split_ifs at h
    · obtain ⟨board,hboard,h⟩ := Option.bind_eq_some_iff.1 h
      cases h
      exact .inr ⟨u,v,⟨hu,hv,by simpa using hnoted,hboard,rfl⟩,rfl⟩
    · cases h
      exact .inl ⟨rfl,rfl⟩

theorem tryPairs_cons (fuel : Nat) (p : Nat×Nat) (queue : List (Nat×Nat)) (s : Shuffle α) :
    tryPairs before after c (fuel+1) (p::queue) s =
      match tryPair? before after c s p with
      | some (t,more) => tryPairs before after c fuel (queue++more) t
      | none => tryPairs before after c fuel queue s := by
  obtain ⟨i,j⟩ := p
  rw [tryPairs,tryPair?]
  cases hu : (s.board.columns.column c)[i]? with
  | none => simp
  | some u =>
    cases hv : (s.board.columns.column c)[j]? with
    | none => simp
    | some v =>
      by_cases hnoted : unordered u v∈s.swapped
      · simp [hnoted]
      · cases hscore : scoreChange before after s.board.columnOf s.board.ranks c u v with
        | none => simp [hnoted,hscore]
        | some change =>
          by_cases hless : change < 0
          · cases hboard : swapInColumn s.board c u v <;> simp [hnoted,hscore,hless,hboard]
          · simp [hnoted,hscore,hless]

/-- What every swap in a column keeps, tries of pairs keep. -/
theorem tryPairs_invariant {P : Shuffle α→Prop} (hstep : ∀ {s t p u v}, Swaps c s p u v t→P s→P t) (fuel : Nat)
    (queue : List (Nat×Nat)) {s : Shuffle α} (h : P s) : P (tryPairs before after c fuel queue s) := by
  induction fuel generalizing queue s with
  | zero => exact h
  | succ fuel ih =>
    cases queue with
    | nil => exact h
    | cons p queue =>
      rw [tryPairs_cons]
      cases hp : tryPair? before after c s p with
      | none => exact ih queue h
      | some next =>
        obtain ⟨t,more⟩ := next
        obtain ⟨rfl,-⟩ | ⟨u,v,hswap,-⟩ := tryPair?_eq_some hp
        · exact ih _ h
        · exact ih _ (hstep hswap h)

/-- What every swap keeps, swaps in all columns keep. -/
theorem shuffleColumns_invariant {P : Shuffle α→Prop} (hstep : ∀ {c s t p u v}, Swaps c s p u v t→P s→P t)
    (cs : List Int) {s : Shuffle α} (h : P s) : P (cs.foldl (shuffleColumn before after) s) := by
  induction cs generalizing s with
  | nil => exact h
  | cons c rest ih => exact ih (tryPairs_invariant hstep _ _ h)

theorem swapInColumn_eq_some {b b' : Board α} {u v : String} (h : swapInColumn b c u v=some b') :
    b'.positions=exchange b.positions u v ∧ ∀ d, ∀ id∈b'.columns.column d, id∈b.columns.column d := by
  unfold swapInColumn at h
  simp only [Option.bind_eq_bind,Option.bind_eq_some_iff,Option.pure_def,Option.some.injEq] at h
  obtain ⟨ids,hids,ranks,-,i,-,j,-,atI,hatI,atJ,hatJ,rfl⟩ := h
  refine ⟨rfl,fun d id hid => ?_⟩
  rw [Columns.column_put] at hid
  split_ifs at hid with hd
  · have hcolumn : b.columns.column d=ids := by rw [hd,Columns.column,hids,Option.getD_some]
    rw [hcolumn]
    rcases mem_or_eq_of_mem_set hid with hid | rfl
    · rcases mem_or_eq_of_mem_set hid with hid | rfl
      · exact hid
      · exact mem_of_getElem? hatJ
    · exact mem_of_getElem? hatI
  · exact hid

theorem placed_column (cluster : List String) (t : Table (Position α)) (c : Int) (left : α) :
    (((cluster.filterMap fun id => (t.find id).map fun p => (id,p.x)).map fun (id,x) =>
      (id,Coordinate.nearestColumn (Coordinate.sub x left))).filter (·.2 == c)).map (·.1) =
        cluster.filter fun id => columnFrom left t id == some c := by
  induction cluster with
  | nil => rfl
  | cons id rest ih =>
    rw [filterMap_cons,filter_cons]
    unfold columnFrom at ih ⊢
    cases hid : t.find id with
    | none => simpa using ih
    | some p =>
      by_cases hc : Coordinate.nearestColumn (Coordinate.sub p.x left)=c <;> simpa [hc] using ih

/-- The columns of a new board are those of the cluster, by height. -/
theorem Board.column_ofCluster (cluster : List String) (t : Table (Position α)) (c : Int) :
    (Board.ofCluster cluster t).columns.column c =
      (columnIn cluster t c).mergeSort fun a b => !Coordinate.lt (heightIn t b) (heightIn t a) := by
  have hxs : cluster.filterMap (fun id => (t.find id).map (·.x)) =
      (cluster.filterMap fun id => (t.find id).map fun p => (id,p.x)).map (·.2) := by
    rw [map_filterMap]
    congr 1
    funext id
    rw [Option.map_map]
    rfl
  unfold columnIn leftOf Board.ofCluster
  rw [hxs]
  cases hcluster : cluster.filterMap fun id => (t.find id).map fun p => (id,p.x) with
  | nil =>
    have hnone := placed_column cluster t c (Coordinate.rows 0)
    rw [hcluster] at hnone
    rw [map_nil,← hnone]
    exact mergeSort_nil.symm
  | cons first rest =>
    rw [map_cons,← placed_column,hcluster]
    simp only
    rw [Columns.column_map _ mergeSort_nil,column_foldl_add]
    rfl

theorem Board.positions_ofCluster (cluster : List String) (t : Table (Position α)) :
    (Board.ofCluster cluster t).positions=t := by
  simp only [Board.ofCluster]
  split <;> rfl

theorem shuffleCluster_swapped {clusters : List (List String)} {cluster : List String} (hcluster : cluster∈clusters)
    (s : Settled α) (cs : List Int) :
    let t := cs.foldl (shuffleColumn before after) ⟨Board.ofCluster cluster s.positions,s.swapped⟩
    Swapped clusters s ⟨t.board.positions,t.swapped⟩ := by
  -- Along the swaps the nodes on the board stay in the columns of the cluster.
  let P : Shuffle α→Prop := fun t => Swapped clusters s ⟨t.board.positions,t.swapped⟩ ∧
    ∀ c, ∀ id∈t.board.columns.column c, id∈columnIn cluster t.board.positions c
  suffices hall : P (cs.foldl (shuffleColumn before after) ⟨Board.ofCluster cluster s.positions,s.swapped⟩) from hall.1
  refine shuffleColumns_invariant ?_ cs ⟨?_,fun c id hid => ?_⟩
  · rintro c t t' p u v hswap ⟨hswapped,hcolumns⟩
    obtain ⟨hpositions,hmem⟩ := swapInColumn_eq_some hswap.board
    have hu := hcolumns c u (mem_of_getElem? hswap.first)
    have hv := hcolumns c v (mem_of_getElem? hswap.second)
    refine ⟨?_,fun d id hid => ?_⟩
    · rw [hpositions,hswap.noted]
      exact hswapped.exchange hcluster hu hv hswap.fresh
    · rw [hpositions,columnIn_congr (exchange_x _ u v)]
      exact hcolumns d id (hmem d id hid)
  · rw [Board.positions_ofCluster]
    exact .refl _
  · rw [Board.positions_ofCluster]
    rwa [Board.column_ofCluster,(mergeSort_perm _ _).mem_iff] at hid

theorem shuffleClusters_swapped {clusters part : List (List String)} (hpart : part ⊆ clusters) (s : Settled α) :
    Swapped clusters s (part.foldl (shuffleCluster before after) s) := by
  induction part generalizing s with
  | nil => exact .refl s
  | cons cluster rest ih =>
    refine .trans ?_ (ih (fun _ h => hpart (mem_cons_of_mem _ h)) _)
    exact shuffleCluster_swapped (hpart mem_cons_self) s _

theorem shuffle_swapped (clusters : List (List String)) (passes : Nat) (s : Settled α) :
    Swapped clusters s (shuffle before after clusters passes s) := by
  induction passes generalizing s with
  | zero => exact .refl s
  | succ passes ih => exact (shuffleClusters_swapped (Subset.refl _) s).trans (ih _)

end ChipForge.Layout
