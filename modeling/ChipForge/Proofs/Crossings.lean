import ChipForge.Proofs.SwapRuns
import Mathlib

/-! Crossings of wires. Two neighbours of a column change places: of all pairs of wires between the column and those beside it,
only the pairs with a wire at each of the two change their order. So the change of all crossings is found by counting with
the wires of the two alone. -/
namespace ChipForge.Layout
open List

variable {α : Type} {b : Board α} {c : Int}

/-- The wires between a column and one beside it, by the ranks of their ends. -/
def wiresBeside (near : Table (List String)) (beside column : List String) : List (ℕ×ℕ) :=
  column.zipIdx.flatMap fun (id,i) => ((neighbours near id).filter (·∈beside)).map fun n => (beside.idxOf n,i)

/-- Number of pairs of wires that cross: one begins below the other and ends above it. -/
def crossingPairs (wires : List (ℕ×ℕ)) : ℕ :=
  (wires.map fun e => wires.countP fun f => e.2 < f.2 ∧ f.1 < e.1).sum

/-- All crossings on both sides of a column. -/
def crossingsAt (before after : Table (List String)) (columns : Columns) (c : Int) : ℕ :=
  crossingPairs (wiresBeside before (columns.column (c - 1)) (columns.column c)) +
    crossingPairs (wiresBeside after (columns.column (c+1)) (columns.column c))

section Rows

/-- Crossings of wires to one row with wires to rows below it, by where they begin. -/
def rowCrossings (row below : List ℕ) : ℕ := (row.map fun a => below.countP (· < a)).sum

def allCrossings : List (List ℕ)→ℕ
  | [] => 0
  | row::rest => rowCrossings row rest.flatten+allCrossings rest

/-- Wires that begin where the rows say and end at the numbers of the rows. -/
def numbered (rows : List (List ℕ)) (i : ℕ) : List (ℕ×ℕ) := (rows.zipIdx i).flatMap fun (row,k) => row.map (·,k)

theorem numbered_cons (row : List ℕ) (rows : List (List ℕ)) (i : ℕ) :
    numbered (row::rows) i=row.map (·,i)++numbered rows (i+1) := by
  rw [numbered,zipIdx_cons,flatMap_cons,numbered]

theorem le_of_mem_numbered {rows : List (List ℕ)} {i : ℕ} {e : ℕ×ℕ} (h : e∈numbered rows i) : i ≤ e.2 := by
  obtain ⟨⟨row,k⟩,hrow,he⟩ := mem_flatMap.1 h
  obtain ⟨a,-,rfl⟩ := mem_map.1 he
  exact (mem_zipIdx hrow).1

theorem map_fst_numbered (rows : List (List ℕ)) (i : ℕ) : (numbered rows i).map (·.1)=rows.flatten := by
  induction rows generalizing i with
  | nil => rfl
  | cons row rest ih => simp [numbered_cons,ih,Function.comp_def]

/-- The wires of a row cross those of rows below it that begin above them. -/
theorem crossingPairs_numbered (rows : List (List ℕ)) (i : ℕ) : crossingPairs (numbered rows i)=allCrossings rows := by
  induction rows generalizing i with
  | nil => rfl
  | cons row rest ih =>
    have hupper : ∀ e : ℕ×ℕ, i ≤ e.2→(row.map (·,i)).countP (fun f => e.2 < f.2 ∧ f.1 < e.1)=0 := by
      intro e he
      refine countP_eq_zero.2 fun f hf => ?_
      obtain ⟨a,-,rfl⟩ := mem_map.1 hf
      simpa using fun hlt => absurd he (Nat.not_le.2 hlt)
    have hlower : ∀ a, (numbered rest (i+1)).countP (fun f => i < f.2 ∧ f.1 < a)=rest.flatten.countP (· < a) := by
      intro a
      rw [← map_fst_numbered rest (i+1),countP_map]
      refine countP_congr fun f hf => ?_
      simpa using fun _ => Nat.lt_of_succ_le (le_of_mem_numbered hf)
    rw [allCrossings,← ih (i+1),numbered_cons,crossingPairs,map_append,sum_append,map_map]
    congr 1
    · refine congrArg List.sum (map_congr_left fun a _ => ?_)
      rw [Function.comp_apply,countP_append,hupper (a,i) le_rfl,Nat.zero_add,hlower]
    · refine congrArg List.sum (map_congr_left fun e he => ?_)
      rw [countP_append,hupper e (Nat.le_of_succ_le (le_of_mem_numbered he)),Nat.zero_add]

theorem rowCrossings_append (row below rest : List ℕ) :
    rowCrossings row (below++rest)=rowCrossings row below+rowCrossings row rest := by
  simp [rowCrossings,countP_append,sum_map_add]

/-- Two rows one below the other change places. -/
theorem allCrossings_swap (first rest : List (List ℕ)) (row next : List ℕ) :
    allCrossings (first++next::row::rest)+rowCrossings row next =
      allCrossings (first++row::next::rest)+rowCrossings next row := by
  induction first with
  | nil =>
    simp only [nil_append,allCrossings,flatten_cons,rowCrossings_append]
    omega
  | cons r first ih =>
    have hperm := ((Perm.swap row next rest).append_left first).flatten
    have hrow : rowCrossings r (first++next::row::rest).flatten=rowCrossings r (first++row::next::rest).flatten :=
      congrArg List.sum (map_congr_left fun a _ => hperm.countP_eq _)
    simp only [cons_append,allCrossings,hrow]
    omega

end Rows

/-- The ranks at which the wires of a node begin. -/
def endsBeside (near : Table (List String)) (beside : List String) (id : String) : List ℕ :=
  ((neighbours near id).filter (·∈beside)).map beside.idxOf

theorem crossingPairs_wiresBeside (near : Table (List String)) (beside column : List String) :
    crossingPairs (wiresBeside near beside column)=allCrossings (column.map (endsBeside near beside)) := by
  rw [← crossingPairs_numbered _ 0]
  simp [wiresBeside,numbered,endsBeside,zipIdx_map,flatMap_map,Function.comp_def]

def Board.ranksIn (b : Board α) (c : Int) : Ranks := (b.ranks.find c).getD Table.empty

/-- A board with ranks that say where the nodes stand in their columns. -/
structure Board.Ranked (b : Board α) : Prop where
  columnOf : ∀ {c id}, id∈b.columns.column c → b.columnOf.find id=some c
  ranks : ∀ c, Inverts (b.ranksIn c) (b.columns.column c)

namespace Board.Ranked

theorem ranksIn_eq (h : b.Ranked) (d : Int) (ids : List String) :
    (ids.filter fun id => b.columnOf.find id == some d).filterMap (b.ranksIn d).find =
      ((ids.filter (·∈b.columns.column d)).map fun id => ((b.columns.column d).idxOf id : Int)) := by
  induction ids with
  | nil => rfl
  | cons id rest ih =>
    by_cases hid : id∈b.columns.column d
    · have hrank := (h.ranks d id _).2 ⟨_,rfl,getElem?_idxOf hid⟩
      simp [hid,h.columnOf hid,hrank,ih]
    · have hnone : (b.ranksIn d).find id=none := by
        refine Option.eq_none_iff_forall_ne_some.2 fun i hi => ?_
        obtain ⟨k,-,hk⟩ := (h.ranks d id i).1 hi
        exact hid (mem_of_getElem? hk)
      by_cases hd : b.columnOf.find id=some d <;> simp [hid,hd,hnone,ih]

/-- To count inversions among the neighbours of two nodes is to count the crossings of their wires. -/
theorem inversions_eq (h : b.Ranked) (near : Table (List String)) (d : Int) (u v : String) :
    inversions ((neighbours near u).filter fun id => b.columnOf.find id == some d)
        ((neighbours near v).filter fun id => b.columnOf.find id == some d) (b.ranksIn d) =
      rowCrossings (endsBeside near (b.columns.column d) u) (endsBeside near (b.columns.column d) v) := by
  have hfold : ∀ (as : List Int) (f : Int→ℕ) (n : ℕ), as.foldl (fun n a => n+f a) n=n+(as.map f).sum := by
    intro as f
    induction as with
    | nil => simp
    | cons a rest ih => simp [ih,Nat.add_assoc]
  rw [inversions,h.ranksIn_eq,h.ranksIn_eq,hfold,rowCrossings,endsBeside,endsBeside]
  simp [countP_map,Function.comp_def]

/-- Two nodes one below the other change places in their column, and nothing else does. -/
theorem swap [Coordinate α] (h : b.Ranked) {u v : String} {i : Int} (hu : (b.ranksIn c).find u=some i)
    (hv : (b.ranksIn c).find v=some (i+1)) : ∃ b' first rest, swapInColumn b c u v=some b' ∧ b'.Ranked ∧
      b.columns.column c=first++u::v::rest ∧
      ∀ d, b'.columns.column d=if d=c then first++v::u::rest else b.columns.column d := by
  obtain ⟨k,rfl,hk⟩ := (h.ranks c u i).1 hu
  obtain ⟨l,hl,hkl⟩ := (h.ranks c v _).1 hv
  obtain rfl : l=k+1 := by omega
  obtain ⟨ids,hids⟩ : ∃ ids, b.columns.find c=some ids := by
    rw [← Option.isSome_iff_exists,← ByColumn.mem_numbers]
    exact Columns.mem_numbers_of_mem (mem_of_getElem? hk)
  obtain ⟨ranks,hranks⟩ : ∃ ranks, b.ranks.find c=some ranks := by
    cases hfind : b.ranks.find c with
    | none => simp [ranksIn,hfind,Table.find_empty] at hu
    | some ranks => exact ⟨ranks,rfl⟩
  have hcolumn : b.columns.column c=ids := by rw [Columns.column,hids,Option.getD_some]
  have hinv := h.ranks c
  rw [ranksIn,hranks,Option.getD_some,hcolumn] at hinv
  rw [hcolumn] at hk hkl
  obtain ⟨first,rest,hfirst,hsplit⟩ : ∃ first rest, first.length=k ∧ ids=first++u::v::rest := by
    obtain ⟨hlt,rfl⟩ := List.getElem?_eq_some_iff.1 hk
    obtain ⟨hlt',rfl⟩ := List.getElem?_eq_some_iff.1 hkl
    exact ⟨ids.take k,ids.drop (k+2),length_take_of_le hlt.le,
      by rw [getElem_cons_drop,getElem_cons_drop,take_append_drop]⟩
  have hmap : ids.map (Equiv.swap u v)=first++v::u::rest := by
    rw [← set_set_eq_map_swap hinv.nodup hk hkl,hsplit]
    simp [hfirst]
  refine ⟨_,_,_,swapInColumn_eq hids hranks hinv hk hkl,⟨?_,?_⟩,hcolumn.trans hsplit,fun d => ?_⟩
  · intro d id hid
    refine h.columnOf (c := d) ?_
    rw [Columns.column_put] at hid
    split_ifs at hid with hd
    · rw [hd,hcolumn]
      exact (map_swap_perm hinv.nodup (iff_of_true (mem_of_getElem? hk) (mem_of_getElem? hkl))).mem_iff.1 hid
    · exact hid
  · intro d
    rw [ranksIn,Table.find_put,Columns.column_put]
    split_ifs with hd
    · exact hinv.swap hk hkl
    · exact h.ranks d
  · rw [Columns.column_put,hmap]

end Board.Ranked

/-- Two neighbours of a column can be swapped, and the crossings counted with the wires of the two alone change as all crossings
between the column and those beside it do. -/
theorem crossings_of_swap [Coordinate α] (before after : Table (List String)) {b : Board α} (h : b.Ranked) {c i : Int} {u v : String}
    (hu : (b.ranksIn c).find u=some i) (hv : (b.ranksIn c).find v=some (i+1)) :
    ∃ b', swapInColumn b c u v=some b' ∧ b'.Ranked ∧
      let beside := besideOf before after b.columnOf c u v
      crossingsSwapped beside (b.ranksIn (c - 1)) (b.ranksIn (c+1)) - crossings beside (b.ranksIn (c - 1)) (b.ranksIn (c+1)) =
        crossingsAt before after b'.columns c - crossingsAt before after b.columns c := by
  obtain ⟨b',first,rest,hswap,hranked,hcolumn,hcolumns⟩ := h.swap hu hv
  refine ⟨b',hswap,hranked,?_⟩
  have hside : ∀ (near : Table (List String)) (beside : List String),
      crossingPairs (wiresBeside near beside (first++v::u::rest)) +
          rowCrossings (endsBeside near beside u) (endsBeside near beside v) =
        crossingPairs (wiresBeside near beside (first++u::v::rest)) +
          rowCrossings (endsBeside near beside v) (endsBeside near beside u) := by
    intro near beside
    simp only [crossingPairs_wiresBeside,map_append,map_cons]
    exact allCrossings_swap _ _ _ _
  have hleft := hside before (b.columns.column (c - 1))
  have hright := hside after (b.columns.column (c+1))
  have hne : c - 1≠c ∧ c+1≠c := by omega
  simp only [crossingsSwapped,crossings,besideOf,h.inversions_eq,crossingsAt,hcolumns,if_neg hne.1,if_neg hne.2,
    if_pos,hcolumn]
  omega

def crossedBoard : Board Number :=
  ⟨[(0,["a","b"]),(1,["c","d"])],[("a",0),("b",0),("c",1),("d",1)],
    [(0,ranksOf ["a","b"]),(1,ranksOf ["c","d"])],crossed⟩

theorem ranked_crossedBoard : crossedBoard.Ranked := by
  have hall : ∀ c, (∀ id∈crossedBoard.columns.column c, crossedBoard.columnOf.find id=some c) ∧
      Inverts (crossedBoard.ranksIn c) (crossedBoard.columns.column c) := by
    intro c
    by_cases h0 : c=0
    · exact h0 ▸ ⟨by decide,inverts_ranksOf (by decide)⟩
    by_cases h1 : c=1
    · exact h1 ▸ ⟨by decide,inverts_ranksOf (by decide)⟩
    · have hnone : crossedBoard.columns.find c=none ∧ crossedBoard.ranks.find c=none := by
        simp [crossedBoard,Table.find,lookup_cons,beq_eq_false_iff_ne.2 h0,beq_eq_false_iff_ne.2 h1]
      rw [Board.ranksIn,Columns.column,hnone.1,hnone.2]
      exact ⟨forall_mem_nil _,fun id i => by simp [Table.find_empty]⟩
  exact ⟨fun {c id} hid => (hall c).1 id hid,fun c => (hall c).2⟩

theorem crossings_of_swap_crossed :
    let before : Table (List String) := [("c",["b"]),("d",["a"])]
    crossedBoard.Ranked ∧ ∃ b', swapInColumn crossedBoard 1 "c" "d" = some b' ∧
      crossingsAt before Table.empty b'.columns 1+1=crossingsAt before Table.empty crossedBoard.columns 1 := by
  intro before
  obtain ⟨b',hswap,-,hchange⟩ := crossings_of_swap before Table.empty ranked_crossedBoard (c := 1) (i := 0) (u := "c")
    (v := "d") (by decide) (by decide)
  have hlocal : crossingsSwapped (besideOf before Table.empty crossedBoard.columnOf 1 "c" "d") (crossedBoard.ranksIn 0)
      (crossedBoard.ranksIn 2) - crossings (besideOf before Table.empty crossedBoard.columnOf 1 "c" "d")
      (crossedBoard.ranksIn 0) (crossedBoard.ranksIn 2)=-1 := by decide
  refine ⟨ranked_crossedBoard,b',hswap,?_⟩
  have := hchange.symm.trans hlocal
  omega

end ChipForge.Layout
