import ChipForge.Layout.Rows

/-! Swaps of neighbours in a column. Two nodes one above the other change rows if that lowers the number of crossings and the
distance to their neighbours; no two nodes swap twice. -/
namespace ChipForge.Layout

/-- Nodes in columns by their places, with ranks. -/
structure Board (α : Type) where
  columns : Columns
  columnOf : Table Int
  ranks : ByColumn Ranks
  positions : Table (Position α)

variable {α : Type} [Coordinate α]

def heightIn (positions : Table (Position α)) (id : String) : α :=
  ((positions.find id).map (·.y)).getD (Coordinate.rows 0)

/-- Columns of a cluster by distance from its leftmost node. -/
def Board.ofCluster (cluster : List String) (positions : Table (Position α)) : Board α :=
  let placed := cluster.filterMap fun id => (positions.find id).map fun p => (id,p.x)
  match placed with
  | [] => ⟨Table.empty,Table.empty,Table.empty,positions⟩
  | (_,x)::rest =>
    let left := leastOf x (rest.map (·.2))
    let numbered := placed.map fun (id,x) => (id,Coordinate.nearestColumn (Coordinate.sub x left))
    let columns := numbered.foldl (fun (t : Columns) (id,c) => t.add c id) Table.empty
    let sorted : Columns := columns.map fun ids =>
      ids.mergeSort fun a b => !Coordinate.lt (heightIn positions b) (heightIn positions a)
    ⟨sorted,numbered.foldl (fun t (id,c) => t.put id c) Table.empty,sorted.map ranksOf,positions⟩

/-- Pairs of a rank of the first list above a rank of the second. -/
def inversions (above below : List String) (ranks : Ranks) : Nat :=
  (above.filterMap ranks.find).foldl (fun n a => n+(below.filterMap ranks.find).countP fun b => decide (b < a)) 0

def medianTwice? (ids : List String) (ranks : Ranks) : Option Int :=
  let sorted := (ids.filterMap ranks.find).mergeSort fun a b => decide (a ≤ b)
  let m := sorted.length
  match sorted[m / 2]? with
  | none => none
  | some high => if m % 2 == 1 then some (2 * high) else some ((sorted[m / 2 - 1]?).getD high+high)

/-- Four times the distance of a rank from the mean of up to two medians. -/
def costFour (place : Int) (left right : Option Int) : Int :=
  match left, right with
  | some l, some r => ((4 * place - (l+r)).natAbs : Int)
  | some l, none => ((4 * place - 2 * l).natAbs : Int)
  | none, some r => ((4 * place - 2 * r).natAbs : Int)
  | none, none => 0

/-- Neighbours of two nodes in the columns beside theirs. -/
structure Beside where
  leftU : List String
  leftV : List String
  rightU : List String
  rightV : List String

def besideOf (before after : Table (List String)) (columnOf : Table Int) (c : Int) (u v : String) : Beside :=
  let inColumn (d : Int) (ids : List String) : List String := ids.filter fun id => columnOf.find id == some d
  ⟨inColumn (c - 1) (neighbours before u),inColumn (c - 1) (neighbours before v),
    inColumn (c+1) (neighbours after u),inColumn (c+1) (neighbours after v)⟩

def crossings (b : Beside) (left right : Ranks) : Int :=
  inversions b.leftU b.leftV left+inversions b.rightU b.rightV right

def crossingsSwapped (b : Beside) (left right : Ranks) : Int :=
  inversions b.leftV b.leftU left+inversions b.rightV b.rightU right

/-- Eight times the change of the score if two nodes swap: a crossing counts one, a distance one half. -/
def scoreChange (before after : Table (List String)) (columnOf : Table Int) (ranks : ByColumn Ranks) (c : Int)
    (u v : String) : Option Int := do
  let here ← ranks.find c
  let placeU ← here.find u
  let placeV ← here.find v
  let left := (ranks.find (c - 1)).getD Table.empty
  let right := (ranks.find (c+1)).getD Table.empty
  let b := besideOf before after columnOf c u v
  let costU (place : Int) : Int := costFour place (medianTwice? b.leftU left) (medianTwice? b.rightU right)
  let costV (place : Int) : Int := costFour place (medianTwice? b.leftV left) (medianTwice? b.rightV right)
  pure (8 * (crossingsSwapped b left right - crossings b left right) +
    (costU placeV+costV placeU - (costU placeU+costV placeV)))

def Board.scores (before after : Table (List String)) (b : Board α) : List (String×String×Option Int) :=
  b.columns.numbers.flatMap fun c =>
    let ids := b.columns.column c
    (ids.zip (ids.drop 1)).map fun (u,v) => (u,v,scoreChange before after b.columnOf b.ranks c u v)

def setHeight (t : Table (Position α)) (id : String) (y : α) : Table (Position α) :=
  match t.find id with
  | some p => t.put id { p with y := y }
  | none => t

def swapInColumn (b : Board α) (c : Int) (u v : String) : Option (Board α) := do
  let ids ← b.columns.find c
  let ranks ← b.ranks.find c
  let i ← ranks.find u
  let j ← ranks.find v
  let atI ← ids[i.toNat]?
  let atJ ← ids[j.toNat]?
  let positions := setHeight (setHeight b.positions u (heightIn b.positions v)) v (heightIn b.positions u)
  let swapped := (ids.set i.toNat atJ).set j.toNat atI
  pure { b with
    columns := b.columns.put c swapped
    ranks := b.ranks.put c ((ranks.put atJ i).put atI j)
    positions := positions }

def unordered (a b : String) : String×String := if b < a then (b,a) else (a,b)

/-- A board and the pairs that were swapped. -/
structure Shuffle (α : Type) where
  board : Board α
  swapped : List (String×String)

/-- Neighbours that may profit from a swap of a pair. -/
def affected (length i j : Nat) : List (Nat×Nat) :=
  (if 1 ≤ i then [(i - 1,i)] else [])++(if j+1 < length then [(j,j+1)] else [])

/-- Tries the pairs of a queue. Every swap is of a new pair and adds two pairs, so the square of the length bounds the tries. -/
def tryPairs (before after : Table (List String)) (c : Int) : Nat→List (Nat×Nat)→Shuffle α→Shuffle α
  | 0, _, s => s
  | _ + 1, [], s => s
  | fuel+1, (i,j)::queue, s =>
    let ids := s.board.columns.column c
    match ids[i]?, ids[j]? with
    | some u, some v =>
      let pair := unordered u v
      if s.swapped.contains pair then tryPairs before after c fuel queue s
      else
        match scoreChange before after s.board.columnOf s.board.ranks c u v with
        | some change =>
          if change < 0 then
            match swapInColumn s.board c u v with
            | some board =>
              tryPairs before after c fuel (queue++affected ids.length i j) ⟨board,pair::s.swapped⟩
            | none => tryPairs before after c fuel queue s
          else tryPairs before after c fuel queue s
        | none => tryPairs before after c fuel queue s
    | _, _ => tryPairs before after c fuel queue s

def adjacentPairs (length : Nat) : List (Nat×Nat) := (List.range (length - 1)).map fun i => (i,i+1)

def shuffleColumn (before after : Table (List String)) (s : Shuffle α) (c : Int) : Shuffle α :=
  let length := (s.board.columns.column c).length
  tryPairs before after c (length * length) (adjacentPairs length) s

/-- Places and the pairs that were swapped to reach them. -/
structure Settled (α : Type) where
  positions : Table (Position α)
  swapped : List (String×String)

def shuffleCluster (before after : Table (List String)) (s : Settled α) (cluster : List String) : Settled α :=
  let board := Board.ofCluster cluster s.positions
  let done := (board.columns.toList.map (·.1)).foldl (shuffleColumn before after) ⟨board,s.swapped⟩
  ⟨done.board.positions,done.swapped⟩

def shuffle (before after : Table (List String)) (clusters : List (List String)) : Nat→Settled α→Settled α
  | 0, s => s
  | passes+1, s => shuffle before after clusters passes (clusters.foldl (shuffleCluster before after) s)

end ChipForge.Layout
