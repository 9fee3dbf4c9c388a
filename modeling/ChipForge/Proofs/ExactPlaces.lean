import ChipForge.Proofs.LeastRows

/-! Measured in rational numbers, the nodes that layout places never come closer to each other than the distance of rows
in a column, or of columns, and the highest node is as far above the middle as the lowest is below it. -/
namespace ChipForge.Layout
open List

variable {order : List String} {u v : String} {ys : Table ℚ} {f : String→ℚ} {t : Table (Position ℚ)}

/-- Nodes in one column keep the distance of rows. -/
def Apart (t : Table (Position ℚ)) : Prop :=
  ∀ ⦃u v p q⦄, u≠v → t.find u=some p → t.find v=some q → p.x=q.x→600≤|p.y - q.y|

/-- Rows that are whole numbers of distances stay so. -/
def OnRows (ys : Table ℚ) : Prop := ∀ id, ∃ k : ℤ, rowOf ys id=600 * k

theorem OnRows.put (h : OnRows ys) (key : String) (k : ℤ) : OnRows (ys.put key (600 * k)) := by
  intro id
  rw [rowOf_put]
  split_ifs
  · exact ⟨k,rfl⟩
  · exact h id

/-- Places that are not whole numbers of distances could be lowered to such. -/
theorem LeastSpaced.onRows (h : LeastSpaced ys order f) (hys : OnRows ys) {id : String} (hid : id∈order) :
    ∃ k : ℤ, f id=600 * k := by
  have hfloor : ∀ x : ℚ, 600 * (⌊x / 600⌋ : ℚ) ≤ x := fun x => by linarith [Int.floor_le (x / 600)]
  have hlowered : Spaced ys order fun id => 600 * (⌊f id / 600⌋ : ℚ) := by
    refine ⟨fun a ha => ?_,h.apart.imp fun a b hab => ?_⟩
    · obtain ⟨k,hk⟩ := hys a
      have hle : k≤⌊f a / 600⌋ := Int.le_floor.2 (by linarith [h.rows a ha])
      rw [hk]
      exact mul_le_mul_of_nonneg_left (Int.cast_le.2 hle) (by norm_num)
    · have hle : ⌊f a / 600⌋+1≤⌊f b / 600⌋ := Int.le_floor.2 (by push_cast; linarith [hfloor (f a)])
      have hcast : (⌊f a / 600⌋ : ℚ)+1≤⌊f b / 600⌋ := by exact_mod_cast hle
      linarith
  exact ⟨_,le_antisymm (h.least _ hlowered id hid) (hfloor _)⟩

theorem onRows_firstRows (layers : Columns) (after : Table (List String)) : OnRows (firstRows layers after) := by
  have hstack : ∀ (ids : List String) (i : ℤ) (ys : Table ℚ), OnRows ys→OnRows (stack i ys ids) := by
    intro ids
    induction ids with
    | nil => exact fun _ _ h => h
    | cons id rest ih => exact fun i ys h => ih _ _ (h.put id i)
  have hfold : ∀ (columns : Columns) (cs : List ℤ) (ys : Table ℚ), OnRows ys →
      OnRows (cs.foldl (fun ys c => stack 0 ys ((columns.column c).filter fun id => !isStandIn id)) ys) := by
    intro columns cs
    induction cs with
    | nil => exact fun _ h => h
    | cons c rest ih => exact fun ys h => ih _ (hstack _ 0 ys h)
  exact hfold _ _ _ fun _ => ⟨0,rfl⟩

/-- Nodes with rows placed in the columns of their layers, apart from each other. -/
structure Ordered (layerOf : String→Option Int) (ys : Table ℚ) (t : Table (Position ℚ)) : Prop where
  keys : t.keys.Nodup
  apart : Apart t
  placed : ∀ {id p}, t.find id=some p → ys.has id ∧ ∃ c, layerOf id=some c ∧ p.x=800 * c
  rows : ∀ {id p}, t.find id=some p→∃ k : ℤ, p.y=600 * k

section Ordered
variable {layers : Columns} {layerOf : String→Option Int} {ys : Table ℚ}

theorem separated_ordered (hlayers : ∀ c id, id∈layers.column c ↔ layerOf id=some c)
    (hnodes : (layers.numbers.flatMap layers.column).Nodup) (hrows : OnRows ys) : Ordered layerOf ys (separated layers ys) := by
  obtain ⟨rows,h⟩ := separated_placing hnodes ys
  have hplaced : ∀ {id p}, (separated layers ys).find id=some p →
      ∃ c∈layers.numbers, id∈layers.column c ∧ ys.has id ∧ p=⟨800 * c,rowOf rows id⟩ := by
    intro id p hp
    obtain ⟨c,hc,hid,hhas⟩ := h.found id (by rw [hp]; rfl)
    exact ⟨c,hc,hid,hhas,Option.some.inj (hp.symm.trans (h.find_of_mem hc hid hhas))⟩
  refine ⟨h.keys,fun u v p q hne hp hq hx => ?_,fun {id p} hp => ?_,fun {id p} hp => ?_⟩
  · obtain ⟨c,hc,hu,huhas,rfl⟩ := hplaced hp
    obtain ⟨d,hd,hv,hvhas,rfl⟩ := hplaced hq
    obtain rfl : c=d := by exact_mod_cast mul_left_cancel₀ (by norm_num) (show (800 : ℚ) * c=800 * d from hx)
    obtain ⟨order,horder,hleast,-⟩ := h.layer c hc
    exact hleast.far (horder.perm.mem_iff.2 (mem_filter.2 ⟨hu,huhas⟩)) (horder.perm.mem_iff.2 (mem_filter.2 ⟨hv,hvhas⟩)) hne
  · obtain ⟨c,-,hid,hhas,rfl⟩ := hplaced hp
    exact ⟨hhas,c,(hlayers c id).1 hid,rfl⟩
  · obtain ⟨c,hc,hid,hhas,rfl⟩ := hplaced hp
    obtain ⟨order,horder,hleast,-⟩ := h.layer c hc
    exact hleast.onRows hrows (horder.perm.mem_iff.2 (mem_filter.2 ⟨hid,hhas⟩))

end Ordered

theorem eq_of_nearestColumn {left : ℚ} {a b : ℤ}
    (h : Coordinate.nearestColumn (800 * (a : ℚ) - left)=Coordinate.nearestColumn (800 * (b : ℚ) - left)) : a=b := by
  have hround : ∀ c : ℤ, Coordinate.nearestColumn (800 * (c : ℚ) - left)=round (-left / 800)+c := by
    intro c
    have hsplit : (800 * (c : ℚ) - left) / 800=-left / 800+c := by ring
    show round ((800 * (c : ℚ) - left) / 800)=_
    rw [hsplit,round_add_intCast]
  rw [hround,hround] at h
  omega

theorem find_exchange {p q : Position ℚ} (hu : t.find u=some p) (hv : t.find v=some q) (hx : p.x=q.x) (id : String) :
    (exchange t u v).find id=t.find (Equiv.swap u v id) := by
  have hheights : heightIn t u=p.y ∧ heightIn t v=q.y := by simp [heightIn,hu,hv]
  rw [exchange,hheights.1,hheights.2,find_setHeight,find_setHeight,find_setHeight]
  by_cases hidv : id=v
  · rw [if_pos hidv,hidv,Equiv.swap_apply_right,hu]
    split_ifs
    · rfl
    · rw [hv]
      simp [← hx]
  · rw [if_neg hidv]
    by_cases hidu : id=u
    · rw [if_pos hidu,hidu,Equiv.swap_apply_left,hu,hv]
      simp [hx]
    · rw [if_neg hidu,Equiv.swap_apply_of_ne_of_ne hidu hidv]

theorem Swapped.perm {clusters : List (List String)} {s t : Settled ℚ} (h : Swapped clusters s t)
    (hgrid : ∀ id p, s.positions.find id=some p→∃ c : ℤ, p.x=800 * c) :
    ∃ σ : Equiv.Perm String, ∀ id, t.positions.find id=s.positions.find (σ id) := by
  induction h with
  | refl => exact ⟨Equiv.refl _,fun _ => rfl⟩
  | @exchange t cluster c u v h _ hu hv _ ih =>
    obtain ⟨σ,hσ⟩ := ih
    obtain ⟨p,hp,hpc⟩ := Option.map_eq_some_iff.1 (mem_columnIn.1 hu).2
    obtain ⟨q,hq,hqc⟩ := Option.map_eq_some_iff.1 (mem_columnIn.1 hv).2
    obtain ⟨a,ha⟩ := hgrid _ p ((hσ u).symm.trans hp)
    obtain ⟨b,hb⟩ := hgrid _ q ((hσ v).symm.trans hq)
    have hab : a=b := by
      rw [ha] at hpc
      rw [hb] at hqc
      exact eq_of_nearestColumn (hpc.trans hqc.symm)
    refine ⟨(Equiv.swap u v).trans σ,fun id => ?_⟩
    rw [find_exchange hp hq (by rw [ha,hb,hab]),hσ]
    rfl

theorem nodup_nodes_layersOf {nodes : List Json} {w : Wires} (hw : w.Of nodes) :
    ((layersOf w).numbers.flatMap (layersOf w).column).Nodup := by
  refine nodup_flatMap.2 ⟨fun c _ => nodup_column_layersOf hw c,(nodup_numbers_layersOf w).imp fun {c d} hne id hc hd => hne ?_⟩
  rw [mem_column_layersOf hw] at hc hd
  exact Option.some.inj (hc.symm.trans hd)

/-- The places are those of the layers in order, permuted and moved to the middle. -/
theorem find_placesOf {nodes : List Json} {w : Wires} (hw : w.Of nodes) : ∃ (t : Table (Position ℚ)) (mid : ℚ)
    (σ : Equiv.Perm String), Ordered (lateLayers w).find (firstRows (layersOf w) w.after) t ∧
      (∀ id, (placesOf w).find id=(t.find (σ id)).map fun p => ⟨p.x,p.y - mid⟩) ∧
      ((heights t).Nonempty→∃ least greatest, IsLeast (heights t) least ∧ IsGreatest (heights t) greatest ∧
        mid=(least+greatest) / 2) := by
  have hordered := separated_ordered (mem_column_layersOf hw) (nodup_nodes_layersOf hw) (onRows_firstRows (layersOf w) w.after)
  obtain ⟨mid,hcentre,hmid⟩ := find_centre _ hordered.keys
  have hgrid : ∀ id (p : Position ℚ), (settledPlaces w).find id=some p→∃ c : ℤ, p.x=800 * c := by
    intro id p hp
    obtain ⟨q,hq,rfl⟩ := Option.map_eq_some_iff.1 ((hcentre id).symm.trans hp)
    obtain ⟨-,c,-,hc⟩ := hordered.placed hq
    exact ⟨c,hc⟩
  obtain ⟨clusters,noted,hswapped⟩ := placesOf_swapped (α := ℚ) w
  obtain ⟨σ,hσ⟩ := hswapped.perm hgrid
  exact ⟨_,mid,σ,hordered,fun id => (hσ id).trans (hcentre _),hmid⟩

/-- Different nodes of one column are at least the distance of rows apart, nodes of different columns the distance of
columns. The least and the greatest height are opposite numbers, and all heights are multiples of half a row. -/
theorem placesOf_apart {nodes : List Json} (hnodes : ∀ node ∈ nodes, IsNode node) :
    ∃ w, Wires.ofNodes nodes = .ok w ∧
      (∀ u v (p q : Position ℚ), u ≠ v → (placesOf w).find u = some p → (placesOf w).find v = some q →
        (p.x = q.x → 600 ≤ |p.y - q.y|) ∧ (p.x ≠ q.x → 800 ≤ |p.x - q.x|)) ∧
      ((heights (placesOf w)).Nonempty → ∃ m, IsGreatest (heights (placesOf w)) m ∧ IsLeast (heights (placesOf w)) (-m)) ∧
      ∀ id (p : Position ℚ), (placesOf w).find id = some p → ∃ a b : ℤ, p.x = 800 * a ∧ p.y = 300 * b := by
  obtain ⟨w,hok,hw⟩ := Wires.ofNodes_eq_ok hnodes
  obtain ⟨t,mid,σ,hordered,hfind,hmid⟩ := find_placesOf hw
  have hplace : ∀ {id p}, (placesOf w).find id = some p → ∃ q, t.find (σ id) = some q ∧ p = ⟨q.x,q.y - mid⟩ := by
    intro id p hp
    obtain ⟨q,hq,rfl⟩ := Option.map_eq_some_iff.1 ((hfind id).symm.trans hp)
    exact ⟨q,hq,rfl⟩
  have hheights : ∀ y, y ∈ heights (placesOf w) ↔ y + mid ∈ heights t := by
    intro y
    constructor
    · rintro ⟨id,p,hp,rfl⟩
      obtain ⟨q,hq,rfl⟩ := hplace hp
      exact ⟨σ id,q,hq,(sub_add_cancel _ _).symm⟩
    · rintro ⟨id,q,hq,hy⟩
      refine ⟨σ.symm id,⟨q.x,q.y - mid⟩,?_,by simp [hy]⟩
      rw [hfind,Equiv.apply_symm_apply,hq]
      rfl
  refine ⟨w,hok,fun u v p q hne hp hq => ?_,opposite_heights hheights hmid,fun id p hp => ?_⟩
  · obtain ⟨p,hσp,rfl⟩ := hplace hp
    obtain ⟨q,hσq,rfl⟩ := hplace hq
    refine ⟨fun hx => ?_,fun hx => ?_⟩
    · simpa using hordered.apart (σ.injective.ne hne) hσp hσq hx
    · obtain ⟨-,a,-,ha⟩ := hordered.placed hσp
      obtain ⟨-,b,-,hb⟩ := hordered.placed hσq
      have hab : 1 ≤ |a - b| := Int.one_le_abs (sub_ne_zero.2 fun hab => hx (by simp only [ha,hb,hab]))
      have habs : (1 : ℚ) ≤ |(a : ℚ) - b| := by exact_mod_cast hab
      rw [ha,hb,← mul_sub,abs_mul,abs_of_pos (by norm_num : (0 : ℚ) < 800)]
      linarith
  · obtain ⟨q,hq,rfl⟩ := hplace hp
    obtain ⟨-,a,-,ha⟩ := hordered.placed hq
    obtain ⟨least,greatest,⟨⟨u,pu,hu,hl⟩,-⟩,⟨⟨v,pv,hv,hg⟩,-⟩,hmid⟩ := hmid ⟨q.y,_,q,hq,rfl⟩
    obtain ⟨i,hi⟩ := hordered.rows hq
    obtain ⟨j,hj⟩ := hordered.rows hu
    obtain ⟨k,hk⟩ := hordered.rows hv
    refine ⟨a,2 * i - j - k,ha,?_⟩
    rw [hmid,← hl,← hg,hi,hj,hk]
    push_cast
    ring

theorem placesOf_apart_fork : (∀ node ∈ fork, IsNode node) ∧ ∃ w, Wires.ofNodes fork = .ok w ∧
    ∀ p q : Position ℚ, (placesOf w).find "a" = some p → (placesOf w).find "b" = some q →
      p.x = q.x → 600 ≤ |p.y - q.y| := by
  obtain ⟨w,hok,hpairs,-⟩ := placesOf_apart (isNode_records _)
  exact ⟨isNode_records _,w,hok,fun p q hp hq => (hpairs "a" "b" p q (by decide) hp hq).1⟩

end ChipForge.Layout
