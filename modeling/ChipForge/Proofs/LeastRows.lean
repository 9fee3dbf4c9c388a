import ChipForge.Proofs.PlacedNodes
import Mathlib.Algebra.Order.Round
import Mathlib.Data.Rat.Floor
import Mathlib.Tactic.Linarith

/-! Measured in rational numbers, nodes of a layer are pushed apart no further than they must be: in the order of their rows, the
places they get are the least that are not above their rows and keep the distance. -/
namespace ChipForge.Layout
open List

variable {ids order : List String} {u v : String} {ys ys' : Table ℚ} {f g : String→ℚ} {layers : Columns}

/-- The distances of layout in exact arithmetic. Differences of columns are whole, so it does not matter how halves are
rounded. -/
instance : Coordinate ℚ where
  lt a b := decide (a < b)
  add a b := a+b
  sub a b := a - b
  middle a b := (a+b) / 2
  rows n := 600 * n
  columns n := 800 * n
  nearestColumn d := round (d / 800)

theorem lt_iff (a b : ℚ) : Coordinate.lt a b ↔ a < b := decide_eq_true_iff

def heights (t : Table (Position ℚ)) : Set ℚ := {y | ∃ id p, t.find id=some p ∧ p.y=y}

theorem rowOf_put (ys : Table ℚ) (key : String) (y : ℚ) (id : String) :
    rowOf (ys.put key y) id=if id=key then y else rowOf ys id := by
  unfold rowOf
  rw [Table.find_put]
  split_ifs <;> rfl

/-- Places of a row of nodes that are not above their rows and keep the distance from each to the next. -/
structure Spaced (ys : Table ℚ) (order : List String) (f : String→ℚ) : Prop where
  rows : ∀ id∈order, rowOf ys id ≤ f id
  apart : order.IsChain fun a b => f a+600 ≤ f b

/-- The least places of that kind. -/
structure LeastSpaced (ys : Table ℚ) (order : List String) (f : String→ℚ) : Prop extends Spaced ys order f where
  least : ∀ g, Spaced ys order g→∀ id∈order, f id ≤ g id

/-- The nodes that have rows in the order of these, and as before where the rows are equal. -/
structure ByRow (ys : Table ℚ) (ids order : List String) : Prop where
  perm : order.Perm (ids.filter ys.has)
  sorted : order.Pairwise fun a b => rowOf ys a ≤ rowOf ys b
  ties : ∀ y, order.filter (rowOf ys ·=y)=(ids.filter ys.has).filter (rowOf ys ·=y)

theorem byRow_byRow (ys : Table ℚ) (ids : List String) : ByRow ys ids (byRow ys ids) := by
  have heq : byRow ys ids=(ids.filter ys.has).mergeSort fun a b => decide (rowOf ys a ≤ rowOf ys b) := by
    unfold byRow
    congr 1
    funext a b
    rw [← Bool.not_not (decide _),← decide_not]
    simp only [not_le]
    rfl
  have htrans : ∀ a b c : String, decide (rowOf ys a ≤ rowOf ys b)=true → decide (rowOf ys b ≤ rowOf ys c)=true →
      decide (rowOf ys a ≤ rowOf ys c)=true := by
    simpa using fun a b c => le_trans
  have htotal : ∀ a b : String, (decide (rowOf ys a ≤ rowOf ys b) || decide (rowOf ys b ≤ rowOf ys a))=true := by
    simpa using fun a b => le_total _ _
  rw [heq]
  refine ⟨mergeSort_perm _ _,by simpa using pairwise_mergeSort htrans htotal (ids.filter ys.has),fun y => ?_⟩
  -- Nodes with equal rows are sorted as they stand, so they are met in the same order after sorting.
  have hties : ((ids.filter ys.has).filter (rowOf ys ·=y)).Pairwise fun a b => decide (rowOf ys a ≤ rowOf ys b) := by
    refine pairwise_of_forall_mem_list fun a ha b hb => ?_
    rw [of_decide_eq_true (mem_filter.1 ha).2,of_decide_eq_true (mem_filter.1 hb).2]
    exact decide_eq_true le_rfl
  have hsub := (sublist_mergeSort htrans htotal hties filter_sublist).filter (rowOf ys ·=y)
  rw [filter_filter] at hsub
  simp only [Bool.and_self] at hsub
  exact (hsub.eq_of_length ((mergeSort_perm _ _).filter _).length_eq.symm).symm

theorem rowOf_lowered (ys : Table ℚ) (b : String) (least : ℚ) (x : String) :
    rowOf (if Coordinate.lt (rowOf ys b) least then ys.put b least else ys) x =
      if x=b then max (rowOf ys b) least else rowOf ys x := by
  simp only [lt_iff]
  split_ifs with hlt hx hx
  · rw [rowOf_put,if_pos hx,max_eq_right hlt.le]
  · rw [rowOf_put,if_neg hx]
  · rw [hx,max_eq_left (not_lt.1 hlt)]
  · rfl

theorem rowOf_pushApart {x : String} (hx : x∉ids.tail) : rowOf (pushApart ys ids) x=rowOf ys x := by
  fun_induction pushApart ys ids with
  | case1 ys a b rest least ih =>
    obtain ⟨hxb,hxrest⟩ := not_or.1 (mt mem_cons.2 hx)
    rw [ih hxrest,rowOf_lowered,if_neg hxb]
  | case2 => rfl

theorem pushApart_least (h : ids.Nodup) (ys : Table ℚ) : LeastSpaced ys ids (rowOf (pushApart ys ids)) := by
  fun_induction pushApart ys ids with
  | case1 ys a b rest least ih =>
    obtain ⟨ha,hrest⟩ := nodup_cons.1 h
    obtain ⟨⟨hrows,hapart⟩,hleast⟩ := ih hrest
    have hpush : least=rowOf ys a+600 := by simp [least,Coordinate.add,Coordinate.rows]
    have hab : a≠b := fun hab => ha (hab ▸ mem_cons_self)
    have hfirst : rowOf (pushApart (if Coordinate.lt (rowOf ys b) least then ys.put b least else ys) (b::rest)) a =
        rowOf ys a := by
      rw [rowOf_pushApart fun hmem => ha (mem_cons_of_mem _ hmem),rowOf_lowered,if_neg hab]
    have hlowered : ∀ x∈b::rest, rowOf ys x ≤ rowOf (if Coordinate.lt (rowOf ys b) least then ys.put b least else ys) x := by
      intro x _
      rw [rowOf_lowered]
      split_ifs with hx
      · exact hx ▸ le_max_left _ _
      · exact le_rfl
    refine ⟨⟨forall_mem_cons.2 ⟨hfirst.ge,fun x hx => (hlowered x hx).trans (hrows x hx)⟩,isChain_cons_cons.2 ⟨?_,hapart⟩⟩,
      fun g hg => forall_mem_cons.2 ⟨hfirst.trans_le (hg.rows a mem_cons_self),hleast g ⟨fun x hx => ?_,?_⟩⟩⟩
    · have hb := hrows b mem_cons_self
      rw [rowOf_lowered,if_pos rfl] at hb
      rw [hfirst,← hpush]
      exact (le_max_right _ _).trans hb
    · have hx' := hg.rows x (mem_cons_of_mem _ hx)
      rw [rowOf_lowered]
      split_ifs with hxb
      · have hfar := (isChain_cons_cons.1 hg.apart).1
        have hrow := hg.rows a mem_cons_self
        rw [hxb] at hx' ⊢
        exact max_le hx' (by linarith)
      · exact hx'
    · exact (isChain_cons_cons.1 hg.apart).2
  | case2 ids ys hshort =>
    refine ⟨⟨fun _ _ => le_rfl,?_⟩,fun g hg => hg.rows⟩
    rcases ids with - | ⟨a,- | ⟨b,rest⟩⟩
    · exact .nil
    · exact .singleton a
    · exact absurd rfl (hshort a b rest)

theorem Spaced.far (h : Spaced ys order f) (hu : u∈order) (hv : v∈order) (hne : u≠v) : 600≤|f u - f v| := by
  have htrans : IsTrans String fun a b => f a+600 ≤ f b := ⟨fun a b c hab hbc => by linarith⟩
  have hsymm : Std.Symm fun a b => 600≤|f a - f b| := ⟨fun a b hab => by rwa [abs_sub_comm]⟩
  have hpairs := h.apart.pairwise.imp fun {a b} hab => show 600≤|f a - f b| by
    rw [abs_sub_comm]
    exact le_trans (by linarith) (le_abs_self _)
  exact hpairs.forall hu hv hne

theorem ByRow.congr (h : ByRow ys ids order) (hhas : ∀ id, ys.has id=ys'.has id) (hrows : ∀ id∈ids, rowOf ys id=rowOf ys' id) :
    ByRow ys' ids order := by
  have hfilter : ids.filter ys.has=ids.filter ys'.has := filter_congr fun id _ => hhas id
  have hmem : ∀ id∈ids.filter ys.has, rowOf ys id=rowOf ys' id := fun id hid => hrows id (mem_filter.1 hid).1
  have horder : ∀ id∈order, rowOf ys id=rowOf ys' id := fun id hid => hmem id (h.perm.mem_iff.1 hid)
  refine ⟨hfilter ▸ h.perm,h.sorted.imp_of_mem fun ha hb hab => horder _ ha ▸ horder _ hb ▸ hab,fun y => ?_⟩
  have hsame : order.filter (rowOf ys' ·=y)=order.filter (rowOf ys ·=y) :=
    filter_congr fun id hid => by rw [horder id hid]
  rw [hsame,h.ties,← hfilter]
  exact filter_congr fun id hid => by rw [hmem id hid]

theorem Spaced.congr (h : Spaced ys order f) (hrows : ∀ id∈order, rowOf ys' id ≤ rowOf ys id)
    (hf : ∀ id∈order, f id=g id) : Spaced ys' order g :=
  ⟨fun id hid => hf id hid ▸ (hrows id hid).trans (h.rows id hid),
    h.apart.imp_of_mem_imp fun a b ha hb hab => hf a ha ▸ hf b hb ▸ hab⟩

theorem LeastSpaced.congr (h : LeastSpaced ys order f) (hrows : ∀ id∈order, rowOf ys id=rowOf ys' id)
    (hf : ∀ id∈order, f id=g id) : LeastSpaced ys' order g :=
  ⟨h.toSpaced.congr (fun id hid => (hrows id hid).ge) hf,fun g' hg' id hid =>
    hf id hid ▸ h.least g' (hg'.congr (fun id hid => (hrows id hid).le) fun _ _ => rfl) id hid⟩

theorem nodup_keys_foldl_put {α : Type} {t : Table α} (h : t.keys.Nodup) (f : String→α) (ids : List String) :
    (ids.foldl (fun t id => t.put id (f id)) t).keys.Nodup := by
  induction ids generalizing t with
  | nil => exact h
  | cons id rest ih => exact ih (Table.nodup_keys_put h id (f id))

/-- What has been placed when some layers are done. -/
structure Placing (layers : Columns) (ys : Table ℚ) (done : List Int) (s : Table ℚ×Table (Position ℚ)) : Prop where
  has : ∀ id, s.1.has id=ys.has id
  rows : ∀ id, (∀ c∈done, id∉layers.column c) → rowOf s.1 id=rowOf ys id
  keys : s.2.keys.Nodup
  layer : ∀ c∈done, ∃ order, ByRow ys (layers.column c) order ∧ LeastSpaced ys order (rowOf s.1) ∧
    ∀ id∈order, s.2.find id=some ⟨800 * c,rowOf s.1 id⟩
  found : ∀ id, (s.2.find id).isSome→∃ c∈done, id∈layers.column c ∧ ys.has id

theorem Placing.find_of_mem {done : List Int} {s : Table ℚ×Table (Position ℚ)} (h : Placing layers ys done s) {c : Int}
    (hc : c∈done) {id : String} (hid : id∈layers.column c) (hhas : ys.has id) :
    s.2.find id=some ⟨800 * c,rowOf s.1 id⟩ := by
  obtain ⟨order,horder,-,hfind⟩ := h.layer c hc
  exact hfind id (horder.perm.mem_iff.2 (mem_filter.2 ⟨hid,hhas⟩))

theorem Placing.placeLayer {done : List Int} {s : Table ℚ×Table (Position ℚ)} {c : Int} (h : Placing layers ys done s)
    (hnodup : (layers.column c).Nodup) (hapart : ∀ d∈done, (layers.column d).Disjoint (layers.column c)) :
    Placing layers ys (done++[c]) (placeLayer layers s c) := by
  have hids : (byRow s.1 (layers.column c)).Nodup := (byRow_byRow _ _).perm.nodup_iff.2 (hnodup.filter _)
  have hmem : ∀ {id}, id∈byRow s.1 (layers.column c) ↔ id∈layers.column c ∧ ys.has id := by
    intro id
    rw [mem_byRow,h.has]
  have hrow : ∀ id∈layers.column c, rowOf s.1 id=rowOf ys id := fun id hid =>
    h.rows id fun d hd hid' => hapart d hd hid' hid
  have hframe : ∀ id∉layers.column c, rowOf (Layout.placeLayer layers s c).1 id=rowOf s.1 id := fun id hid =>
    rowOf_pushApart fun htail => hid (hmem.1 (mem_of_mem_tail htail)).1
  refine ⟨fun id => (has_placeLayer layers s c id).trans (h.has id),fun id hid => ?_,nodup_keys_foldl_put h.keys _ _,
    forall_mem_append.2 ⟨fun d hd => ?_,forall_mem_singleton.2 ?_⟩,fun id hid => ?_⟩
  · obtain ⟨hdone,hc⟩ := forall_mem_append.1 hid
    rw [hframe id (hc c (mem_singleton.2 rfl)),h.rows id hdone]
  · obtain ⟨order,horder,hleast,hfind⟩ := h.layer d hd
    have hout : ∀ id∈order, id∉layers.column c := fun id hid =>
      hapart d hd (mem_filter.1 (horder.perm.mem_iff.1 hid)).1
    refine ⟨order,horder,hleast.congr (fun _ _ => rfl) fun id hid => (hframe id (hout id hid)).symm,fun id hid => ?_⟩
    rw [find_placeLayer,if_neg fun hid' => hout id hid (hmem.1 hid').1,hframe id (hout id hid),hfind id hid]
  · refine ⟨_,(byRow_byRow s.1 _).congr h.has hrow,(pushApart_least hids s.1).congr (fun id hid => hrow id (hmem.1 hid).1)
      fun _ _ => rfl,fun id hid => ?_⟩
    rw [find_placeLayer,if_pos hid]
    rfl
  · rw [find_placeLayer] at hid
    split_ifs at hid with hnew
    · exact ⟨c,mem_append_right _ (mem_singleton.2 rfl),hmem.1 hnew⟩
    · obtain ⟨d,hd,hrest⟩ := h.found id hid
      exact ⟨d,mem_append_left _ hd,hrest⟩

theorem separated_placing (hnodes : (layers.numbers.flatMap layers.column).Nodup) (ys : Table ℚ) :
    ∃ rows, Placing layers ys layers.numbers (rows,separated layers ys) := by
  have hrun : ∀ (cs done : List Int) (s : Table ℚ×Table (Position ℚ)), ((done++cs).flatMap layers.column).Nodup →
      Placing layers ys done s→Placing layers ys (done++cs) (cs.foldl (placeLayer layers) s) := by
    intro cs
    induction cs with
    | nil => exact fun done _ _ h => (append_nil done).symm ▸ h
    | cons c rest ih =>
      intro done s hcs h
      rw [append_cons] at hcs ⊢
      obtain ⟨-,hc,hdone⟩ := nodup_append'.1 (flatMap_append ▸ (nodup_append.1 (flatMap_append ▸ hcs)).1)
      rw [flatMap_singleton] at hc hdone
      exact ih _ _ hcs (h.placeLayer hc fun d hd id hid => hdone (mem_flatMap.2 ⟨d,hd,hid⟩))
  have hstart : Placing layers ys [] (ys,Table.empty) :=
    ⟨fun _ => rfl,fun _ _ => rfl,nodup_nil,(fun _ h => nomatch h),fun id h => by simp at h⟩
  exact ⟨_,hrun layers.numbers [] _ hnodes hstart⟩

theorem leastOf_isLeast (m : ℚ) (ys : List ℚ) : IsLeast {y | y∈m::ys} (leastOf m ys) := by
  induction ys generalizing m with
  | nil => exact ⟨mem_singleton.2 rfl,fun y hy => (mem_singleton.1 hy).ge⟩
  | cons y rest ih =>
    simp only [leastOf,lt_iff]
    split_ifs with hlt
    · obtain ⟨hmem,hle⟩ := ih y
      refine ⟨mem_cons_of_mem _ hmem,fun z hz => ?_⟩
      rcases mem_cons.1 hz with rfl | hz
      · exact (hle mem_cons_self).trans hlt.le
      · exact hle hz
    · obtain ⟨hmem,hle⟩ := ih m
      refine ⟨cons_subset_cons m (subset_cons_self y rest) hmem,fun z hz => ?_⟩
      rcases mem_cons.1 hz with rfl | hz
      · exact hle mem_cons_self
      rcases mem_cons.1 hz with rfl | hz
      · exact (hle mem_cons_self).trans (not_lt.1 hlt)
      · exact hle (mem_cons_of_mem _ hz)

theorem greatestOf_eq (m : ℚ) (ys : List ℚ) : greatestOf m ys=-leastOf (-m) (ys.map (- ·)) := by
  induction ys generalizing m with
  | nil => exact (neg_neg m).symm
  | cons y rest ih =>
    rw [greatestOf,ih,map_cons,leastOf]
    congr 2
    simp only [lt_iff,neg_lt_neg_iff]
    split_ifs <;> rfl

theorem greatestOf_isGreatest (m : ℚ) (ys : List ℚ) : IsGreatest {y | y∈m::ys} (greatestOf m ys) := by
  obtain ⟨hmem,hle⟩ := leastOf_isLeast (-m) (ys.map (- ·))
  rw [← map_cons (f := fun y : ℚ => -y)] at hmem hle
  rw [greatestOf_eq]
  refine ⟨?_,fun y hy => ?_⟩
  · obtain ⟨y,hy,heq⟩ := mem_map.1 hmem
    rw [← heq,neg_neg]
    exact hy
  · rw [le_neg]
    exact hle (mem_map_of_mem hy)

theorem find_centre (t : Table (Position ℚ)) (hkeys : t.keys.Nodup) : ∃ mid : ℚ,
    (∀ id, (centre t).find id=(t.find id).map fun p => ⟨p.x,p.y - mid⟩) ∧
      ((heights t).Nonempty→∃ least greatest, IsLeast (heights t) least ∧ IsGreatest (heights t) greatest ∧
        mid=(least+greatest) / 2) := by
  have hheights : ∀ y, y∈heights t ↔ y∈t.toList.map fun e => e.2.y := by
    intro y
    rw [mem_map]
    constructor
    · rintro ⟨id,p,hp,rfl⟩
      exact ⟨(id,p),Table.mem_of_find hp,rfl⟩
    · rintro ⟨e,he,rfl⟩
      exact ⟨e.1,e.2,Table.find_of_mem hkeys he,rfl⟩
  unfold centre
  split
  · rename_i hnone
    refine ⟨0,fun id => by cases t.find id <;> simp,fun ⟨y,hy⟩ => ?_⟩
    rw [hheights,hnone] at hy
    cases hy
  · rename_i y rest hys
    have hset : heights t={z | z∈y::rest} := Set.ext fun z => by rw [hheights,hys]; rfl
    have hfind := Table.find_map
      (fun p : Position ℚ => { p with y := p.y - (leastOf y rest+greatestOf y rest) / 2 }) t.toList
    refine ⟨_,hfind,fun _ => ⟨leastOf y rest,greatestOf y rest,?_,?_,rfl⟩⟩
    · rw [hset]
      exact leastOf_isLeast y rest
    · rw [hset]
      exact greatestOf_isGreatest y rest

theorem opposite_heights {t t' : Table (Position ℚ)} {mid : ℚ} (hheights : ∀ y, y∈heights t' ↔ y+mid∈heights t)
    (hmid : (heights t).Nonempty→∃ least greatest, IsLeast (heights t) least ∧ IsGreatest (heights t) greatest ∧
      mid=(least+greatest) / 2) (hsome : (heights t').Nonempty) :
    ∃ m, IsGreatest (heights t') m ∧ IsLeast (heights t') (-m) := by
  obtain ⟨y,hy⟩ := hsome
  obtain ⟨least,greatest,hleast,hgreatest,hmid⟩ := hmid ⟨_,(hheights y).1 hy⟩
  refine ⟨(greatest - least) / 2,⟨(hheights _).2 ?_,fun z hz => ?_⟩,(hheights _).2 ?_,fun z hz => ?_⟩
  · rw [show (greatest - least) / 2+mid=greatest by rw [hmid]; ring]
    exact hgreatest.1
  · have := hgreatest.2 ((hheights z).1 hz)
    linarith
  · rw [show -((greatest - least) / 2)+mid=least by rw [hmid]; ring]
    exact hleast.1
  · have := hleast.2 ((hheights z).1 hz)
    linarith

/-- The nodes of each layer get the least places in the order of their rows that are not above these and keep the distance. All
are then moved together so that the least and the greatest height are opposite numbers. -/
theorem resolve_least {layers : Columns} (hnodes : (layers.numbers.flatMap layers.column).Nodup) (ys : Table ℚ) :
    ∃ (f : String→ℚ) (mid : ℚ),
      (∀ c∈layers.numbers, ∃ order, ByRow ys (layers.column c) order ∧ LeastSpaced ys order f) ∧
      (∀ c, ∀ id∈layers.column c, ys.has id→(separated layers ys).find id=some ⟨800 * c,f id⟩) ∧
      (∀ id, ((resolve layers ys).find id).isSome ↔ ys.has id ∧ ∃ c, id∈layers.column c) ∧
      (∀ id, (resolve layers ys).find id=((separated layers ys).find id).map fun p => ⟨p.x,p.y - mid⟩) ∧
      ((heights (resolve layers ys)).Nonempty →
        ∃ m, IsGreatest (heights (resolve layers ys)) m ∧ IsLeast (heights (resolve layers ys)) (-m)) := by
  obtain ⟨rows,hplacing⟩ := separated_placing hnodes ys
  obtain ⟨mid,hfind,hmid⟩ := find_centre (separated layers ys) hplacing.keys
  have hseparated : ∀ c, ∀ id∈layers.column c, ys.has id→(separated layers ys).find id=some ⟨800 * c,rowOf rows id⟩ :=
    fun c id hid hhas => hplacing.find_of_mem (Columns.mem_numbers_of_mem hid) hid hhas
  refine ⟨rowOf rows,mid,fun c hc => ?_,hseparated,fun id => ?_,hfind,opposite_heights (fun y => ?_) hmid⟩
  · obtain ⟨order,horder,hleast,-⟩ := hplacing.layer c hc
    exact ⟨order,horder,hleast⟩
  · have hsome : ((resolve layers ys).find id).isSome=((separated layers ys).find id).isSome := by
      rw [resolve,hfind,Option.isSome_map]
    rw [hsome]
    constructor
    · intro hid
      obtain ⟨c,-,hmem,hhas⟩ := hplacing.found id hid
      exact ⟨hhas,c,hmem⟩
    · rintro ⟨hhas,c,hid⟩
      rw [hseparated c id hid hhas]
      rfl
  · constructor
    · rintro ⟨id,p,hp,rfl⟩
      obtain ⟨q,hq,rfl⟩ := Option.map_eq_some_iff.1 ((hfind id).symm.trans hp)
      exact ⟨id,q,hq,(sub_add_cancel _ _).symm⟩
    · rintro ⟨id,q,hq,hy⟩
      exact ⟨id,⟨q.x,q.y - mid⟩,by rw [resolve,hfind,hq]; rfl,by simp [hy]⟩

def pair : Columns := [(1,["a","b"]),(0,["c"])]

def closeRows : Table ℚ := [("a",0),("b",-1),("c",5)]

theorem resolve_least_pair : (pair.numbers.flatMap pair.column).Nodup ∧ ∀ id,
    ((resolve pair closeRows).find id).isSome ↔ closeRows.has id ∧ ∃ c, id∈pair.column c := by
  have hnodes : (pair.numbers.flatMap pair.column).Nodup :=
    ((mergeSort_perm _ _).flatMap_right _).nodup_iff.2 (by decide)
  obtain ⟨f,mid,-,-,hplaced,-⟩ := resolve_least hnodes closeRows
  exact ⟨hnodes,hplaced⟩

end ChipForge.Layout
