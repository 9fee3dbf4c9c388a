import ChipForge.Proofs.ColumnSwaps
import ChipForge.Proofs.EditRuns
import Mathlib.Data.Fintype.Order
import Mathlib.Order.RelClasses

/-! A node is placed in the column of its layer, and swaps only exchange the heights of two nodes of one column. So
layout places exactly the nodes from which an end is reached. -/
namespace ChipForge.Layout
open List

variable {α : Type} [Coordinate α]

theorem has_pushApart {ys : Table α} {ids : List String} (h : ∀ id∈ids, ys.has id) (x : String) :
    (pushApart ys ids).has x=ys.has x := by
  fun_induction pushApart ys ids with
  | case1 ys a b rest least ih =>
    have hb : ys.has b := h b (by simp)
    have hput : ∀ x, (if Coordinate.lt (rowOf ys b) least then ys.put b least else ys).has x=ys.has x := by
      intro x
      split_ifs
      · rw [Table.has_eq_isSome,Table.find_put]
        split_ifs with hx
        · rw [hx,hb,Option.isSome_some]
        · rfl
      · rfl
    rw [ih fun id hid => (hput id).trans (h id (mem_cons_of_mem _ hid)),hput]
  | case2 => rfl

theorem mem_byRow (ys : Table α) (ids : List String) (id : String) : id∈byRow ys ids ↔ id∈ids ∧ ys.has id :=
  (mergeSort_perm _ _).mem_iff.trans mem_filter

theorem has_placeLayer (layers : Columns) (s : Table α×Table (Position α)) (c : Int) (x : String) :
    (placeLayer layers s c).1.has x=s.1.has x :=
  has_pushApart (fun _ hid => ((mem_byRow _ _ _).1 hid).2) x

theorem find_placeLayer (layers : Columns) (s : Table α×Table (Position α)) (c : Int) (x : String) :
    (placeLayer layers s c).2.find x =
      if x∈byRow s.1 (layers.column c) then some ⟨Coordinate.columns c,rowOf (placeLayer layers s c).1 x⟩
      else s.2.find x :=
  Table.find_foldl_put _ _ _ _

theorem separated_x {layers : Columns} {layerOf : String→Option Int}
    (hlayers : ∀ c id, id∈layers.column c ↔ layerOf id=some c) (ys : Table α) (id : String) :
    ((separated layers ys).find id).map (·.x)=if ys.has id then (layerOf id).map Coordinate.columns else none := by
  have hfold : ∀ (cs : List Int) (s : Table α×Table (Position α)), s.1.has id=ys.has id →
      ((cs.foldl (placeLayer layers) s).2.find id).map (·.x) =
        if ys.has id ∧ ∃ c∈cs, layerOf id=some c then (layerOf id).map Coordinate.columns
        else (s.2.find id).map (·.x) := by
    intro cs
    induction cs with
    | nil => simp
    | cons c rest ih =>
      intro s hs
      rw [foldl_cons,ih _ ((has_placeLayer layers s c id).trans hs),find_placeLayer]
      simp only [mem_byRow,hlayers,hs,exists_mem_cons_iff]
      by_cases hrest : ys.has id ∧ ∃ c∈rest, layerOf id=some c
      · simp [hrest]
      · by_cases hc : layerOf id=some c
        · by_cases hhas : ys.has id=true <;> simp [hc,hhas]
        · simp [hc]
  unfold separated
  rw [hfold _ _ rfl]
  cases hlayer : layerOf id with
  | none => simp
  | some c =>
    have hc : c∈layers.numbers := Columns.mem_numbers_of_mem ((hlayers c id).2 hlayer)
    simp [hc]

theorem centre_x (t : Table (Position α)) (id : String) : ((centre t).find id).map (·.x)=(t.find id).map (·.x) := by
  unfold centre
  split
  · rfl
  · rename_i y rest _
    have hfind := Table.find_map
      (fun p : Position α => { p with y := Coordinate.sub p.y (Coordinate.middle (leastOf y rest) (greatestOf y rest)) })
      t.toList id
    rw [show Table.find (t.toList.map _) id=_ from hfind,Option.map_map]
    rfl

/-- Layout ends with exchanges of heights. -/
theorem placesOf_swapped (w : Wires) :
    ∃ clusters noted, Swapped clusters ⟨(settledPlaces w : Table (Position α)),[]⟩ ⟨placesOf w,noted⟩ :=
  ⟨_,_,shuffle_swapped _ _ _⟩

variable {nodes : List Json} {w : Wires}

/-- A node is placed in the column of its layer, unless it counts as a stand-in. -/
theorem placesOf_x (hw : w.Of nodes) (id : String) : ((placesOf w : Table (Position α)).find id).map (·.x) =
    if isStandIn id then none else ((lateLayers w).find id).map Coordinate.columns := by
  obtain ⟨clusters,noted,hswapped⟩ := placesOf_swapped (α := α) w
  rw [show ((placesOf w).find id).map (·.x)=_ from hswapped.x id,settledPlaces,resolve,centre_x,
    separated_x (mem_column_layersOf hw)]
  have hhas : (firstRows (layersOf w) w.after : Table α).has id ↔
      isStandIn id=false ∧ ∃ c, (lateLayers w).find id=some c := by
    rw [has_firstRows]
    simp only [mem_column_layersOf hw]
  cases hid : isStandIn id with
  | true => simp [hid] at hhas; simp [hhas]
  | false =>
    cases hlayer : (lateLayers w).find id with
    | none => simp
    | some c => simp [hhas.2 ⟨hid,c,hlayer⟩]

/-- No row of wires comes back to where it started. -/
def Acyclic (nodes : List Json) : Prop := ∀ id, ¬ Relation.TransGen (Feeds nodes) id id

/-- Without cycles every node reaches an end. -/
theorem Acyclic.reachesEnd (h : Acyclic nodes) (hw : w.Of nodes) {id : String} (hid : (recordOf nodes id).isSome) :
    ReachesEnd nodes id := by
  let After : {id // id∈w.ids}→{id // id∈w.ids}→Prop := fun a b => Relation.TransGen (Feeds nodes) b.1 a.1
  have : IsTrans _ After := ⟨fun _ _ _ hab hbc => hbc.trans hab⟩
  have : Std.Irrefl After := ⟨fun a => h a.1⟩
  have hwf : WellFounded After := Finite.wellFounded_of_trans_of_irrefl After
  suffices hall : ∀ a : {id // id∈w.ids}, ReachesEnd nodes a.1 from hall ⟨id,(hw.ids id).2 hid⟩
  intro a
  induction a using hwf.induction with
  | _ a ih =>
    by_cases hend : ∃ v, Feeds nodes a.1 v
    · obtain ⟨v,hv⟩ := hend
      have hvid : v∈w.ids := by
        obtain ⟨-,node,hnode,-⟩ := hv
        rw [hw.ids,hnode]
        rfl
      obtain ⟨last,hlast,hno,hreach⟩ := ih ⟨v,hvid⟩ (.single hv)
      exact ⟨last,hlast,hno,.head hv hreach⟩
    · exact ⟨a.1,(hw.ids _).1 a.2,fun v hv => hend ⟨v,hv⟩,.refl⟩

theorem result_arrange (hw : Wires.ofNodes nodes=.ok w) (s : Save.Desk) :
    ∃ t, Save.result (arrange nodes) s=(.ok (placesOf w),t) := by
  unfold arrange
  simp only [hw]
  exact ⟨_,rfl⟩

/-- Layout places exactly the nodes from which a node without successors is reached: all of them if there are no cycles,
and none from which every way leads into a cycle. -/
theorem arrange_places {nodes : List Json} (hnodes : ∀ node ∈ nodes, IsNode node)
    (hids : ∀ node ∈ nodes, ∀ id, idOf? node = some id → isStandIn id = false) (s : Save.Desk) :
    ∃ places t, Save.result (arrange nodes) s = (.ok places, t) ∧
      (∀ id, places.has id ↔ ReachesEnd nodes id) ∧
      (Acyclic nodes → ∀ node ∈ nodes, ∀ id, idOf? node = some id → places.has id) ∧
      ∀ id, (∀ v, Relation.ReflTransGen (Feeds nodes) id v →
        ∃ c, Relation.ReflTransGen (Feeds nodes) v c ∧ Relation.TransGen (Feeds nodes) c c) → ¬ places.has id := by
  obtain ⟨w,hok,hw⟩ := Wires.ofNodes_eq_ok hnodes
  obtain ⟨t,hrun⟩ := result_arrange hok s
  have hplaced : ∀ id, (placesOf w : Table (Position Number)).has id ↔ ReachesEnd nodes id := by
    intro id
    have hx := placesOf_x (α := Number) hw id
    have hsome := congrArg Option.isSome hx
    rw [Option.isSome_map,← Table.has_eq_isSome] at hsome
    rw [hsome,← mem_keys_lateLayers hw,← Table.find_isSome_iff]
    cases hlayer : (lateLayers w).find id with
    | none => simp
    | some c =>
      have hrecord : (recordOf nodes id).isSome := by
        have hreach : ReachesEnd nodes id := by
          rw [← mem_keys_lateLayers hw,← Table.find_isSome_iff,hlayer]
          rfl
        exact hreach.isSome
      obtain ⟨node,hnode⟩ := Option.isSome_iff_exists.1 hrecord
      obtain ⟨hmem,hid⟩ := mem_of_recordOf hnode
      simp [hids node hmem id hid]
  refine ⟨_,t,hrun,hplaced,fun hacyclic node hnode id hid => ?_,fun id hcycles hid => ?_⟩
  · rw [hplaced]
    exact hacyclic.reachesEnd hw (isSome_recordOf hnode hid)
  · obtain ⟨last,-,hend,hreach⟩ := (hplaced id).1 hid
    obtain ⟨c,hlast,hcycle⟩ := hcycles last hreach
    rcases hlast.cases_head with rfl | ⟨v,hv,-⟩
    · obtain ⟨v,hv,-⟩ := Relation.TransGen.head'_iff.1 hcycle
      exact hend v hv
    · exact hend v hv

theorem arrange_places_fork : (∀ node ∈ fork, IsNode node) ∧
    (∀ node ∈ fork, ∀ id, idOf? node = some id → isStandIn id = false) ∧
    ∃ places t, Save.result (arrange fork) ⟨.null, fun _ => "", 0, []⟩ = (.ok places, t) ∧
      ∀ id, places.has id ↔ ReachesEnd fork id := by
  have hids : ∀ node ∈ fork, ∀ id, idOf? node = some id → isStandIn id = false := by
    intro node hnode id hid
    simp only [fork,records,List.map,mem_cons,not_mem_nil,or_false] at hnode
    rcases hnode with rfl | rfl | rfl
    all_goals
      cases hid
      decide
  obtain ⟨places,t,hrun,hplaces,-⟩ := arrange_places (isNode_records _) hids ⟨.null,fun _ => "",0,[]⟩
  exact ⟨isNode_records _,hids,places,t,hrun,hplaces⟩

end ChipForge.Layout
