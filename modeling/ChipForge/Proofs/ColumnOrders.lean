import ChipForge.Layout.Rows
import ChipForge.Proofs.LateLayers

/-! Sweeps reorder the columns and stand-ins are added to them, but no node leaves its column: in the end a node has a
row if it has a layer and is no stand-in. -/
namespace ChipForge.Layout
open List

namespace ByColumn

variable {α : Type}

theorem find_map {β : Type} (f : α→β) (t : ByColumn α) (c : Int) : (t.map f).find c=(t.find c).map f :=
  Table.find_map f t c

theorem mem_numbers (t : ByColumn α) (c : Int) : c∈t.numbers ↔ (t.find c).isSome := by
  rw [numbers,(mergeSort_perm _ _).mem_iff,Table.find_isSome_iff]
  rfl

end ByColumn

namespace Columns

variable {s t : Columns}

theorem mem_numbers_of_mem {c : Int} {id : String} (h : id∈t.column c) : c∈t.numbers := by
  rw [ByColumn.mem_numbers]
  unfold column at h
  cases hfind : t.find c with
  | none => rw [hfind] at h; cases h
  | some ids => rfl

theorem column_put (t : Columns) (c d : Int) (ids : List String) :
    Columns.column (t.put c ids) d=if d=c then ids else t.column d := by
  unfold column
  rw [Table.find_put]
  split_ifs <;> rfl

theorem column_add (t : Columns) (c d : Int) (id : String) :
    (t.add c id).column d=if d=c then t.column c++[id] else t.column d :=
  column_put t c d _

theorem column_map (f : List String→List String) (hf : f []=[]) (t : Columns) (c : Int) :
    Columns.column (t.map f) c=f (t.column c) := by
  unfold column
  rw [ByColumn.find_map]
  cases t.find c with
  | none => exact hf.symm
  | some ids => rfl

def SameNodes (s t : Columns) : Prop := ∀ c id, isStandIn id=false→(id∈t.column c ↔ id∈s.column c)

theorem SameNodes.refl (t : Columns) : SameNodes t t := fun _ _ _ => Iff.rfl

theorem SameNodes.trans {u : Columns} (h : SameNodes s t) (h' : SameNodes t u) : SameNodes s u :=
  fun c id hid => (h' c id hid).trans (h c id hid)

theorem SameNodes.of_perm (h : ∀ c, (t.column c).Perm (s.column c)) : SameNodes s t := fun c _ _ => (h c).mem_iff

theorem SameNodes.foldl {β σ : Type} {f : σ→β→σ} (columns : σ → Columns)
    (hf : ∀ a b, SameNodes (columns a) (columns (f a b))) (bs : List β) (a : σ) :
    SameNodes (columns a) (columns (bs.foldl f a)) := by
  induction bs generalizing a with
  | nil => exact .refl _
  | cons b rest ih => exact (hf a b).trans (ih (f a b))

end Columns

open Columns

section Layers
variable {nodes : List Json} {w : Wires}

theorem column_foldl_add (entries : List (String×Int)) (t : Columns) (c : Int) :
    (entries.foldl (fun cols (id,layer) => Columns.add cols layer id) t).column c =
      t.column c++(entries.filter (·.2 == c)).map (·.1) := by
  induction entries generalizing t with
  | nil => exact (append_nil _).symm
  | cons entry rest ih =>
    obtain ⟨id,layer⟩ := entry
    rw [foldl_cons,ih,column_add]
    by_cases h : c=layer
    · simp [h]
    · simp [h,Ne.symm h]

theorem nodup_numbers_layersOf (w : Wires) : (layersOf w).numbers.Nodup := by
  have hfold : ∀ (entries : List (String×Int)) (t : Columns), t.keys.Nodup →
      (Table.keys (entries.foldl (fun cols (id,layer) => Columns.add cols layer id) t)).Nodup := by
    intro entries
    induction entries with
    | nil => exact fun _ h => h
    | cons entry rest ih => exact fun t h => ih _ (Table.nodup_keys_put h _ _)
  exact (mergeSort_perm _ _).nodup_iff.2 (hfold _ _ nodup_nil)

theorem mem_column_layersOf (hw : w.Of nodes) (c : Int) (id : String) :
    id∈(layersOf w).column c ↔ (lateLayers w).find id=some c := by
  unfold layersOf
  rw [column_foldl_add]
  constructor
  · intro hid
    obtain ⟨entry,hentry,rfl⟩ := mem_map.1 ((mem_append.1 hid).resolve_left not_mem_nil)
    obtain ⟨hmem,hc⟩ := mem_filter.1 hentry
    rw [Table.find_of_mem (nodup_keys_lateLayers hw) hmem,beq_iff_eq.1 hc]
  · intro hfind
    exact mem_append_right _ (mem_map.2 ⟨(id,c),mem_filter.2 ⟨Table.mem_of_find hfind,by simp⟩,rfl⟩)

theorem nodup_column_layersOf (hw : w.Of nodes) (c : Int) : ((layersOf w).column c).Nodup := by
  unfold layersOf
  rw [column_foldl_add]
  exact (nodup_keys_lateLayers hw).sublist (filter_sublist.map _)

end Layers

theorem isStandIn_standIn (n : Nat) : isStandIn (standIn n)=true := by
  unfold isStandIn standIn Text.startsWith
  rw [String.toList_append, isPrefixOf_iff_prefix]
  exact prefix_append _ _

namespace Split

theorem sameNodes_lead (target : String) (step : Int) (between : Nat) (s : Split) (prev : String) (c : Int) :
    SameNodes s.columns (lead target step between s prev c).columns := by
  induction between generalizing s prev c with
  | zero => exact .refl _
  | succ between ih =>
    refine .trans ?_ (ih _ _ _)
    intro d id hid
    show id∈(s.columns.add (c+step) (standIn (s.count+1))).column d ↔ id∈s.columns.column d
    rw [column_add]
    split_ifs with hd
    · have hne : id≠standIn (s.count+1) := by
        rintro rfl
        rw [isStandIn_standIn] at hid
        cases hid
      simp [hd,hne]
    · rfl

theorem sameNodes_addWire (source : String) (s : Split) (target : String) :
    SameNodes s.columns (addWire source s target).columns := by
  unfold addWire
  split
  · split
    · exact .refl _
    · exact sameNodes_lead _ _ _ _ _ _
  · exact .refl _

theorem sameNodes_ofWires (columns : Columns) (columnOf : Table Int) (after : Table (List String)) :
    SameNodes columns (ofWires columns columnOf after).columns :=
  SameNodes.foldl Split.columns (fun s entry =>
    SameNodes.foldl Split.columns (fun s target => sameNodes_addWire entry.1 s target) entry.2 s) after.toList _

end Split

theorem sortByKey_perm {κ : Type} (lt : κ→κ→Bool) (keyed : List (κ×Int×String)) :
    (sortByKey lt keyed).Perm (keyed.map (·.2.2)) :=
  (mergeSort_perm _ _).map _

theorem sameNodes_sweepColumn (near : Table (List String)) (side : Int) (s : Sweep) (c : Int) :
    SameNodes s.columns (sweepColumn near side s c).columns := by
  simp only [sweepColumn]
  split_ifs
  · exact .refl _
  · refine .of_perm fun d => ?_
    simp only [Sweep.reorder,column_put]
    split_ifs with hd
    · rw [hd]
      refine (sortByKey_perm _ _).trans ?_
      simp [map_map,Function.comp_def]
    · exact .refl _

theorem sameNodes_sweeps (before after : Table (List String)) (passes : Nat) (columns : Columns) :
    SameNodes columns (sweeps before after passes columns) := by
  induction passes generalizing columns with
  | zero => exact .refl _
  | succ passes ih =>
    refine .trans ?_ (ih _)
    exact (SameNodes.foldl Sweep.columns (sameNodes_sweepColumn before (-1)) _ (Sweep.ofColumns columns)).trans
      (SameNodes.foldl Sweep.columns (sameNodes_sweepColumn after 1) _ (Sweep.ofColumns _))

variable {α : Type} [Coordinate α]

theorem has_stack (i : Int) (ys : Table α) (ids : List String) (id : String) :
    (stack i ys ids).has id ↔ ys.has id ∨ id∈ids := by
  induction ids generalizing i ys with
  | nil => simp [stack]
  | cons first rest ih =>
    rw [stack,ih,Table.has_eq_isSome,Table.has_eq_isSome,Table.find_put,mem_cons]
    by_cases h : id=first <;> simp [h]

/-- The nodes of layers get first rows, but for stand-ins. -/
theorem has_firstRows (layers : Columns) (after : Table (List String)) (id : String) :
    (firstRows layers after : Table α).has id ↔ isStandIn id=false ∧ ∃ c, id∈layers.column c := by
  have hfold : ∀ (swept : Columns) (cs : List Int) (ys : Table α),
      (cs.foldl (fun ys c => stack 0 ys ((swept.column c).filter fun id => !isStandIn id)) ys).has id ↔
        ys.has id ∨ ∃ c∈cs, id∈swept.column c ∧ isStandIn id=false := by
    intro swept cs
    induction cs with
    | nil => simp
    | cons c rest ih =>
      intro ys
      rw [foldl_cons,ih,has_stack,mem_filter,exists_mem_cons_iff]
      simp [or_assoc]
  have hsame : isStandIn id=false→∀ c, id∈(sweeps (Split.ofWires (columnsOf layers).1 (columnsOf layers).2 after).before
      (Split.ofWires (columnsOf layers).1 (columnsOf layers).2 after).after 4
      (Split.ofWires (columnsOf layers).1 (columnsOf layers).2 after).columns).column c ↔ id∈layers.column c := by
    intro hid c
    rw [sameNodes_sweeps _ _ _ _ c id hid,Split.sameNodes_ofWires _ _ _ c id hid]
    unfold columnsOf
    rw [column_map _ (mergeSort_nil) layers c]
    exact (mergeSort_perm _ _).mem_iff
  unfold firstRows
  rw [hfold]
  constructor
  · rintro (hnone | ⟨c,-,hmem,hid⟩)
    · cases hnone
    · exact ⟨hid,c,(hsame hid c).1 hmem⟩
  · rintro ⟨hid,c,hmem⟩
    have hmem := (hsame hid c).2 hmem
    exact .inr ⟨c,mem_numbers_of_mem hmem,hmem,hid⟩

end ChipForge.Layout
