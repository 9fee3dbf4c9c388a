import ChipForge.Layout.Wires
import ChipForge.Proofs.Table

/-! What it means that a node of a chip feeds another is said on the records of the nodes alone. The wires that layout
reads off the records are exactly these, and they are read off every list of proper records. -/
namespace ChipForge.Layout
open Json (lookup)

variable {nodes : List Json} {node : Json} {id : String} {w : Wires} {r : String→String→Prop}

def idOf? (node : Json) : Option String := (node.get? "Id").bind Json.asStr?

def portsOf (node : Json) : List Json := ((node.get? "Inputs").bind Json.asArr?).getD []

def sourceId? (port : Json) : Option String :=
  ((port.get? "connectedOutputIdModel").bind (·.get? "NodeId")).bind Json.asStr?

/-- The record of a port: it is free, or says by a text from which node it is fed. -/
inductive IsPort : Json→Prop
  | free {fields} (h : lookup "connectedOutputIdModel" fields=none) : IsPort (.obj fields)
  | null {fields} (h : lookup "connectedOutputIdModel" fields=some .null) : IsPort (.obj fields)
  | bare {fields model} (h : lookup "connectedOutputIdModel" fields=some (.obj model))
      (hid : lookup "NodeId" model=none) : IsPort (.obj fields)
  | fed {fields model id} (h : lookup "connectedOutputIdModel" fields=some (.obj model))
      (hid : lookup "NodeId" model=some (.str id)) : IsPort (.obj fields)

/-- The record of a node: it has a text as id, and a list of ports if it has any. -/
structure IsNode (node : Json) : Prop where
  id : (idOf? node).isSome
  inputs : ∀ v, node.get? "Inputs" = some v→∃ ports, v=.arr ports
  ports : ∀ port∈portsOf node, IsPort port

def recordOf (nodes : List Json) (id : String) : Option Json := nodes.reverse.find? fun node => idOf? node == some id

/-- A port of the node `v` is fed from the node `u`. -/
def Feeds (nodes : List Json) (u v : String) : Prop :=
  (recordOf nodes u).isSome ∧ ∃ node, recordOf nodes v=some node ∧ ∃ port∈portsOf node, sourceId? port=some u

/-- The ids and wires are those of the nodes. -/
structure Wires.Of (nodes : List Json) (w : Wires) : Prop where
  nodup : w.ids.Nodup
  ids : ∀ id, id∈w.ids ↔ (recordOf nodes id).isSome
  before : ∀ u v, u∈neighbours w.before v ↔ Feeds nodes u v
  after : ∀ u v, v∈neighbours w.after u ↔ Feeds nodes u v

theorem recordOf_cons (node : Json) (rest : List Json) (id : String) :
    recordOf (node::rest) id=(recordOf rest id).or (if idOf? node=some id then some node else none) := by
  simp only [recordOf,List.reverse_cons,List.find?_append,List.find?_singleton,beq_iff_eq]

theorem mem_of_recordOf (h : recordOf nodes id=some node) : node∈nodes ∧ idOf? node=some id := by
  refine ⟨List.mem_reverse.1 (List.mem_of_find?_eq_some h),?_⟩
  simpa using List.find?_some h

theorem isSome_recordOf (h : node∈nodes) (hid : idOf? node=some id) : (recordOf nodes id).isSome :=
  List.find?_isSome.2 ⟨node,List.mem_reverse.2 h,by simp [hid]⟩

theorem IsNode.item (h : idOf? node=some id) : node.item "Id" = .ok (.str id) := by
  obtain ⟨v,hv,hid⟩ := Option.bind_eq_some_iff.1 h
  cases v with
  | str s =>
    cases hid
    cases node with
    | obj fields => simp only [Json.item,show lookup "Id" fields=some (.str id) from hv]
    | _ => cases hv
  | _ => cases hid

theorem nodeTable_eq_ok (h : ∀ node∈nodes, IsNode node) {table : Table Json} (htable : table.keys.Nodup) :
    ∃ table', nodeTable table nodes=.ok table' ∧ table'.keys.Nodup ∧
      ∀ id, table'.find id=(recordOf nodes id).or (table.find id) := by
  induction nodes generalizing table with
  | nil => exact ⟨table,rfl,htable,fun _ => rfl⟩
  | cons node rest ih =>
    obtain ⟨hnode,hrest⟩ := List.forall_mem_cons.1 h
    obtain ⟨id,hid⟩ := Option.isSome_iff_exists.1 hnode.id
    obtain ⟨table',hok,hkeys,hfind⟩ := ih hrest (Table.nodup_keys_put htable id node)
    refine ⟨table',?_,hkeys,fun other => ?_⟩
    · simp only [nodeTable,IsNode.item hid,bind,Except.bind,Json.toFieldName]
      exact hok
    · rw [hfind,Table.find_put,recordOf_cons,hid]
      by_cases ho : other=id
      · subst ho
        cases recordOf rest other <;> simp
      · simp [ho,Ne.symm ho]

theorem isPartOf_obj (key : String) (fields : List (String×Json)) :
    Save.isPartOf (.str key) (.obj fields)=.ok (lookup key fields).isSome := rfl

theorem sourceOf?_eq_ok {port : Json} (h : IsPort port) (nodes : Table Json) :
    sourceOf? nodes port=.ok ((sourceId? port).filter nodes.has) := by
  unfold sourceOf? sourceId?
  cases h with
  | free h => simp [Json.field,Json.field?,Json.get?,h,Except.map,bind,Except.bind,Json.truthy,pure,Except.pure]
  | null h => simp [Json.field,Json.field?,Json.get?,h,Except.map,bind,Except.bind,Json.truthy,pure,Except.pure]
  | @bare fields model h hid =>
    simp only [Json.field,Json.field?,Json.get?,h,hid,Except.map,bind,Except.bind,Option.getD_some,isPartOf_obj,
      Option.isSome_none,Option.bind_some,Option.bind_none,Option.filter_none]
    split <;> rfl
  | @fed fields model id h hid =>
    have htruthy : (Json.obj model).truthy=true := by
      cases model with
      | nil => cases hid
      | cons => rfl
    simp only [Json.field,Json.field?,Json.get?,h,hid,Except.map,bind,Except.bind,Option.getD_some,htruthy,if_true,
      isPartOf_obj,Option.isSome_some,Json.item,Json.toFieldName,Option.bind_some,Json.asStr?,Option.filter_some]
    rfl

/-- The wires lead as a relation says, and are noted at both ends. -/
def Wires.Are (w : Wires) (r : String→String→Prop) : Prop :=
  ∀ u v, (u∈neighbours w.before v ↔ r u v) ∧ (v∈neighbours w.after u ↔ r u v)

theorem mem_neighbours_addTo (t : Table (List String)) (key item x id : String) :
    x∈neighbours (t.addTo key item) id ↔ x∈neighbours t id ∨ id=key ∧ x=item := by
  unfold neighbours Table.addTo
  rw [Table.find_put]
  split_ifs with h
  · simp [h]
  · simp [h]

theorem wirePorts_eq_ok (nodes : Table Json) (id : String) {ports : List Json} (h : ∀ port∈ports, IsPort port)
    (hw : w.Are r) : ∃ w', wirePorts nodes id w ports=.ok w' ∧ w'.ids=w.ids ∧
      w'.Are fun u v => r u v ∨ v=id ∧ nodes.has u ∧ ∃ port∈ports, sourceId? port=some u := by
  induction ports generalizing w r with
  | nil => exact ⟨w,rfl,rfl,by simpa using hw⟩
  | cons port rest ih =>
    obtain ⟨hport,hrest⟩ := List.forall_mem_cons.1 h
    cases hsource : (sourceId? port).filter nodes.has with
    | none =>
      obtain ⟨w',hok,hids,hare⟩ := ih hrest hw
      refine ⟨w',by simp [wirePorts,sourceOf?_eq_ok hport,hsource,bind,Except.bind,hok],hids,fun u v => ?_⟩
      have hnot : ¬ (nodes.has u ∧ sourceId? port=some u) := by
        rintro ⟨hu,hs⟩
        simp [hs,hu] at hsource
      simp only [hare u v,List.mem_cons,exists_eq_or_imp]
      tauto
    | some source =>
      obtain ⟨hs,hhas⟩ := Option.filter_eq_some_iff.1 hsource
      have hadded : Wires.Are { w with before := w.before.addTo id source, after := w.after.addTo source id }
          fun u v => r u v ∨ v=id ∧ u=source := by
        intro u v
        simp only [mem_neighbours_addTo,(hw u v).1,(hw u v).2]
        tauto
      obtain ⟨w',hok,hids,hare⟩ := ih hrest hadded
      refine ⟨w',by simp [wirePorts,sourceOf?_eq_ok hport,hsource,bind,Except.bind,hok],hids,fun u v => ?_⟩
      have hu : u=source ↔ nodes.has u ∧ sourceId? port=some u := by
        rw [hs,Option.some_inj]
        constructor
        · rintro rfl
          exact ⟨hhas,rfl⟩
        · exact fun h => h.2.symm
      simp only [hare u v,List.mem_cons,exists_eq_or_imp,hu]
      tauto

theorem IsNode.each_inputs (h : IsNode node) : (do (← node.fieldOr "Inputs" (.arr [])).each)=.ok (portsOf node) := by
  obtain ⟨id,hid⟩ := Option.isSome_iff_exists.1 h.id
  cases node with
  | obj fields =>
    have hinputs := h.inputs
    simp only [Json.fieldOr,Json.field?,portsOf,Json.get?,Except.map] at hinputs ⊢
    cases hfield : lookup "Inputs" fields with
    | none => rfl
    | some v =>
      obtain ⟨ports,rfl⟩ := hinputs v hfield
      rfl
  | _ => cases hid

theorem wireNodes_eq_ok (nodes : Table Json) {entries : List (String×Json)} (h : ∀ entry∈entries, IsNode entry.2)
    (hw : w.Are r) : ∃ w', wireNodes nodes w entries=.ok w' ∧ w'.ids=w.ids ∧
      w'.Are fun u v => r u v ∨ nodes.has u ∧ ∃ node, (v,node)∈entries ∧ ∃ port∈portsOf node, sourceId? port=some u := by
  induction entries generalizing w r with
  | nil => exact ⟨w,rfl,rfl,by simpa using hw⟩
  | cons entry rest ih =>
    obtain ⟨id,node⟩ := entry
    obtain ⟨hnode,hrest⟩ := List.forall_mem_cons.1 h
    obtain ⟨w₁,hok₁,hids₁,hare₁⟩ := wirePorts_eq_ok nodes id hnode.ports hw
    obtain ⟨w',hok,hids,hare⟩ := ih hrest hare₁
    refine ⟨w',?_,hids.trans hids₁,fun u v => ?_⟩
    · have heach := hnode.each_inputs
      rw [wireNodes,← bind_assoc,heach]
      simp only [bind,Except.bind,hok₁,hok]
    · rw [(hare u v).1,(hare u v).2]
      simp only [List.mem_cons,Prod.mk.injEq,and_self]
      constructor
      · rintro ((hr | ⟨rfl,hu,hport⟩) | ⟨hu,node',hmem,hport⟩)
        · exact .inl hr
        · exact .inr ⟨hu,node,.inl ⟨rfl,rfl⟩,hport⟩
        · exact .inr ⟨hu,node',.inr hmem,hport⟩
      · rintro (hr | ⟨hu,node',⟨rfl,rfl⟩ | hmem,hport⟩)
        · exact .inl (.inl hr)
        · exact .inl (.inr ⟨rfl,hu,hport⟩)
        · exact .inr ⟨hu,node',hmem,hport⟩

/-- The wires of proper records are read off them. -/
theorem Wires.ofNodes_eq_ok (h : ∀ node∈nodes, IsNode node) : ∃ w, Wires.ofNodes nodes=.ok w ∧ w.Of nodes := by
  obtain ⟨table,htable,hkeys,hfind⟩ := nodeTable_eq_ok h (show Table.empty.keys.Nodup from List.nodup_nil)
  simp only [Table.find_empty,Option.or_none] at hfind
  have hentries : ∀ v node, (v,node)∈table.toList ↔ recordOf nodes v=some node := fun v node =>
    ⟨fun hmem => (hfind v) ▸ Table.find_of_mem hkeys hmem,fun hrecord => Table.mem_of_find ((hfind v).trans hrecord)⟩
  have hproper : ∀ entry∈table.toList, IsNode entry.2 := fun entry hentry =>
    h _ (mem_of_recordOf ((hentries entry.1 entry.2).1 hentry)).1
  have hnone : Wires.Are ⟨table.keys,Table.empty,Table.empty⟩ fun _ _ => False := fun _ _ => by simp [neighbours]
  obtain ⟨w,hok,hids,hare⟩ := wireNodes_eq_ok table hproper hnone
  have hfeeds : ∀ u v, (False ∨ table.has u ∧ ∃ node, (v,node)∈table.toList ∧
      ∃ port∈portsOf node, sourceId? port=some u) ↔ Feeds nodes u v := by
    intro u v
    simp only [false_or,Table.has_eq_isSome,hfind,hentries,Feeds]
  refine ⟨w,by simp only [Wires.ofNodes,htable,bind,Except.bind]; exact hok,hids ▸ hkeys,fun id => ?_,
    fun u v => (hare u v).1.trans (hfeeds u v),fun u v => (hare u v).2.trans (hfeeds u v)⟩
  rw [hids,← hfind id,Table.find_isSome_iff]

/-- The record of a node with ports that are fed from the sources. -/
def record (id : String) (sources : List String) : Json :=
  .obj [("Id",.str id),("Inputs",.arr (sources.map fun source =>
    .obj [("connectedOutputIdModel",.obj [("NodeId",.str source)])]))]

theorem isNode_record (id : String) (sources : List String) : IsNode (record id sources) := by
  refine ⟨rfl,fun v hv => ⟨_,(Option.some.inj hv).symm⟩,fun port hport => ?_⟩
  obtain ⟨source,-,rfl⟩ := List.mem_map.1 hport
  exact .fed rfl rfl

def records (table : List (String×List String)) : List Json := table.map fun entry => record entry.1 entry.2

theorem isNode_records (table : List (String×List String)) : ∀ node∈records table, IsNode node := by
  intro node hnode
  obtain ⟨entry,-,rfl⟩ := List.mem_map.1 hnode
  exact isNode_record entry.1 entry.2

def fork : List Json := records [("a",[]),("b",[]),("c",["a","b"])]

end ChipForge.Layout
