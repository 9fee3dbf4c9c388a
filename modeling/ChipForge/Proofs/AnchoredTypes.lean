import ChipForge.Proofs.UntouchedTypes

/-! Some modules leave their nodes no choice of type. As long as no port of such a module follows its node, the node has
the type of its module whatever is wired to it. -/
namespace ChipForge.Inference
open Wiring List

def modifiable (m : Json) : Bool := ((m.get? "can_modify_data_type").getD (.bool true)).switch true

def gateType? (m : Json) : Option GateType := ((m.get? "gate_data_type").getD .null).asInt?.bind GateType.ofCode?

def settingsOf (node : Json) : Json :=
  match node.get? "attrs" with
  | some (.obj fields) => .obj fields
  | _ => .obj []

/-- No rule lets a port follow the type of a node where the module fixes it. -/
def KeepFixed (rules modules : Json) : Prop :=
  ∀ key m rule, modules.get? key=some m → modifiable m=false → rules.get? key=some rule →
    ∀ (side : Side) items, rule.get? side.name=some (.arr items) → .str "same" ∉ items

/-- A node that asks for no type and is placed as one of a module that fixes the types of its nodes. -/
structure Anchored (placements modules node : Json) (id : String) (placement operation m : Json) (t : GateType) : Prop where
  asks : explicitType? (settingsOf node)=.ok none
  placed : placements.get? id=some placement
  chip : Text.lower ((placement.get? "friendly_name").getD (.str "")).plain∉["input","output","constant","variable"]
  made : placement.get? "op_type" = some operation ∧ operation.isNull=false
  defined : modules.get? operation.plain=some m
  fixed : modifiable m=false
  type : gateType? m=some t

section
variable {s : Setting} {id : String} {placement operation m node : Json} {t : GateType} {role : Role} {o : Own}

theorem role_of_placement (h : s.role id=.ok role) (hplaced : s.placements.get? id=some placement)
    (hmade : placement.get? "op_type" = some operation ∧ operation.isNull=false) :
    role.chip=((placement.get? "friendly_name").getD (.str "")).plain ∧ role.module=some operation.plain := by
  obtain ⟨found,hfound,h⟩ := bind_eq_ok.1 h
  have hfound : found=placement := by rw [Json.field_eq_ok hfound,hplaced,Option.getD_some]
  have htruthy : placement.orElse (.obj [])=placement := by
    cases placement with
    | obj fields =>
      cases fields with
      | nil => cases hmade.1
      | cons field rest => rfl
    | _ => cases hmade.1
  rw [hfound,htruthy] at h
  obtain ⟨chip,op,hchip,hop,h⟩ := bind_bind_eq_ok.1 h
  obtain ⟨held,-,h⟩ := bind_eq_ok.1 h
  have hop : op=operation := by rw [Json.field_eq_ok hop,hmade.1,Option.getD_some]
  cases h
  rw [Json.fieldOr_eq_ok hchip,hop]
  exact ⟨rfl,by simp [hmade.2]⟩

theorem settings_eq_ok {attrs : Json} (h : node.field "attrs" = .ok attrs) :
    (if (attrs.orElse (.obj [])).isObj then attrs.orElse (.obj []) else .obj [])=settingsOf node := by
  have hattrs := Json.field_eq_ok h
  unfold settingsOf
  cases hget : node.get? "attrs" with
  | none =>
    rw [hget] at hattrs
    rw [hattrs]
    rfl
  | some v =>
    rw [hget] at hattrs
    rw [hattrs]
    cases v with
    | obj fields => cases fields <;> rfl
    | _ =>
      rw [Option.getD_some,Json.orElse]
      split
      · rfl
      · rfl

theorem isObj_of_fixed (hfixed : modifiable m=false) : m.isObj=true := by
  cases m with
  | obj fields => rfl
  | _ => cases hfixed

theorem moduleStart_of_fixed (hfixed : modifiable m=false) : moduleStart (some m)=.ok (gateType? m,true) := by
  cases m with
  | obj fields =>
    refine bind_eq_ok.2 ⟨_,rfl,bind_eq_ok.2 ⟨_,rfl,?_⟩⟩
    rw [show (((Json.lookup "can_modify_data_type" fields).getD (.bool true)).switch true)=false from hfixed]
    rfl
  | _ => cases hfixed

theorem get?_of_mem_listOf {record x : Json} {key : String} {items : List Json} (h : Setting.listOf record key=.ok items)
    (hx : x∈items) : record.get? key=some (.arr items) := by
  obtain ⟨v,hv,h⟩ := bind_eq_ok.1 h
  have hv := Json.field_eq_ok hv
  cases hget : record.get? key with
  | none =>
    rw [hv,hget] at h
    cases h
    cases hx
  | some list =>
    rw [hv,hget,Option.getD_some,Json.orElse] at h
    split_ifs at h
    · cases list with
      | arr found =>
        cases h
        rfl
      | _ =>
        cases h
        cases hx
    · cases h
      cases hx

/-- An anchored node starts from the type of its module, and has a part in which no port follows it. -/
theorem Anchored.own (h : Anchored s.placements s.modules node id placement operation m t)
    (hkeep : KeepFixed s.rules s.modules) (hown : ownOf s id node=.ok o) :
    o.start?=some t ∧ ∃ role, s.role id=.ok role ∧ ∀ side, ¬s.Follows role side := by
  obtain ⟨attrs,explicit,hattrs,hexplicit,hown⟩ := bind_bind_eq_ok.1 hown
  rw [settings_eq_ok hattrs,h.asks] at hexplicit
  cases hexplicit
  obtain ⟨role,hrole,hown⟩ := bind_eq_ok.1 hown
  obtain ⟨hchip,hmodule⟩ := role_of_placement hrole h.placed h.made
  have hword : role.word∉["input","output","constant","variable"] := by
    rw [Role.word,hchip]
    exact h.chip
  simp only [mem_cons,not_mem_nil,or_false,not_or] at hword
  refine ⟨?_,role,hrole,?_⟩
  · simp only [beq_eq_false_iff_ne.2 hword.2.2.1,beq_eq_false_iff_ne.2 hword.2.2.2] at hown
    obtain ⟨found,hfound,hown⟩ := bind_eq_ok.1 hown
    rw [hmodule] at hfound
    obtain ⟨v,hv,hfound⟩ := map_eq_ok_iff.1 hfound
    have hv : v=m := by rw [Json.field_eq_ok hv,h.defined,Option.getD_some]
    rw [hv,if_pos (isObj_of_fixed h.fixed)] at hfound
    obtain ⟨start,hstart,hown⟩ := bind_eq_ok.1 hown
    rw [← hfound,moduleStart_of_fixed h.fixed,h.type] at hstart
    cases hstart
    cases hown
    rfl
  · rintro side (houtput | hinput | ⟨-,-,rule,items,hrule,hitems,hsame⟩)
    · exact hword.2.1 houtput
    · exact hword.1 hinput
    · rw [hmodule] at hrule
      obtain ⟨v,hv,hrule⟩ := map_eq_ok_iff.1 hrule
      split_ifs at hrule with hobj
      cases hrule
      have hget : s.rules.get? operation.plain=some rule := by
        have hrule := Json.field_eq_ok hv
        cases hfound : s.rules.get? operation.plain with
        | none =>
          rw [hrule,hfound] at hobj
          cases hobj
        | some r => rw [hrule,hfound,Option.getD_some]
      exact hkeep _ m rule h.defined h.fixed hget side items (get?_of_mem_listOf hitems hsame) hsame

end

def nodesOf (graph : Json) : Except Failure (List (String×Json)) := do
  namedNodes (← ((← graph.field "nodes").orElse (.arr [])).each)

/-- Whatever is wired, a node of a module that fixes the types of its nodes has the type of the module. -/
theorem infer_anchored {graph placements index rules modules node placement operation m : Json}
    {named : List (String × Json)} {id : String} {t : GateType} {types : Table GateType}
    (hnamed : nodesOf graph = .ok named) (hids : (named.map (·.1)).Nodup) (hkeep : KeepFixed rules modules)
    (hnode : (id, node) ∈ named)
    (hanchored : Anchored placements modules node id placement operation m t)
    (h : infer graph placements index rules modules = .ok types) : types.find id = some t := by
  obtain ⟨v,hv,hnodes⟩ := bind_eq_ok.1 hnamed
  obtain ⟨nodes,hnodes,hnamed⟩ := bind_eq_ok.1 hnodes
  rw [Json.field_eq_ok hv] at hnodes
  obtain ⟨e,he⟩ := evidence_of_infer h
  obtain ⟨named',hnamed',hnames,rfl,rfl,rfl,hown⟩ := evidence_own he hnodes
  cases hnamed.symm.trans hnamed'
  have hnodup : e.ids.Nodup := hnames ▸ hids
  obtain ⟨o,ho,hread⟩ := hown _ hnode
  obtain ⟨hstart,role,hrole,hfollows⟩ := hanchored.own hkeep hread
  rw [← hstart]
  exact Evidence.find_of_standsAside hnodup (evidence_read he) ho
    (fun c hc => (evidence_read he c hc).not_touches hrole hfollows) (infer_eq he hnodup ▸ h)

def normalizeGraph : Json :=
  .obj [("nodes",.arr [.obj [("id",.str "n"),("attrs",.obj [("data_type",.int 2)])],.obj [("id",.str "v")]]),
    ("edges",.arr [.obj [("from_node",.str "n"),("from_port",.str "Value"),("to_node",.str "v"),
      ("to_port",.str "Input")]])]

def normalizeIndex : Json :=
  .obj [("input",.obj [("outputs",.arr [.str "Value"])]),("normalize",.obj [("inputs",.arr [.str "Input"])])]

def normalizePlacement : Json := .obj [("friendly_name",.str "Normalize"),("op_type",.str "1282")]

def normalizePlacements : Json := .obj [("n",.obj [("friendly_name",.str "Input")]),("v",normalizePlacement)]

def normalizeModule : Json :=
  .obj [("gate_data_type",.int 8),("can_modify_data_type",.str "false"),
    ("inputs",.arr [.obj [("name",.str "Input"),("type",.str "Vector")]])]

theorem infer_anchored_normalize :
    infer normalizeGraph normalizePlacements normalizeIndex (.obj []) (.obj [("1282", normalizeModule)]) =
      .ok [("n", .number), ("v", .vector)] ∧
    Table.find [("n", GateType.number), ("v", GateType.vector)] "v" = some .vector := by
  have hinfer : infer normalizeGraph normalizePlacements normalizeIndex (.obj []) (.obj [("1282",normalizeModule)]) =
      .ok [("n",.number),("v",.vector)] := rfl
  have hkeep : KeepFixed (.obj []) (.obj [("1282",normalizeModule)]) := fun _ _ _ _ _ hrule => nomatch hrule
  have hanchored : Anchored normalizePlacements (.obj [("1282",normalizeModule)]) (.obj [("id",.str "v")]) "v"
      normalizePlacement (.str "1282") normalizeModule .vector :=
    ⟨rfl,rfl,by decide +kernel,⟨rfl,rfl⟩,rfl,by decide +kernel,rfl⟩
  exact ⟨hinfer,infer_anchored rfl (by decide) hkeep (mem_cons_of_mem _ mem_cons_self) hanchored hinfer⟩

end ChipForge.Inference
