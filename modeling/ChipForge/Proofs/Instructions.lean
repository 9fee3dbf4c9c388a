import ChipForge.Assembly.Instructions
import ChipForge.Proofs.Additions

/-! Each instruction for a type stands for one node of the graph, in order. A node gets one if a type is known for it,
if it is no constant and no variable, and if it was made and its module lets its type be changed. -/
namespace ChipForge.Assembly
open Json Save Wiring Inference Text

section
variable {α : Type} {advise : Json→Except Failure (Advice α)} {nodes : List Json} {out : List α}

def Advice.instruction? : Advice α→Option α
  | .instruct i => some i
  | _ => Option.none

def instructionOf? (advise : Json→Except Failure (Advice α)) (node : Json) : Option α :=
  (advise node).toOption.bind Advice.instruction?

theorem instructionOf?_eq_some {node : Json} {i : α} :
    instructionOf? advise node=some i ↔ advise node=.ok (.instruct i) := by
  unfold instructionOf?
  cases advise node with
  | error f => simp [Except.toOption]
  | ok a => cases a <;> simp [Except.toOption,Advice.instruction?]

/-- Instructions are those of the nodes in turn, and every node was looked at. -/
theorem advised_eq_ok (h : advised advise nodes=.ok out) :
    out=nodes.filterMap (instructionOf? advise) ∧ ∀ node∈nodes, ∃ a, advise node=.ok a := by
  induction nodes generalizing out with
  | nil =>
    cases h
    exact ⟨rfl,nofun⟩
  | cons node rest ih =>
    obtain ⟨a,ha,h⟩ := bind_eq_ok.1 h
    have hfirst : instructionOf? advise node=a.instruction? := by
      rw [instructionOf?,ha]
      rfl
    have hall : (∀ n∈rest, ∃ a, advise n=.ok a)→∀ n∈node::rest, ∃ a, advise n=.ok a := by
      intro hrest n hn
      rcases List.mem_cons.1 hn with rfl | hn
      · exact ⟨a,ha⟩
      · exact hrest n hn
    rw [List.filterMap_cons,hfirst]
    cases a with
    | instruct i =>
      obtain ⟨others,hothers,h⟩ := bind_eq_ok.1 h
      cases h
      obtain ⟨rfl,hrest⟩ := ih hothers
      exact ⟨rfl,hall hrest⟩
    | none =>
      obtain ⟨hout,hrest⟩ := ih h
      exact ⟨hout,hall hrest⟩
    | warn text =>
      obtain ⟨hout,hrest⟩ := ih h
      exact ⟨hout,hall hrest⟩

end

def settingsOf (node : Json) : Json := ((node.get? "attrs").getD (.obj [])).orElse (.obj [])

/-- What settings say about a type. -/
def askedType (attrs : Json) : Json := (attrs.get? "data_type").getD ((attrs.get? "datatype").getD .null)

/-- The number that is asked for. A truth value counts as one. -/
def numberAsked? : Json→Option Json
  | .str s => if allDigits s then (readInt? s).map .int else none
  | .int n => some (.int n)
  | .bool b => some (.bool b)
  | _ => none

/-- Is the number that is asked for, if any, the code of a type? -/
def AsksForType (v : Json) : Prop := ∀ number, numberAsked? v=some number→∃ t : GateType, number=.int t.code

/-- The new type of a node: the number that is asked for, or the type that was found. -/
def newType? (types : Table GateType) (node : Json) : Option Json :=
  match numberAsked? (askedType (settingsOf node)), node.get? "id" with
  | some number, _ => some number
  | none, some (.str id) => (types.find id).map fun t => .int t.code
  | none, _ => none

def kindWord (node : Json) : String := lower (trim ((node.get? "type").getD (.str "")).plain)

/-- Neither the chip of a node nor its module is barred from changes. -/
def Modifiable (modules : Json) (p : Placement) : Prop :=
  p.modifiable=true ∧ ∀ key fields, p.opType=some key → modules.get? key=some (.obj fields) →
    ((lookup "can_modify_data_type" fields).getD (.bool true)).switch true=true

/-- The instruction sets the type of a node that was made and may be changed. -/
structure Changes (placements : Table Placement) (modules : Json) (types : Table GateType) (node : Json)
    (i : TypeInstruction) : Prop where
  type : newType? types node=some i.type
  kind : kindWord node ≠ "constant" ∧ kindWord node ≠ "variable"
  target : ∃ name p, nodeId node=.ok name ∧ placements.find name=some p ∧ p.newId.truthy=true ∧
    Modifiable modules p ∧ i.nodeId=p.newId

section
variable {placements : Table Placement} {modules node : Json} {types : Table GateType} {i : TypeInstruction}
  {a : Advice TypeInstruction}

theorem requestedType?_eq_ok {attrs : Json} {requested : Option Json} (h : requestedType? attrs=.ok requested) :
    requested=numberAsked? (askedType attrs) := by
  obtain ⟨other,v,hother,hv,h⟩ := bind_bind_eq_ok.1 h
  have hasked : askedType attrs=v := by rw [askedType,← field_eq_ok hother,fieldOr_eq_ok hv]
  rw [hasked]
  cases v with
  | str s =>
    dsimp only at h
    unfold numberAsked?
    dsimp only
    split_ifs at h ⊢
    · cases hread : readInt? s <;> rw [Json.readDigits,hread] at h <;> cases h
      rfl
    · cases h
      rfl
  | int n =>
    cases h
    rfl
  | bool b =>
    cases h
    rfl
  | _ =>
    cases h
    rfl

theorem mayModify_eq_ok {p : Placement} {b : Bool} (h : mayModify modules p=.ok b) : b=true ↔ Modifiable modules p := by
  unfold mayModify at h
  cases hkey : p.opType with
  | none =>
    rw [hkey] at h
    cases h
    exact ⟨fun hp => ⟨hp,fun key fields hsome => by rw [hkey] at hsome; cases hsome⟩,And.left⟩
  | some key =>
    rw [hkey] at h
    obtain ⟨module,hmodule,h⟩ := bind_eq_ok.1 h
    have hmodule := field_eq_ok hmodule
    have hbarred : Modifiable modules p ↔ p.modifiable=true ∧ ∀ fields, modules.get? key=some (.obj fields) →
        ((lookup "can_modify_data_type" fields).getD (.bool true)).switch true=true := by
      refine and_congr Iff.rfl ⟨fun hall fields => hall key fields hkey,fun hall key' fields hkey' => ?_⟩
      cases hkey.symm.trans hkey'
      exact hall fields
    rw [hbarred]
    cases hget : modules.get? key with
    | none =>
      rw [hget] at hmodule
      cases hmodule
      cases h
      simp
    | some found =>
      rw [hget] at hmodule
      cases hmodule
      cases found <;> cases h <;> simp

def adviseNew (placements : Table Placement) (modules node : Json) (asked : Bool) (type : Json) :
    Except Failure (Advice TypeInstruction) := do
  let word := lower (trim (← node.fieldOr "type" (.str "")).plain)
  if word == "constant" || word == "variable" then pure .none
  else
    let id ← node.item "id"
    let placed := placements.find (← id.toFieldName)
    let possible ← match placed with
      | some p => do pure (p.newId.truthy && (← mayModify modules p))
      | none => pure false
    match placed, possible with
    | some p, true => pure (.instruct ⟨p.newId,type⟩)
    | _, _ =>
      if asked then
        pure (.warn ("⚠️ 警告：节点 '" ++ id.plain ++ "' 定义了 data_type/datatype 但未找到其生成的 ID，将跳过"))
      else pure .none

theorem adviseNew_eq_ok {asked : Bool} {type : Json} (htype : newType? types node=some type)
    (h : adviseNew placements modules node asked type=.ok a) :
    a=.instruct i ↔ Changes placements modules types node i := by
  obtain ⟨kind,hkind,h⟩ := bind_eq_ok.1 h
  generalize hw : lower (trim kind.plain)=word at h
  have hword : kindWord node=word := by rw [kindWord,← fieldOr_eq_ok hkind,hw]
  by_cases hspecial : (word == "constant" || word == "variable")=true
  · rw [if_pos hspecial] at h
    cases h
    refine ⟨nofun,fun hchanges => ?_⟩
    rcases Bool.or_eq_true_iff.1 hspecial with hword' | hword'
    · exact absurd (hword.trans (beq_iff_eq.1 hword')) hchanges.kind.1
    · exact absurd (hword.trans (beq_iff_eq.1 hword')) hchanges.kind.2
  · rw [if_neg hspecial] at h
    obtain ⟨id,name,hid,hname,h⟩ := bind_bind_eq_ok.1 h
    have hnode : nodeId node=.ok name := bind_eq_ok.2 ⟨id,hid,hname⟩
    have hkindword : kindWord node ≠ "constant" ∧ kindWord node ≠ "variable" := by
      rw [hword]
      simpa using hspecial
    have hnone : ∀ {text : String}, (if asked then (pure (.warn text) : Except Failure (Advice TypeInstruction))
        else pure .none)=.ok a → a≠.instruct i := by
      rintro text h rfl
      cases asked <;> cases h
    cases hplaced : placements.find name with
    | none =>
      simp only [hplaced] at h
      refine ⟨fun ha => absurd ha (hnone h),fun hchanges => ?_⟩
      obtain ⟨name',p,hname',hp,-⟩ := hchanges.target
      cases hnode.symm.trans hname'
      cases hplaced.symm.trans hp
    | some p =>
      simp only [hplaced] at h
      obtain ⟨may,hmay,h⟩ := bind_eq_ok.1 h
      have hmay := mayModify_eq_ok hmay
      cases hboth : p.newId.truthy && may with
      | true =>
        obtain ⟨htruthy,htrue⟩ := Bool.and_eq_true_iff.1 hboth
        simp only [hboth] at h
        cases h
        constructor
        · intro ha
          cases ha
          exact ⟨htype,hkindword,name,p,hnode,hplaced,htruthy,hmay.1 htrue,rfl⟩
        · intro hchanges
          obtain ⟨name',p',hname',hp,-,-,hid'⟩ := hchanges.target
          cases hnode.symm.trans hname'
          cases hplaced.symm.trans hp
          cases htype.symm.trans hchanges.type
          rw [← hid']
      | false =>
        rw [hboth] at h
        refine ⟨fun ha => absurd ha (hnone h),fun hchanges => ?_⟩
        obtain ⟨name',p',hname',hp,htruthy,hmodifiable,-⟩ := hchanges.target
        cases hnode.symm.trans hname'
        cases hplaced.symm.trans hp
        rw [htruthy,hmay.2 hmodifiable] at hboth
        cases hboth

theorem adviseType_eq_ok (h : adviseType placements modules types node=.ok a) :
    a=.instruct i ↔ Changes placements modules types node i := by
  obtain ⟨attrs,requested,hattrs,hrequested,h⟩ := bind_bind_eq_ok.1 h
  have hsettings : attrs.orElse (.obj [])=settingsOf node := by rw [settingsOf,fieldOr_eq_ok hattrs]
  rw [hsettings] at hrequested
  have hasked := requestedType?_eq_ok hrequested
  cases requested with
  | some type => exact adviseNew_eq_ok (by rw [newType?,← hasked]) h
  | none =>
    obtain ⟨type,htype,h⟩ := bind_eq_ok.1 h
    have hnew : newType? types node=type := by
      rw [newType?,← hasked]
      obtain ⟨id,hid,htype⟩ := bind_eq_ok.1 htype
      have hid := field_eq_ok hid
      cases hget : node.get? "id" with
      | none =>
        rw [hget] at hid
        cases hid
        cases htype
        rfl
      | some v =>
        rw [hget] at hid
        cases hid
        cases v <;> cases htype <;> rfl
    cases type with
    | none =>
      cases h
      refine ⟨nofun,fun hchanges => ?_⟩
      cases hnew.symm.trans hchanges.type
    | some type => exact adviseNew_eq_ok hnew h

end

/-- A type is set by its code exactly if no other number is asked for. -/
theorem Changes.code_iff {placements : Table Placement} {modules node : Json} {types : Table GateType} {i : TypeInstruction}
    (h : Changes placements modules types node i) :
    (∃ t : GateType, i.type=.int t.code) ↔ AsksForType (askedType (settingsOf node)) := by
  have htype := h.type
  unfold newType? at htype
  unfold AsksForType
  cases hnumber : numberAsked? (askedType (settingsOf node)) with
  | some number =>
    rw [hnumber] at htype
    cases htype
    simp
  | none =>
    rw [hnumber] at htype
    refine ⟨fun _ => nofun,fun _ => ?_⟩
    cases hid : node.get? "id" with
    | none =>
      rw [hid] at htype
      cases htype
    | some id =>
      rw [hid] at htype
      cases id with
      | str id =>
        obtain ⟨t,-,ht⟩ := Option.map_eq_some_iff.1 htype
        exact ⟨t,ht.symm⟩
      | _ => cases htype

/-- Instructions for types stand for nodes of the graph, in order and at most one for each node: for those that have a new
type, are no constants and no variables, were made and may be changed. The new type is the code of a type exactly if the
settings of the node ask for no other number. -/
theorem typeInstructions_changes {graph rules modules : Json} {placements : Table Placement} {index : Index}
    {instructions : List TypeInstruction}
    (h : (typeInstructions graph placements index rules modules).1 = .ok instructions) :
    ∃ types nodes, typesOf graph placements index rules modules = .ok types ∧ listedNodes graph = .ok nodes ∧
      (∃ instruction? : Json → Option TypeInstruction, instructions = nodes.filterMap instruction? ∧
        ∀ node ∈ nodes, ∀ i, instruction? node = some i ↔ Changes placements modules types node i) ∧
      ∀ node i, Changes placements modules types node i →
        ((∃ t : GateType, i.type = .int t.code) ↔ AsksForType (askedType (settingsOf node))) := by
  unfold typeInstructions at h
  cases htypes : typesOf graph placements index rules modules with
  | error f =>
    simp only [htypes] at h
    cases h
  | ok types =>
    cases hnodes : listedNodes graph with
    | error f =>
      simp only [htypes,hnodes] at h
      cases h
    | ok nodes =>
      simp only [htypes,hnodes] at h
      obtain ⟨hout,hall⟩ := advised_eq_ok h
      refine ⟨types,nodes,rfl,rfl,⟨_,hout,fun node hnode i => ?_⟩,fun node i => Changes.code_iff⟩
      obtain ⟨a,ha⟩ := hall node hnode
      rw [instructionOf?_eq_some,ha,Except.ok.injEq]
      exact adviseType_eq_ok ha

def sumNode (id : String) (type : Json) : Json :=
  .obj [("id",.str id),("type",.str "Sum"),("attrs",.obj [("data_type",type)])]

def sumPlacement (id : String) : Placement := ⟨"Sum",.str "SumNode",0,.str id,some "7",true,none⟩

def sumModules : Json := .obj [("7",.obj [("id",.str "7"),("gate_data_type",.int 2)])]

def askingGraph : Json := .obj [("nodes",.arr [sumNode "a" .null,sumNode "b" (.str "4"),sumNode "c" (.int 3)])]

def askingPlacements : Table Placement := [("a",sumPlacement "A"),("b",sumPlacement "B"),("c",sumPlacement "C")]

set_option maxRecDepth 4000 in
theorem typeInstructions_changes_asking :
    (typeInstructions askingGraph askingPlacements Table.empty (.obj []) sumModules).1 =
      .ok [⟨.str "A", .int 2⟩, ⟨.str "B", .int 4⟩, ⟨.str "C", .int 3⟩] ∧
    ∃ types nodes, typesOf askingGraph askingPlacements Table.empty (.obj []) sumModules = .ok types ∧
      listedNodes askingGraph = .ok nodes ∧
      (∃ instruction? : Json → Option TypeInstruction,
        [⟨.str "A", .int 2⟩, ⟨.str "B", .int 4⟩, ⟨.str "C", .int 3⟩] = nodes.filterMap instruction? ∧
        ∀ node ∈ nodes, ∀ i, instruction? node = some i ↔ Changes askingPlacements sumModules types node i) ∧
      ∀ node i, Changes askingPlacements sumModules types node i →
        ((∃ t : GateType, i.type = .int t.code) ↔ AsksForType (askedType (settingsOf node))) :=
  ⟨rfl,typeInstructions_changes rfl⟩

def nearConstant : Json :=
  .obj [("id",.str "k"),("type",.str "Constantt"),("attrs",.obj [("data_type",.int 4)])]

set_option maxRecDepth 4000 in
/-- A number that is no type is set as it is, and so is the type of a constant whose name was misspelled. -/
theorem typeInstructions_outside :
    (typeInstructions (.obj [("nodes", .arr [sumNode "c" (.int 3)])]) [("c", sumPlacement "C")] Table.empty (.obj [])
      sumModules).1 = .ok [⟨.str "C", .int 3⟩] ∧
    (∀ t : GateType, t.code ≠ 3) ∧
    (kindOf ([("constant", Index.constantKind)] : List (String × ChipKind)) nearConstant).toOption.map (·.friendlyName) = some "Constant" ∧
    (typeInstructions (.obj [("nodes", .arr [nearConstant])])
      [("k", ⟨"Constant", .str "ConstantNodeViewModel", 0, .str "K", some "257", true, none⟩)] Table.empty (.obj [])
      sumModules).1 = .ok [⟨.str "K", .int 4⟩] := by
  refine ⟨rfl,fun t => by cases t <;> decide,?_,rfl⟩
  decide +kernel

end ChipForge.Assembly
