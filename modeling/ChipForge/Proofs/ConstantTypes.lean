import ChipForge.Proofs.Instructions
import ChipForge.Proofs.UntouchedTypes

/-! The value of a constant is classified twice: inference reads off its type, and the instructions that set it say in
which form it is written. The two agree on single values and on most lists. -/
namespace ChipForge.Assembly
open Json Wiring Inference Option

/-- The type of the values of a form. -/
def ConstantForm.type : ConstantForm→GateType
  | decimal => .number
  | string => .string
  | vector => .vector
  | arrayNumber => .arrayNumber
  | arrayString => .arrayString
  | arrayVector => .arrayVector

/-- The form of the values of a type. Entities have none. -/
def ConstantForm.ofType? : GateType→Option ConstantForm
  | .number => some .decimal
  | .string => some .string
  | .vector => some .vector
  | .arrayNumber => some .arrayNumber
  | .arrayString => some .arrayString
  | .arrayVector => some .arrayVector
  | .entity => none
  | .arrayEntity => none

theorem ConstantForm.ofType?_eq_some {t : GateType} {form : ConstantForm} : ofType? t=some form ↔ t=form.type := by
  cases t <;> cases form <;> simp [ofType?,type]

theorem ConstantForm.eq_bind_iff {own : Option ConstantForm} {type : Option GateType} :
    own=type.bind ofType? ↔ (∀ form, own=some form → type=some form.type) ∧
      ∀ form : ConstantForm, type=some form.type → own=some form := by
  constructor
  · rintro rfl
    refine ⟨fun form hform => ?_,fun form hform => ?_⟩
    · obtain ⟨t,ht,hform⟩ := bind_eq_some_iff.1 hform
      rw [ht,ofType?_eq_some.1 hform]
    · rw [hform]
      exact ofType?_eq_some.2 rfl
  · rintro ⟨hown,htype⟩
    cases own with
    | some form =>
      rw [hown form rfl]
      exact (ofType?_eq_some.2 rfl).symm
    | none =>
      refine (eq_none_iff_forall_ne_some.2 fun form hform => ?_).symm
      obtain ⟨t,ht,hform⟩ := bind_eq_some_iff.1 hform
      cases htype form (by rw [ht,ofType?_eq_some.1 hform])

/-- The form in which a value is written. -/
def formOf? (value : Json) : Option ConstantForm :=
  if value.isNumber then some .decimal
  else if value.isStr then some .string
  else if value.isVector then some .vector
  else match value with
    | .arr items =>
      if items.all Json.isNumber then some .arrayNumber
      else if items.all Json.isStr then some .arrayString
      else if items.all isVectorItem then some .arrayVector
      else none
    | _ => none

theorem formOf?_arr (items : List Json) : formOf? (.arr items) =
    if items.all Json.isNumber then some .arrayNumber
    else if items.all Json.isStr then some .arrayString
    else if items.all isVectorItem then some .arrayVector
    else none := rfl

theorem formOf?_obj (fields : List (String×Json)) : formOf? (.obj fields) =
    if (Json.obj fields).isVector then some .vector else none := rfl

/-- Values of which type and form agree: all but empty lists, and but lists whose items are vectors to one reading only. -/
def ReadsAlike : Json→Prop
  | .arr items => items.isEmpty=false ∧ (items.all Json.isNumber=true ∨ items.all Json.isStr=true ∨
      (items.all isVectorItem=true ↔ items.all Json.isVector=true ∨ items.all isNumberTriple=true))
  | _ => True

instance : DecidablePred ReadsAlike
  | .arr items => inferInstanceAs (Decidable (items.isEmpty=false ∧ (items.all Json.isNumber=true ∨
      items.all Json.isStr=true ∨
      (items.all isVectorItem=true ↔ items.all Json.isVector=true ∨ items.all isNumberTriple=true))))
  | .null => .isTrue trivial
  | .bool _ => .isTrue trivial
  | .int _ => .isTrue trivial
  | .float _ => .isTrue trivial
  | .str _ => .isTrue trivial
  | .obj _ => .isTrue trivial

/-- The type of a constant is that of the form its value is written in. -/
def TypedAlike (explicit : Option GateType) (value : Json) : Prop :=
  match explicit with
  | some t => formOf? value=ConstantForm.ofType? t
  | none => ReadsAlike value

/-- The items of a list of numbers or of vectors can be converted. -/
def Converts : Json→Prop
  | .arr items =>
    match formOf? (.arr items) with
    | some .arrayNumber => ∀ v∈items, ∃ x, v.toFloat=.ok x
    | some .arrayVector => ∀ v∈items, ∃ x, vectorItem v=.ok x
    | _ => True
  | _ => True

section
variable {attrs : List (String×Json)} {value : Json} {items : List Json} {placements : Table Placement}
  {id newId node : Json} {α β : Type} {p : Placement}

/-- Lists are read twice: by the kind of all their items, and for vectors by shapes that differ. -/
theorem formOf?_arr_iff (h : lookup "value" attrs=some (.arr items)) :
    formOf? (.arr items)=(constantType? (.obj attrs)).bind ConstantForm.ofType? ↔ ReadsAlike (.arr items) := by
  have hget : (Json.obj attrs).get? "value" = some (.arr items) := h
  have htype : constantType? (.obj attrs)=if items.isEmpty then none
      else if items.all Json.isNumber then some .arrayNumber
      else if items.all Json.isStr then some .arrayString
      else if items.all Json.isVector then some .arrayVector
      else if items.all isNumberTriple then some .arrayVector else none := by
    rw [constantType?,hget]
    rfl
  rw [formOf?_arr,htype,ReadsAlike]
  cases items with
  | nil => simp
  | cons v rest =>
    by_cases hnumbers : (v::rest).all Json.isNumber=true
    · simp only [hnumbers]
      simp [ConstantForm.ofType?]
    by_cases htexts : (v::rest).all Json.isStr=true
    · simp only [hnumbers,htexts]
      simp [ConstantForm.ofType?]
    simp only [hnumbers,htexts,List.isEmpty_cons]
    by_cases hvectors : (v::rest).all Json.isVector=true
    · by_cases hitems : (v::rest).all isVectorItem=true <;> simp only [hvectors,hitems] <;> simp [ConstantForm.ofType?]
    by_cases htriples : (v::rest).all isNumberTriple=true
    · by_cases hitems : (v::rest).all isVectorItem=true <;> simp only [hvectors,htriples,hitems] <;>
        simp [ConstantForm.ofType?]
    · by_cases hitems : (v::rest).all isVectorItem=true <;> simp only [hvectors,htriples,hitems] <;>
        simp

theorem formOf?_eq_iff (h : lookup "value" attrs=some value) :
    formOf? value=(constantType? (.obj attrs)).bind ConstantForm.ofType? ↔ ReadsAlike value := by
  cases value with
  | arr items => exact formOf?_arr_iff h
  | obj fields =>
    have hget : (Json.obj attrs).get? "value" = some (.obj fields) := h
    have htype : constantType? (.obj attrs)=if (Json.obj fields).isVector then some .vector else none := by
      rw [constantType?,hget]
      rfl
    refine ⟨fun _ => trivial,fun _ => ?_⟩
    rw [formOf?_obj,htype]
    split_ifs <;> rfl
  | _ =>
    refine ⟨fun _ => trivial,fun _ => ?_⟩
    rw [constantType?,show (Json.obj attrs).get? "value" = _ from h]
    rfl

theorem listContent?_eq_ok {content : Option (ConstantForm×Json)} (h : listContent? items=.ok content) :
    content.map (·.1)=formOf? (.arr items) := by
  rw [formOf?_arr]
  unfold listContent? at h
  split_ifs at h ⊢
  · obtain ⟨numbers,-,h⟩ := bind_eq_ok.1 h
    cases h
    rfl
  · cases h
    rfl
  · obtain ⟨vectors,-,h⟩ := bind_eq_ok.1 h
    cases h
    rfl
  · cases h
    rfl

/-- A value gives an instruction of its form, or none if it has no form. -/
theorem adviseValue_eq_ok {a : Advice ConstantInstruction} (h : adviseValue id newId value=.ok a) :
    (∃ content form, a=.instruct ⟨newId,content,form⟩ ∧ formOf? value=some form) ∨
      (a.instruction?=none ∧ formOf? value=none) := by
  cases value with
  | arr items =>
    obtain ⟨content,hcontent,h⟩ := bind_eq_ok.1 h
    have hform := listContent?_eq_ok hcontent
    cases content with
    | none =>
      cases h
      exact .inr ⟨rfl,hform.symm⟩
    | some content =>
      cases h
      exact .inl ⟨_,_,rfl,hform.symm⟩
  | obj fields =>
    rw [formOf?_obj]
    cases hvector : (Json.obj fields).isVector with
    | true =>
      simp only [adviseValue,hvector] at h
      cases h
      exact .inl ⟨_,_,rfl,rfl⟩
    | false =>
      simp only [adviseValue,hvector] at h
      cases h
      exact .inr ⟨rfl,rfl⟩
  | null =>
    cases h
    exact .inr ⟨rfl,rfl⟩
  | _ =>
    cases h
    exact .inl ⟨_,_,rfl,rfl⟩

theorem mapM_ok_iff {f : α→Except Failure β} {items : List α} :
    (∃ out, items.mapM f=.ok out) ↔ ∀ a∈items, ∃ b, f a=.ok b := by
  induction items with
  | nil => exact ⟨fun _ => nofun,fun _ => ⟨[],rfl⟩⟩
  | cons a rest ih =>
    rw [List.forall_mem_cons,← ih,List.mapM_cons]
    constructor
    · rintro ⟨out,h⟩
      obtain ⟨b,hb,h⟩ := bind_eq_ok.1 h
      obtain ⟨others,hothers,-⟩ := bind_eq_ok.1 h
      exact ⟨⟨b,hb⟩,others,hothers⟩
    · rintro ⟨⟨b,hb⟩,others,hothers⟩
      exact ⟨b::others,bind_eq_ok.2 ⟨b,hb,bind_eq_ok.2 ⟨others,hothers,rfl⟩⟩⟩

theorem bind_pure_ok_iff {x : Except Failure α} {f : α→β} :
    (∃ b, (x >>= fun a => pure (f a))=.ok b) ↔ ∃ a, x=.ok a := by
  cases x with
  | error e => exact ⟨nofun,nofun⟩
  | ok a => exact ⟨fun _ => ⟨a,rfl⟩,fun _ => ⟨f a,rfl⟩⟩

theorem listContent?_ok_iff : (∃ content, listContent? items=.ok content) ↔ Converts (.arr items) := by
  rw [Converts,formOf?_arr]
  unfold listContent?
  split_ifs
  · exact bind_pure_ok_iff.trans mapM_ok_iff
  · exact ⟨fun _ => trivial,fun _ => ⟨_,rfl⟩⟩
  · exact bind_pure_ok_iff.trans mapM_ok_iff
  · exact ⟨fun _ => trivial,fun _ => ⟨_,rfl⟩⟩

theorem adviseValue_ok_iff : (∃ a, adviseValue id newId value=.ok a) ↔ Converts value := by
  cases value with
  | arr items =>
    rw [← listContent?_ok_iff]
    constructor
    · rintro ⟨a,h⟩
      obtain ⟨content,hcontent,-⟩ := bind_eq_ok.1 h
      exact ⟨content,hcontent⟩
    · rintro ⟨content,hcontent⟩
      cases content with
      | none => exact ⟨_,bind_eq_ok.2 ⟨none,hcontent,rfl⟩⟩
      | some content => exact ⟨_,bind_eq_ok.2 ⟨some content,hcontent,rfl⟩⟩
  | obj fields =>
    refine ⟨fun _ => trivial,fun _ => ?_⟩
    rw [show adviseValue id newId (.obj fields)=ite ((Json.obj fields).isVector=true) _ _ from rfl]
    split_ifs
    · exact ⟨_,rfl⟩
    · exact ⟨_,rfl⟩
  | _ => exact ⟨fun _ => trivial,fun _ => ⟨_,rfl⟩⟩

/-- A constant of a graph that holds a value and was made, under an id of its own. -/
structure MadeConstant (placements : Table Placement) (node : Json) (id : String) (attrs : List (String×Json))
    (value : Json) (p : Placement) : Prop where
  named : node.get? "id" = some (.str id)
  kind : ∃ text, node.get? "type" = some (.str text) ∧ Text.lower (Text.trim text) = "constant"
  settings : node.get? "attrs" = some (.obj attrs)
  holds : lookup "value" attrs=some value
  placed : placements.find id=some p
  chip : Text.lower p.friendlyName = "constant"
  made : p.newId.truthy=true
  own : ∀ other q, placements.find other=some q → q.newId=p.newId → other=id

theorem MadeConstant.adviseConstant_eq {id : String} (h : MadeConstant placements node id attrs value p) :
    adviseConstant placements node=adviseValue (.str id) p.newId value := by
  obtain ⟨text,htext,hword⟩ := h.kind
  obtain ⟨fields,rfl⟩ : ∃ fields, node=.obj fields := by
    cases node with
    | obj fields => exact ⟨fields,rfl⟩
    | _ => cases htext
  have htext : lookup "type" fields=some (.str text) := htext
  have hid : lookup "id" fields=some (.str id) := h.named
  have hattrs : lookup "attrs" fields=some (.obj attrs) := h.settings
  unfold adviseConstant
  simp only [fieldOr,field?,Except.map,htext,hattrs,getD_some,Json.text,bind,Except.bind,hword,mentionsValue,
    h.holds,isSome_some,item,hid,toFieldName,h.placed,map_some,h.made]
  rfl

theorem adviseConstant_target {i : ConstantInstruction} (h : adviseConstant placements node=.ok (.instruct i)) :
    ∃ name p, nodeId node=.ok name ∧ placements.find name=some p ∧ i.nodeId=p.newId := by
  obtain ⟨v,text,-,-,h⟩ := bind_bind_eq_ok.1 h
  generalize Text.lower (Text.trim text)=word at h
  by_cases hword : (word != "constant")=true
  · rw [if_pos hword] at h
    cases h
  rw [if_neg hword] at h
  obtain ⟨settings,mentions,-,-,h⟩ := bind_bind_eq_ok.1 h
  cases mentions with
  | false => cases h
  | true =>
    obtain ⟨id,attrs,hid,-,h⟩ := bind_bind_eq_ok.1 h
    obtain ⟨name,hname,h⟩ := bind_eq_ok.1 h
    cases hplaced : placements.find name with
    | none =>
      simp only [hplaced] at h
      cases h
    | some p =>
      simp only [hplaced,map_some] at h
      cases htruthy : p.newId.truthy with
      | false =>
        rw [htruthy] at h
        cases h
      | true =>
        rw [htruthy] at h
        obtain ⟨value,-,h⟩ := bind_eq_ok.1 h
        rcases adviseValue_eq_ok h with ⟨content,form,hi,-⟩ | ⟨hi,-⟩
        · cases hi
          exact ⟨name,p,bind_eq_ok.2 ⟨id,hid,hname⟩,hplaced,rfl⟩
        · cases hi

/-- Each instruction for a node has the form of its type, and there is one if its type has a form. -/
def FormsAgree (instructions : List ConstantInstruction) (newId : Json) (type : Option GateType) : Prop :=
  (∀ i∈instructions, i.nodeId=newId → type=some i.form.type) ∧
    ∀ form : ConstantForm, type=some form.type→∃ i∈instructions, i.nodeId=newId ∧ i.form=form

theorem lookup_toJson (placements : Table Placement) (id : String) :
    lookup id (placements.toList.map fun (id,p) => (id,p.toJson))=(placements.find id).map Placement.toJson := by
  induction placements with
  | nil => rfl
  | cons entry rest ih =>
    obtain ⟨key,p⟩ := entry
    rw [Table.find_cons]
    by_cases hid : key=id
    · simp [Table.toList,lookup,hid]
    · rw [if_neg (Ne.symm hid),← ih]
      simp [Table.toList,lookup,hid]

theorem role_of_placed {id : String} {s : Setting} (h : placements.find id=some p)
    (hs : s.placements=.obj (placements.toList.map fun (id,p) => (id,p.toJson))) :
    ∃ role, s.role id=.ok role ∧ role.chip=p.friendlyName := by
  have hfield : s.placements.field id=.ok p.toJson := by
    rw [hs]
    simp only [field,field?,lookup_toJson,h,map_some,Except.map,getD_some]
  have hrecord : p.toJson.orElse (.obj [])=p.toJson := rfl
  unfold Setting.role
  rw [hfield]
  simp only [bind,Except.bind,hrecord]
  exact ⟨_,rfl,rfl⟩

end

section
variable {graph rules modules node : Json} {placements : Table Placement} {index : Index} {nodes : List Json}
  {ids : List String} {types : Table GateType} {id : String} {attrs : List (String×Json)} {value : Json} {p : Placement}

theorem each_of_listedNodes (h : listedNodes graph=.ok nodes) :
    (((graph.get? "nodes").getD .null).orElse (.arr [])).each=.ok nodes := by
  obtain ⟨v,hv,h⟩ := bind_eq_ok.1 h
  rw [item_eq_ok hv,getD_some,Json.orElse]
  split_ifs with htruthy
  · exact h
  · cases v with
    | arr items =>
      cases items with
      | nil => exact h
      | cons => exact absurd rfl htruthy
    | obj fields =>
      cases fields with
      | nil => exact h
      | cons => exact absurd rfl htruthy
    | str text =>
      have hempty : text = "" := by simpa [truthy] using htruthy
      subst hempty
      exact h
    | _ => cases h

theorem typesOf_constant (hnodes : listedNodes graph=.ok nodes) (hids : nodes.mapM nodeId=.ok ids) (hnodup : ids.Nodup)
    (htypes : typesOf graph placements index rules modules=.ok types) (hmem : node∈nodes)
    (h : MadeConstant placements node id attrs value p) :
    ∃ explicit, explicitType? (.obj attrs)=.ok explicit ∧ types.find id=explicit.or (constantType? (.obj attrs)) := by
  have hne : attrs≠[] := by
    rintro rfl
    cases h.holds
  refine infer_constant htypes (each_of_listedNodes hnodes) hids hnodup hmem h.named h.settings hne fun s hs => ?_
  obtain ⟨role,hrole,hchip⟩ := role_of_placed h.placed hs
  exact ⟨role,hrole,by rw [Role.word,hchip,h.chip]⟩

/-- The instructions with the id of a constant are those that its own value gives. -/
theorem MadeConstant.mem_iff {i : ConstantInstruction} (hids : nodes.mapM nodeId=.ok ids) (hnodup : ids.Nodup)
    (hmem : node∈nodes) (h : MadeConstant placements node id attrs value p) (hi : i.nodeId=p.newId) :
    i∈nodes.filterMap (instructionOf? (adviseConstant placements)) ↔
      adviseConstant placements node=.ok (.instruct i) := by
  simp only [List.mem_filterMap,instructionOf?_eq_some]
  refine ⟨fun ⟨other,hother,hadvice⟩ => ?_,fun hadvice => ⟨node,hmem,hadvice⟩⟩
  obtain ⟨name,q,hname,hq,hnewId⟩ := adviseConstant_target hadvice
  obtain rfl := h.own name q hq (hnewId.symm.trans hi)
  rwa [eq_of_mapM_nodup hids hnodup hother hmem hname (bind_eq_ok.2 ⟨_,item_of_get? h.named,rfl⟩)] at hadvice

/-- Forms and types of a constant agree exactly if its value is written in the form of its type. -/
theorem MadeConstant.formsAgree_iff {instructions : List ConstantInstruction} {type : Option GateType}
    (hnodes : listedNodes graph=.ok nodes) (hids : nodes.mapM nodeId=.ok ids) (hnodup : ids.Nodup) (hmem : node∈nodes)
    (h : MadeConstant placements node id attrs value p)
    (hrun : (constantInstructions graph placements).1=.ok instructions) :
    FormsAgree instructions p.newId type ↔ formOf? value=type.bind ConstantForm.ofType? := by
  rw [constantInstructions,hnodes] at hrun
  obtain ⟨rfl,hall⟩ := advised_eq_ok hrun
  obtain ⟨a,ha⟩ := hall node hmem
  have hforms : ∀ form, (∃ i∈nodes.filterMap (instructionOf? (adviseConstant placements)), i.nodeId=p.newId ∧
      i.form=form) ↔ formOf? value=some form := by
    intro form
    rcases adviseValue_eq_ok (h.adviseConstant_eq ▸ ha) with ⟨content,own,rfl,hown⟩ | ⟨hnone,hown⟩
    · rw [hown,some.injEq]
      constructor
      · rintro ⟨i,hi,hnewId,rfl⟩
        have hadvice := (h.mem_iff hids hnodup hmem hnewId).1 hi
        cases ha.symm.trans hadvice
        rfl
      · rintro rfl
        exact ⟨_,(h.mem_iff hids hnodup hmem rfl).2 ha,rfl,rfl⟩
    · rw [hown]
      refine ⟨fun ⟨i,hi,hnewId,_⟩ => ?_,nofun⟩
      have hadvice := (h.mem_iff hids hnodup hmem hnewId).1 hi
      cases ha.symm.trans hadvice
      cases hnone
  have hagree : FormsAgree (nodes.filterMap (instructionOf? (adviseConstant placements))) p.newId type ↔
      (∀ form, formOf? value=some form → type=some form.type) ∧
        ∀ form : ConstantForm, type=some form.type → formOf? value=some form := by
    simp only [FormsAgree,hforms]
    refine and_congr_left fun _ => ⟨fun hall form hform => ?_,fun hall i hi hnewId => ?_⟩
    · obtain ⟨i,hi,hnewId,rfl⟩ := (hforms form).2 hform
      exact hall i hi hnewId
    · exact hall i.form ((hforms i.form).1 ⟨i,hi,hnewId,rfl⟩)
  rw [hagree,ConstantForm.eq_bind_iff]

/-- Forms and types of a constant agree exactly if its value is read alike, or if its settings ask for the type of the form in
which the value is written. -/
theorem constantInstructions_agree_iff (hnodes : listedNodes graph = .ok nodes) (hids : nodes.mapM nodeId = .ok ids)
    (hnodup : ids.Nodup) (htypes : typesOf graph placements index rules modules = .ok types) (hmem : node ∈ nodes)
    (h : MadeConstant placements node id attrs value p) :
    ∃ explicit, explicitType? (.obj attrs) = .ok explicit ∧
      types.find id = explicit.or (constantType? (.obj attrs)) ∧
      ((∃ a, adviseConstant placements node = .ok a) ↔ Converts value) ∧
      ∀ instructions, (constantInstructions graph placements).1 = .ok instructions →
        (FormsAgree instructions p.newId (types.find id) ↔ TypedAlike explicit value) := by
  obtain ⟨explicit,hexplicit,htype⟩ := typesOf_constant hnodes hids hnodup htypes hmem h
  refine ⟨explicit,hexplicit,htype,by rw [h.adviseConstant_eq,adviseValue_ok_iff],fun instructions hrun => ?_⟩
  rw [h.formsAgree_iff hnodes hids hnodup hmem hrun,htype]
  cases explicit with
  | some t => exact Iff.rfl
  | none => exact formOf?_eq_iff h.holds

end

def constantNode (id : String) (attrs : List (String×Json)) : Json :=
  .obj [("id",.str id),("type",.str "Constant"),("attrs",.obj attrs)]

def constantPlacement (newId : String) : Placement :=
  ⟨"Constant",.str "ConstantNodeViewModel",0,.str newId,some "257",true,none⟩

def textConstants : Json :=
  .obj [("nodes",.arr [constantNode "full" [("value",.arr [.str "p",.str "q"])],
    constantNode "empty" [("data_type",.str "ArrayString"),("value",.arr [])]])]

def textPlacements : Table Placement := [("full",constantPlacement "F"),("empty",constantPlacement "E")]

def textInstructions : List ConstantInstruction :=
  [⟨.str "F",.arr [.str "p",.str "q"],.arrayString⟩,⟨.str "E",.arr [],.arrayNumber⟩]

set_option maxRecDepth 4000 in
theorem typesOf_textConstants : typesOf textConstants textPlacements Table.empty (.obj []) (.obj []) =
    .ok [("full",.arrayString),("empty",.arrayString)] := rfl

set_option maxRecDepth 4000 in
theorem constantInstructions_textConstants :
    (constantInstructions textConstants textPlacements).1=.ok textInstructions := rfl

theorem madeConstant_full : MadeConstant textPlacements (constantNode "full" [("value",.arr [.str "p",.str "q"])]) "full"
    [("value",.arr [.str "p",.str "q"])] (.arr [.str "p",.str "q"]) (constantPlacement "F") where
  named := rfl
  kind := ⟨"Constant",rfl,by decide +kernel⟩
  settings := rfl
  holds := rfl
  placed := rfl
  chip := by decide +kernel
  made := by decide
  own other q hq hnewId := by
    rw [textPlacements,Table.find_cons] at hq
    split_ifs at hq with hfull
    · exact hfull
    · rw [Table.find_cons] at hq
      split_ifs at hq with hempty
      · cases hq
        exact absurd (Json.str.inj hnewId) (by decide)
      · cases hq

theorem constantInstructions_agree_full :
    typesOf textConstants textPlacements Table.empty (.obj []) (.obj []) =
      .ok [("full", .arrayString), ("empty", .arrayString)] ∧
    (constantInstructions textConstants textPlacements).1 = .ok textInstructions ∧
    FormsAgree textInstructions (.str "F") (some .arrayString) := by
  have hnodes : listedNodes textConstants = .ok _ := rfl
  obtain ⟨explicit,hexplicit,-,-,hagree⟩ := constantInstructions_agree_iff hnodes rfl (by decide)
    typesOf_textConstants (List.mem_cons_self ..) madeConstant_full
  cases hexplicit
  have halike : ReadsAlike (.arr [.str "p",.str "q"]) := by decide
  exact ⟨typesOf_textConstants,constantInstructions_textConstants,
    (hagree _ constantInstructions_textConstants).2 halike⟩

/-- An empty list is set as one of numbers, whatever type it has; and lists of vectors are read in two ways if their items
have five coordinates, are mixed, or hold texts. -/
theorem constantInstructions_disagree :
    typesOf textConstants textPlacements Table.empty (.obj []) (.obj []) =
      .ok [("full", .arrayString), ("empty", .arrayString)] ∧
    (constantInstructions textConstants textPlacements).1 = .ok textInstructions ∧
    ¬FormsAgree textInstructions (.str "E") (some .arrayString) ∧
    ¬ReadsAlike (.arr []) ∧
    ¬ReadsAlike (.arr [.arr [.int 1, .int 2, .int 3, .int 4, .int 5]]) ∧
    ¬ReadsAlike (.arr [.obj [("x", .int 1), ("y", .int 2), ("z", .int 3)], .arr [.int 1, .int 2, .int 3]]) ∧
    ¬ReadsAlike (.arr [.arr [.str "1", .str "2", .str "3"]]) := by
  refine ⟨typesOf_textConstants,constantInstructions_textConstants,fun hagree => ?_,by decide,by decide,by decide,
    by decide⟩
  cases hagree.1 ⟨.str "E",.arr [],.arrayNumber⟩ (by simp [textInstructions]) rfl

end ChipForge.Assembly
