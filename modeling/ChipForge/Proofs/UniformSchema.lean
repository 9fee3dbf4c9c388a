import ChipForge.Proofs.Additions
import ChipForge.Proofs.Words
import Mathlib

/-! In a graph that writes types and operations by number, new ends and constants are written by number too. A module
is, unless some node made before it writes a name. Variables always write names and do not count. -/
namespace ChipForge.Save
open Json Wiring Text
open List hiding lookup insert

variable {t : Json} {info : Json} {record : Json} {form : Form} {n : Node} {task : Task}
  {threshold : Option Text.Similarity.Threshold} {schema : Schema} {catalogue : Json} {id request : Json} {wish : Wish}

def isNumeric : Json→Bool
  | .int _ => true
  | .str s => allDigits (trim s) && (readInt? (trim s)).isSome
  | _ => false

/-- A name for a type: a text that is neither blank nor made of digits. -/
def isTypeName : Json→Bool
  | .str s => !(trim s).isEmpty && !allDigits (trim s)
  | _ => false

/-- The ports on a side of a definition have names for types. -/
def NamesTypes (info : Json) (side : String) : Prop :=
  ∀ ports, (info.fieldOr side (.arr []) >>= each)=.ok ports→∀ port∈ports,
    ∃ t, port.fieldOr "type" (.str "DECIMAL")=.ok t ∧ isTypeName t=true

/-- The definition of a module under a number, whose own type is a whole number and whose ports have names for types. -/
structure Numbered (info : Json) : Prop where
  id : ∃ id, info.field "id" = .ok id ∧ isNumeric id=true
  type : ∃ n, info.fieldOr "gate_data_type" (.int 2)=.ok (.int n)
  inputs : NamesTypes info "inputs"
  outputs : NamesTypes info "outputs"

theorem operationOf_of_readInt {n : Int} (hdigits : ∀ s, id=.str s → allDigits (trim s)=true)
    (hread : readInt? (trim id.plain)=some n) : operationOf .numbers info id=.ok (.int n) := by
  unfold operationOf
  cases id with
  | str s =>
    dsimp only
    rw [if_pos (hdigits s rfl)]
    dsimp only
    rw [hread]
    rfl
  | _ =>
    dsimp only
    rw [hread]
    rfl

theorem operationOf_numbers (info : Json) (h : isNumeric id=true) : ∃ n, operationOf .numbers info id=.ok (.int n) := by
  cases id with
  | int n =>
    have hread : readInt? (trim (toString n))=some n := by rw [trim_toString,readInt?_toString]
    exact ⟨n,operationOf_of_readInt nofun hread⟩
  | str s =>
    rw [isNumeric,Bool.and_eq_true] at h
    obtain ⟨hdigits,hread⟩ := h
    obtain ⟨m,hm⟩ := Option.isSome_iff_exists.1 hread
    refine ⟨m,operationOf_of_readInt ?_ hm⟩
    rintro _ ⟨⟩
    exact hdigits
  | _ => cases h

theorem canonicalName?_of_isTypeName (h : isTypeName t=true) : ∃ name, canonicalName? t=.ok (some name) := by
  cases t with
  | str s =>
    rw [isTypeName,Bool.and_eq_true,Bool.not_eq_true',Bool.not_eq_true'] at h
    obtain ⟨hblank,hdigits⟩ := h
    simp only [canonicalName?,hblank,hdigits,Bool.false_eq_true,if_false]
    exact ⟨_,rfl⟩
  | _ => cases h

theorem catalogueType_numbers (h : isTypeName t=true ∨ ∃ n, t=.int n) : ∃ n, catalogueType .numbers t=.ok (.int n) := by
  have hname : ∀ name, canonicalName? t=.ok (some name)→∃ n, catalogueType .numbers t=.ok (.int n) := by
    intro name hname
    by_cases hinteger : (name == "IntegerNumber")=true
    · exact ⟨2,bind_eq_ok.2 ⟨some name,hname,if_pos hinteger⟩⟩
    · exact ⟨_,bind_eq_ok.2 ⟨some name,hname,if_neg hinteger⟩⟩
  rcases h with h | ⟨n,rfl⟩
  · obtain ⟨name,h⟩ := canonicalName?_of_isTypeName h
    exact hname name h
  · cases hcode : GateType.ofCode? n with
    | some g => exact hname g.name (by rw [canonicalName?,hcode]; rfl)
    | none => exact ⟨n,bind_eq_ok.2 ⟨none,by rw [canonicalName?,hcode]; rfl,rfl⟩⟩

theorem catalogueType_names (h : isTypeName t=true) : ∃ s, catalogueType .names t=.ok (.str s) := by
  obtain ⟨name,hname⟩ := canonicalName?_of_isTypeName h
  exact ⟨name,bind_eq_ok.2 ⟨some name,hname,rfl⟩⟩

/-- A form that is written by number throughout. -/
structure Form.InNumbers (form : Form) : Prop where
  operation : ∃ n, form.operation=.int n
  type : ∃ n, form.type=.int n
  inputs : ∀ t∈form.inputs, ∃ n, t=.int n
  outputs : ∀ t∈form.outputs, ∃ n, t=.int n

theorem portTypes_eq_ok {α : Type} {f : α→Json} {side : String} {types : List Json} (hside : NamesTypes info side)
    (h : portTypes schema info side=.ok types)
    (hf : ∀ {t}, isTypeName t=true→∃ x, catalogueType schema t=.ok (f x)) : ∀ t∈types, ∃ x, t=f x := by
  intro t ht
  obtain ⟨list,ports,hlist,hports,h⟩ := bind_bind_eq_ok.1 h
  obtain ⟨i,hi,rfl⟩ := getElem_of_mem ht
  have htypes := forall₂_of_mapM h
  have hport : i < ports.length := htypes.length_eq ▸ hi
  obtain ⟨given,hgiven,htype⟩ := bind_eq_ok.1 (htypes.get hport hi)
  obtain ⟨given',hgiven',hname⟩ := hside ports (bind_eq_ok.2 ⟨list,hlist,hports⟩) _ (getElem_mem hport)
  rw [get_eq_getElem,hgiven'] at hgiven
  cases hgiven
  obtain ⟨x,hx⟩ := hf hname
  exact ⟨x,Except.ok.inj (htype.symm.trans hx)⟩

theorem moduleForm_eq_ok (h : moduleForm schema info=.ok form) :
    ∃ id given, info.field "id" = .ok id ∧ operationOf schema info id=.ok form.operation ∧
      portTypes schema info "inputs" = .ok form.inputs ∧ portTypes schema info "outputs" = .ok form.outputs ∧
      info.fieldOr "gate_data_type" (.int 2)=.ok given ∧ catalogueType schema given=.ok form.type := by
  obtain ⟨id,operation,hid,hoperation,h⟩ := bind_bind_eq_ok.1 h
  obtain ⟨inputs,outputs,hinputs,houtputs,h⟩ := bind_bind_eq_ok.1 h
  obtain ⟨given,type,hgiven,htype,h⟩ := bind_bind_eq_ok.1 h
  cases h
  exact ⟨id,given,hid,hoperation,hinputs,houtputs,hgiven,htype⟩

theorem moduleForm_inNumbers (hinfo : Numbered info) (h : moduleForm .numbers info=.ok form) : form.InNumbers := by
  obtain ⟨id,given,hid,hoperation,hinputs,houtputs,hgiven,htype⟩ := moduleForm_eq_ok h
  have hports {t : Json} (h : isTypeName t=true) := catalogueType_numbers (.inl h)
  refine ⟨?_,?_,portTypes_eq_ok hinfo.inputs hinputs hports,portTypes_eq_ok hinfo.outputs houtputs hports⟩
  · obtain ⟨id',hid',hnumeric⟩ := hinfo.id
    rw [hid] at hid'
    cases hid'
    obtain ⟨n,hn⟩ := operationOf_numbers info hnumeric
    exact ⟨n,Except.ok.inj (hoperation.symm.trans hn)⟩
  · obtain ⟨code,hcode⟩ := hinfo.type
    rw [hgiven] at hcode
    cases hcode
    obtain ⟨n,hn⟩ := catalogueType_numbers (.inr ⟨code,rfl⟩)
    exact ⟨n,Except.ok.inj (htype.symm.trans hn)⟩

theorem moduleForm_names (hinfo : Numbered info) (h : moduleForm .names info=.ok form) :
    ∀ t∈form.inputs++form.outputs, ∃ s, t=.str s := by
  obtain ⟨id,given,-,-,hinputs,houtputs,-,-⟩ := moduleForm_eq_ok h
  intro t ht
  rcases mem_append.1 ht with ht | ht
  · exact portTypes_eq_ok hinfo.inputs hinputs catalogueType_names t ht
  · exact portTypes_eq_ok hinfo.outputs houtputs catalogueType_names t ht

def typesOn (record : Json) (side : String) : List (Option Json) := (itemsOf side record).map (·.get? "DataType")

/-- A record that writes its operation, its type and those of its ports by number. -/
structure InNumbers (record : Json) : Prop where
  operation : ∃ n, record.get? "OperationType" = some (.int n)
  type : ∃ n, record.get? "GateDataType" = some (.int n)
  ports : ∀ t∈typesOn record "Inputs" ++ typesOn record "Outputs", ∃ n, t=some (.int n)

theorem Shows.typesOn_inputs (h : Shows n record) : typesOn record "Inputs" = n.form.inputs.map some := by
  rw [typesOn,itemsOf,h.inputs]
  simp only [Node.inputsJson,Node.form,map_map]
  rfl

theorem Shows.typesOn_outputs (h : Shows n record) : typesOn record "Outputs" = n.form.outputs.map some := by
  rw [typesOn,itemsOf,h.outputs]
  simp only [Node.outputsJson,Node.form,map_map]
  rfl

theorem Shows.inNumbers (h : Shows n record) (hform : n.form.InNumbers) : InNumbers record := by
  obtain ⟨operation,hoperation⟩ := hform.operation
  obtain ⟨type,htype⟩ := hform.type
  refine ⟨⟨operation,h.operation.trans (congrArg some hoperation)⟩,⟨type,h.type.trans (congrArg some htype)⟩,?_⟩
  intro t ht
  rw [h.typesOn_inputs,h.typesOn_outputs,← map_append] at ht
  obtain ⟨given,hgiven,rfl⟩ := mem_map.1 ht
  obtain ⟨n,rfl⟩ := (mem_append.1 hgiven).elim (hform.inputs given) (hform.outputs given)
  exact ⟨n,rfl⟩

theorem field_of_get? {v x : Json} {key : String} (h : v.get? key=some x) : v.field key=.ok x := by
  cases v with
  | obj fields =>
    have hx : lookup key fields=some x := h
    simp [field,field?,hx,Except.map]
  | _ => cases h

theorem orElse_arr (items : List Json) : (Json.arr items).orElse (.arr [])=.arr items := by
  cases items <;> rfl

theorem portsNamed_of_types {ports : List Json} (types : List Json) (hports : ports.map (·.get? "DataType")=types.map some)
    (htypes : ∀ t∈types, ∃ n, t=.int n) : portsNamed ports=.ok false := by
  induction ports generalizing types with
  | nil => rfl
  | cons port rest ih =>
    cases types with
    | nil => cases hports
    | cons t types =>
      obtain ⟨hport,hrest⟩ := List.cons.inj hports
      obtain ⟨n,rfl⟩ := htypes t mem_cons_self
      rw [portsNamed,field_of_get? hport]
      exact ih types hrest fun t ht => htypes t (mem_cons_of_mem _ ht)

/-- A node that is written by number, or one that is a variable, does not tell that the graph writes names. -/
theorem graphNamed_cons_of_shows (h : Shows n record) (hform : n.form.InNumbers ∨ n.form.operation=.str "Variable")
    (rest : List Json) : graphNamed (record::rest)=graphNamed rest := by
  rcases hform with hform | hvariable
  · obtain ⟨operation,hoperation⟩ := hform.operation
    obtain ⟨type,htype⟩ := hform.type
    have hop : record.field "OperationType" = .ok (.int operation) := field_of_get? (h.operation.trans (congrArg some hoperation))
    have hgate : record.field "GateDataType" = .ok (.int type) := field_of_get? (h.type.trans (congrArg some htype))
    have hall : allPorts record=.ok (n.inputs.map InPort.toJson++n.outputs.map OutPort.toJson) := by
      simp only [allPorts,field_of_get? h.inputs,field_of_get? h.outputs,Node.inputsJson,Node.outputsJson,orElse_arr,
        bind,Except.bind]
      rfl
    have hports : portsNamed (n.inputs.map InPort.toJson++n.outputs.map OutPort.toJson)=.ok false := by
      refine portsNamed_of_types (n.form.inputs++n.form.outputs) ?_ fun t ht =>
        (mem_append.1 ht).elim (hform.inputs t) (hform.outputs t)
      simp only [Node.form,map_append,map_map]
      rfl
    have hnot : isVariableNode record=.ok false := by
      rw [isVariableNode,hop]
      rfl
    have hnamed : nodeNamed record=.ok false := by
      rw [nodeNamed,hop]
      show typesNamed record=_
      rw [typesNamed,hgate]
      show (allPorts record >>= portsNamed)=_
      rw [hall]
      exact hports
    rw [graphNamed,hnot]
    show (nodeNamed record >>= fun named => if named then pure true else graphNamed rest)=_
    rw [hnamed]
    rfl
  · have hop : record.field "OperationType" = .ok (.str "Variable") := field_of_get? (h.operation.trans (congrArg some hvariable))
    have hyes : isVariableNode record=.ok true := by
      rw [isVariableNode,hop]
      exact congrArg Except.ok (by decide +kernel)
    rw [graphNamed,hyes]
    rfl

theorem graphNamed_cons_of_named {name : String} (hop : record.field "OperationType" = .ok (.str name))
    (hname : (lower (trim name) == "variable")=false) (rest : List Json) : graphNamed (record::rest)=.ok true := by
  have hother : isVariableNode record=.ok false := by
    rw [isVariableNode,hop]
    exact congrArg Except.ok hname
  have hnamed : nodeNamed record=.ok true := by
    rw [nodeNamed,hop]
    rfl
  rw [graphNamed,hother]
  show (nodeNamed record >>= fun named => if named then pure true else graphNamed rest)=_
  rw [hnamed]
  rfl

theorem graphNamed_append {olds : List Json} (h : graphNamed olds=.ok false) (news : List Json) :
    graphNamed (olds++news)=graphNamed news := by
  induction olds with
  | nil => rfl
  | cons node rest ih =>
    rw [graphNamed] at h
    obtain ⟨isVariable,hvariable,h⟩ := bind_eq_ok.1 h
    rw [cons_append,graphNamed,hvariable]
    cases isVariable with
    | true => exact ih h
    | false =>
      obtain ⟨named,hnamed,h⟩ := bind_eq_ok.1 h
      cases named with
      | true => cases h
      | false =>
        show (nodeNamed node >>= fun named => if named then pure true else graphNamed (rest++news))=_
        rw [hnamed]
        exact ih h

theorem schemaOf_arr {nodes : List Json} :
    schemaOf (.arr nodes)=.ok schema ↔ ∃ named, graphNamed nodes=.ok named ∧ .ofNames named=schema := by
  rw [schemaOf,orElse_arr]
  show (graphNamed nodes >>= fun named => pure (Schema.ofNames named))=_ ↔ _
  exact bind_eq_ok.trans (exists_congr fun _ => and_congr_right fun _ => ⟨Except.ok.inj,congrArg Except.ok⟩)

def Wish.type? : Wish→Option Json
  | .input _ type => some type
  | .output _ type => some type
  | .constant type => some type
  | _ => none

def Task.type? : Task→Option Json
  | .input _ type => some type
  | .output _ type => some type
  | .constant type => some type
  | _ => none

theorem type?_specialWish {word : String} {name type : Json} (h : (specialWish word name type).type?=some t) :
    t=type := by
  unfold specialWish at h
  split_ifs at h <;> cases h <;> rfl

theorem readWish?_type (h : readWish? request=.ok (some wish)) (ht : wish.type?=some t) :
    t=.int 2 ∨ request.get? "dataType" = some t := by
  cases request with
  | str text =>
    rw [readWish?] at h
    cases hform : ShortForm.read? text with
    | some f =>
      rw [hform] at h
      cases h
      exact .inl (type?_specialWish ht)
    | none =>
      rw [hform] at h
      cases h
      cases ht
  | obj fields =>
    obtain ⟨type,-,htype,-,h⟩ := bind_bind_eq_ok.1 h
    cases type with
    | str word =>
      dsimp only at h
      split_ifs at h
      · obtain ⟨name,-,h⟩ := bind_eq_ok.1 h
        obtain ⟨type,htype,h⟩ := bind_eq_ok.1 h
        cases h
        have hgiven := fieldOr_eq_ok htype
        cases hfield : (Json.obj fields).get? "dataType" with
        | none =>
          rw [hfield] at hgiven
          exact .inl ((type?_specialWish ht).trans hgiven)
        | some given =>
          rw [hfield] at hgiven
          exact .inr (congrArg some ((type?_specialWish ht).trans hgiven).symm)
      · obtain ⟨gateType,-,h⟩ := bind_eq_ok.1 h
        obtain ⟨key,value,-,-,h⟩ := bind_bind_eq_ok.1 h
        cases h
        cases ht
      · cases h
    | _ => cases h
  | _ => cases h

theorem taskFor_type {names : Table String} (h : taskFor threshold catalogue names wish=.ok (some task))
    (ht : task.type?=some t) : wish.type?=some t := by
  cases wish with
  | named text =>
    obtain ⟨found,-,h⟩ := bind_eq_ok.1 h
    cases found with
    | none => cases h
    | some id =>
      obtain ⟨info,-,h⟩ := bind_eq_ok.1 h
      cases h
      cases ht
  | odd => cases h
  | _ =>
    cases h
    exact ht

/-- The type of a new end or constant is the one that its request gives, or that of numbers. -/
theorem requestTask_type (h : requestTask threshold catalogue request=.ok (some task)) (ht : task.type?=some t) :
    t=.int 2 ∨ request.get? "dataType" = some t := by
  obtain ⟨entries,names,-,-,h⟩ := bind_bind_eq_ok.1 h
  obtain ⟨wish,hwish,h⟩ := bind_eq_ok.1 h
  cases wish with
  | none => cases h
  | some wish => exact readWish?_type hwish (taskFor_type h ht)

/-- Tasks for what is written by number in a graph of numbers: ends, constants, and modules defined under a number. -/
inductive ByNumber : Task→Prop
  | input (name type : Json) : ByNumber (.input name type)
  | output (name type : Json) : ByNumber (.output name type)
  | constant (type : Json) : ByNumber (.constant type)
  | module (id : String) {info : Json} (hinfo : Numbered info) : ByNumber (.module id info)

theorem formOf_end_inNumbers {nodes : Json} {n : Int} (htype : task.type?=some (.int n))
    (h : formOf .numbers nodes task=.ok form) : form.InNumbers := by
  have hend : endType .numbers (.int n)=.int n := rfl
  cases task with
  | module id info => cases htype
  | input name type =>
    cases htype
    cases h
    exact ⟨⟨256,rfl⟩,⟨n,rfl⟩,by simp,by simp [hend]⟩
  | output name type =>
    cases htype
    cases h
    exact ⟨⟨512,rfl⟩,⟨n,rfl⟩,by simp [hend],by simp⟩
  | constant type =>
    cases htype
    cases h
    exact ⟨⟨257,rfl⟩,⟨n,rfl⟩,by simp,by simp [hend]⟩
  | _ => cases htype

namespace AddRun

variable {requests : List Json} {desk desk' : Desk} (run : AddRun threshold catalogue requests desk desk')

def before (i : Nat) : List Json := (run.pieces.take i).reduceOption.map Piece.record

theorem before_succ (i : Nat) : run.before (i+1)=run.before i++((run.pieces[i]?.join).map Piece.record).toList := by
  rw [before,before,take_add_one,reduceOption_append,map_append]
  cases run.pieces[i]? with
  | none => rfl
  | some piece => cases piece <;> rfl

variable {i : Nat} {p : Piece} (hschema : run.schema=.numbers)
  (htypes : ∀ request∈requests, ∀ t, request.get? "dataType" = some t→∃ n, t=.int n)
  (htask : run.tasks[i]?=some (some task)) (hp : run.pieces[i]?=some (some p))
include hschema

section
include htask hp

include htypes in
/-- Ends and constants are written by number wherever they stand among the requests. -/
theorem end_inNumbers (ht : task.type?=some t) : p.node.form.InNumbers := by
  obtain ⟨task',before,-,htask',-,hmakes,-⟩ := run.carried.makes_at hp
  cases htask.symm.trans htask'
  obtain ⟨request,hrequest,hasked⟩ := run.request_of_task htask
  obtain ⟨n,rfl⟩ : ∃ n, t=.int n := by
    rcases requestTask_type hasked ht with rfl | hgiven
    · exact ⟨2,rfl⟩
    · exact htypes request hrequest t hgiven
  rw [hschema] at hmakes
  exact formOf_end_inNumbers ht hmakes.form

/-- A module is made in the schema of the records made before it. -/
theorem module_form {id : String} (hmodule : task=.module id info) :
    ∃ named, graphNamed (run.before i)=.ok named ∧ moduleForm (.ofNames named) info=.ok p.node.form := by
  obtain ⟨task',nodes,after,htask',hbefore,hmakes,happend⟩ := run.carried.makes_at hp
  cases htask.symm.trans htask'
  have hform := hmakes.form
  subst hmodule
  obtain ⟨schema,hown,hform⟩ := bind_eq_ok.1 hform
  cases nodes with
  | arr items =>
    obtain ⟨olds,holds,rfl⟩ := foldlM_append_eq_ok hbefore
    have hfirst := run.schema_eq
    rw [holds,hschema] at hfirst
    obtain ⟨named,hold,hnumbers⟩ := schemaOf_arr.1 hfirst
    cases named with
    | true => cases hnumbers
    | false =>
      obtain ⟨named,hnamed,rfl⟩ := schemaOf_arr.1 hown
      exact ⟨named,(graphNamed_append hold _).symm.trans hnamed,hform⟩
  | _ => cases happend

include htypes in
theorem byNumber_inNumbers (hbyNumber : ByNumber task) (hbefore : graphNamed (run.before i)=.ok false) :
    p.node.form.InNumbers := by
  cases hbyNumber with
  | module id hinfo =>
    obtain ⟨named,hnamed,hform⟩ := run.module_form hschema htask hp rfl
    cases hbefore.symm.trans hnamed
    exact moduleForm_inNumbers hinfo hform
  | _ => exact run.end_inNumbers hschema htypes htask hp rfl

end

include htypes in
/-- As long as only such tasks and variables come before, nothing that was made tells of names. -/
theorem graphNamed_before (h : ∀ j < i, ∀ t, run.tasks[j]?=some (some t)→ByNumber t ∨ isVariable t=true) :
    graphNamed (run.before i)=.ok false := by
  induction i with
  | zero => rfl
  | succ i ih =>
    have hsofar := ih fun j hj => h j (Nat.lt_succ_of_lt hj)
    rw [before_succ,graphNamed_append hsofar]
    cases hpiece : run.pieces[i]? with
    | none => rfl
    | some piece =>
      cases piece with
      | none => rfl
      | some p =>
        obtain ⟨task,nodes,-,htask,-,hmakes,-⟩ := run.carried.makes_at hpiece
        refine graphNamed_cons_of_shows hmakes.recorded.shows ?_ []
        rcases h i (Nat.lt_succ_self i) task htask with hbyNumber | hvariable
        · exact .inl (run.byNumber_inNumbers hschema htypes htask hpiece hbyNumber hsofar)
        · refine .inr ?_
          cases task with
          | «variable» key gateType value =>
            obtain ⟨g,-,hform⟩ := bind_eq_ok.1 hmakes.form
            exact (congrArg Form.operation (Except.ok.inj hform)).symm
          | _ => cases hvariable

end AddRun

/-- In a graph that writes numbers, and with whole numbers for types in the requests, a new end or constant is written by
number wherever it stands among the requests. A module defined under a number is written by number if nothing made before
it tells of names, and else its ports are written by name. So it is written by number if all modules asked for before it
are defined under numbers. -/
theorem addModules_inNumbers {requests : List Json} {catalogue : Json} {threshold : Option Text.Similarity.Threshold}
    {created : List Created} {desk desk' : Desk} {slot : Slot} {graph nodes : Json}
    (hgraph : heldGraph desk.save = .ok (slot, graph)) (hnodes : graph.item "Nodes" = .ok nodes)
    (hschema : schemaOf nodes = .ok .numbers)
    (htypes : ∀ request ∈ requests, ∀ t, request.get? "dataType" = some t → ∃ n, t = .int n)
    (hrun : result (addModules (.arr requests) catalogue threshold) desk = (.ok created, desk')) :
    ∃ (tasks : List (Option Task)) (records : List (Option Json)) (nodes' rest : Json),
      List.Forall₂ (fun request task => requestTask threshold catalogue request = .ok task) requests tasks ∧
      records.length = requests.length ∧ records.reduceOption.foldlM Json.append nodes = .ok nodes' ∧
      records.reduceOption.map (·.get? "Id") = created.map (fun c => some (.str c.id)) ∧
      desk'.save = setText slot (Json.write addedStyle (graph.set "Nodes" nodes')) rest ∧
      ∀ i task record, tasks[i]? = some (some task) → records[i]? = some (some record) → ByNumber task →
        (∀ t, task.type? = some t → InNumbers record) ∧
        (∀ id info, task = .module id info →
          (graphNamed (records.take i).reduceOption = .ok false ∧ InNumbers record) ∨
          (graphNamed (records.take i).reduceOption = .ok true ∧
            ∀ t ∈ typesOn record "Inputs" ++ typesOn record "Outputs", ∃ s, t = some (.str s))) ∧
        ((∀ j < i, ∀ t, tasks[j]? = some (some t) → ByNumber t ∨ isVariable t = true) → InNumbers record) := by
  obtain ⟨run,rfl⟩ := addModules_run hrun
  obtain ⟨rfl,rfl⟩ := Prod.mk.inj (Except.ok.inj (hgraph.symm.trans run.held))
  cases hnodes.symm.trans run.listed
  have hnumbers : run.schema = .numbers := Except.ok.inj (run.schema_eq.symm.trans hschema)
  refine ⟨run.tasks,run.pieces.map (Option.map Piece.record),run.nodes',run.rest,run.asked,?_,?_,?_,run.save,?_⟩
  · rw [length_map,← run.carried.forall₂.length_eq,run.asked.length_eq]
  · rw [reduceOption_map]
    exact run.carried.append_records
  · rw [reduceOption_map,map_map,map_map]
    exact map_congr_left fun p hp => (run.carried.shows_of_mem (reduceOption_mem_iff.1 hp)).id
  intro i task record htask hrecord hbyNumber
  rw [getElem?_map] at hrecord
  obtain ⟨piece,hpiece,hsome⟩ := Option.map_eq_some_iff.1 hrecord
  obtain ⟨p,rfl,rfl⟩ := Option.map_eq_some_iff.1 hsome
  have hshows := run.carried.shows_of_mem (mem_of_getElem? hpiece)
  have hbefore : (List.take i (run.pieces.map (Option.map Piece.record))).reduceOption = run.before i := by
    rw [← map_take,reduceOption_map]
    rfl
  rw [hbefore]
  refine ⟨fun t ht => hshows.inNumbers (run.end_inNumbers hnumbers htypes htask hpiece ht),?_,?_⟩
  · rintro id info rfl
    obtain ⟨named,hnamed,hform⟩ := run.module_form hnumbers htask hpiece rfl
    have hinfo : Numbered info := by
      cases hbyNumber with
      | module _ hinfo => exact hinfo
    cases named with
    | false => exact .inl ⟨hnamed,hshows.inNumbers (moduleForm_inNumbers hinfo hform)⟩
    | true =>
      refine .inr ⟨hnamed,fun t ht => ?_⟩
      rw [hshows.typesOn_inputs,hshows.typesOn_outputs,← map_append] at ht
      obtain ⟨given,hgiven,rfl⟩ := mem_map.1 ht
      obtain ⟨s,rfl⟩ := moduleForm_names hinfo hform given hgiven
      exact ⟨s,rfl⟩
  · intro hearlier
    exact hshows.inNumbers (run.byNumber_inNumbers hnumbers htypes htask hpiece hbyNumber
      (run.graphNamed_before hnumbers htypes hearlier))

def sumInfo : Json :=
  .obj [("id",.str "7"),("gate_data_type",.int 2),("inputs",.arr [.obj [("name",.str "A"),("type",.str "DECIMAL")]]),
    ("outputs",.arr [.obj [("name",.str "S"),("type",.str "DECIMAL")]]),
    ("source_info",.obj [("chip_names_friendly_name",.str "Sum"),("allmod_viewmodel",.str "SumNode")])]

def pickInfo : Json :=
  .obj [("id",.str "Pick"),("gate_data_type",.int 2),("outputs",.arr [.obj [("name",.str "P"),("type",.str "DECIMAL")]]),
    ("source_info",.obj [("chip_names_friendly_name",.str "Pick"),("allmod_viewmodel",.str "PickNode")])]

def mixedCatalogue : Json := .obj [("Pick",pickInfo),("7",sumInfo)]

def numberedGraph : Json := .obj [("Nodes",.arr [.obj [("Id",.str "A"),("OperationType",.int 256)]])]

def numberedDesk : Desk :=
  ⟨.obj [("saveObjectContainers",.arr [.obj [("saveObjects",.obj [("saveMetaDatas",.arr [
    .obj [("key",.str "chip_graph"),
      ("stringValue",.str "\x7b\"Nodes\": [\x7b\"Id\": \"A\", \"OperationType\": 256\x7d]\x7d")]])])]])],
    fun n => toString n,0,[]⟩

def half : Option Text.Similarity.Threshold := Text.Similarity.Threshold.ofFloat? 0.5

theorem heldGraph_numbered : heldGraph numberedDesk.save=.ok (⟨0,0⟩,numberedGraph) := by cbv

theorem numbered_sum : Numbered sumInfo := by
  refine ⟨⟨.str "7",rfl,by decide +kernel⟩,⟨2,rfl⟩,?_,?_⟩
  all_goals
    intro ports hports port hport
    cases hports
    obtain rfl := mem_singleton.1 hport
    exact ⟨.str "DECIMAL",rfl,by decide +kernel⟩

set_option maxRecDepth 8000 in
theorem requestTask_sum : requestTask half mixedCatalogue (.str "Sum")=.ok (some (.module "7" sumInfo)) := rfl

theorem tasks_of_pair {a b : Json} {x y : Option Task} {tasks : List (Option Task)}
    (h : Forall₂ (fun request task => requestTask threshold catalogue request=.ok task) [a,b] tasks)
    (ha : requestTask threshold catalogue a=.ok x) (hb : requestTask threshold catalogue b=.ok y) : tasks=[x,y] := by
  cases h with
  | cons hfirst h =>
    cases h with
    | cons hsecond h =>
      cases h
      cases ha.symm.trans hfirst
      cases hb.symm.trans hsecond
      rfl

set_option maxRecDepth 8000 in
theorem requestTask_constant : requestTask half mixedCatalogue (.obj [("type",.str "constant"),("dataType",.int 4)]) =
    .ok (some (.constant (.int 4))) := rfl

theorem addModules_inNumbers_sum : ∃ nodes, heldGraph numberedDesk.save = .ok (⟨0, 0⟩, numberedGraph) ∧
    numberedGraph.item "Nodes" = .ok nodes ∧ schemaOf nodes = .ok .numbers ∧ ∃ created desk' record,
      result (addModules (.arr [.obj [("type", .str "constant"), ("dataType", .int 4)], .str "Sum"]) mixedCatalogue half)
        numberedDesk = (.ok created, desk') ∧ record.get? "Id" = some (.str "SumNode : 2") ∧ InNumbers record := by
  have hids : ((result (addModules (.arr [.obj [("type",.str "constant"),("dataType",.int 4)],.str "Sum"])
      mixedCatalogue half) numberedDesk).1.toOption.map fun created => created.map (·.id)) =
        some ["ConstantNodeViewModel : 0","SumNode : 2"] := by decide +kernel
  obtain ⟨created,desk',hrun,hcreated⟩ := result_of_ids hids
  refine ⟨_,heldGraph_numbered,rfl,rfl,created,desk',?_⟩
  have htypes : ∀ request ∈ [Json.obj [("type",.str "constant"),("dataType",.int 4)],.str "Sum"], ∀ t,
      request.get? "dataType" = some t → ∃ n, t = .int n := by
    intro request hrequest t ht
    simp only [mem_cons,not_mem_nil,or_false] at hrequest
    rcases hrequest with rfl | rfl
    · cases ht
      exact ⟨4,rfl⟩
    · cases ht
  obtain ⟨tasks,records,nodes',rest,hasked,hlength,-,hrecords,-,hall⟩ :=
    addModules_inNumbers heldGraph_numbered rfl rfl htypes hrun
  obtain rfl := tasks_of_pair hasked requestTask_constant requestTask_sum
  obtain ⟨first,second,rfl⟩ := length_eq_two.1 hlength
  have hpair : [first,second].reduceOption.map (·.get? "Id") =
      [some (.str "ConstantNodeViewModel : 0"),some (.str "SumNode : 2")] := by
    rw [hrecords,show (fun c : Created => some (Json.str c.id)) = (fun id => some (Json.str id)) ∘ Created.id from rfl,
      ← map_map,hcreated]
    rfl
  obtain ⟨record,rfl⟩ : ∃ record, second = some record := by
    cases second with
    | some record => exact ⟨record,rfl⟩
    | none => cases first <;> simp [List.reduceOption] at hpair
  obtain ⟨constant,rfl⟩ : ∃ constant, first = some constant := by
    cases first with
    | some constant => exact ⟨constant,rfl⟩
    | none => simp [List.reduceOption] at hpair
  obtain ⟨-,hid⟩ : _ ∧ record.get? "Id" = some (.str "SumNode : 2") := by simpa [List.reduceOption] using hpair
  refine ⟨record,hrun,hid,(hall 1 _ record rfl rfl (.module _ numbered_sum)).2.2 fun j hj t ht => ?_⟩
  obtain rfl : j = 0 := by omega
  cases ht
  exact .inl (.constant _)

set_option maxRecDepth 8000 in
theorem requestTask_pick : requestTask half mixedCatalogue (.str "Pick")=.ok (some (.module "Pick" pickInfo)) := rfl

set_option maxRecDepth 8000 in
theorem moduleForm_pick : moduleForm .numbers pickInfo=.ok ⟨.str "Pick",.int 2,[],[.int 2]⟩ := rfl

set_option maxRecDepth 8000 in
theorem moduleForm_sum_names : moduleForm .names sumInfo =
    .ok ⟨.str "Sum",.str "Number",[.str "Number"],[.str "Number"]⟩ := rfl

/-- After a module that is defined under a name, one that is defined under a number is written by name too. -/
theorem addModules_mixed : ∃ node first second rest created desk', heldGraph numberedDesk.save = .ok (⟨0, 0⟩, numberedGraph) ∧
    numberedGraph.item "Nodes" = .ok (.arr [node]) ∧ schemaOf (.arr [node]) = .ok .numbers ∧
    requestTask half mixedCatalogue (.str "Sum") = .ok (some (.module "7" sumInfo)) ∧ Numbered sumInfo ∧
    result (addModules (.arr [.str "Pick", .str "Sum"]) mixedCatalogue half) numberedDesk = (.ok created, desk') ∧
    desk'.save = setText ⟨0, 0⟩ (Json.write addedStyle (numberedGraph.set "Nodes" (.arr [node, first, second]))) rest ∧
    second.get? "Id" = some (.str "SumNode : 2") ∧ ¬InNumbers second := by
  have hids : ((result (addModules (.arr [.str "Pick",.str "Sum"]) mixedCatalogue half) numberedDesk).1.toOption.map
      fun created => created.map (·.id)) = some ["PickNode : 0","SumNode : 2"] := by decide +kernel
  obtain ⟨created,desk',hrun,hcreated⟩ := result_of_ids hids
  obtain ⟨run,hmade⟩ := addModules_run hrun
  obtain ⟨hslot,hgraph⟩ := Prod.mk.inj (Except.ok.inj (run.held.symm.trans heldGraph_numbered))
  have hnodes : run.nodes = .arr [.obj [("Id",.str "A"),("OperationType",.int 256)]] := by
    have hlisted := run.listed
    rw [hgraph] at hlisted
    exact (Except.ok.inj hlisted).symm
  have hschema : run.schema = .numbers := by
    have hown := run.schema_eq
    rw [hnodes] at hown
    exact (Except.ok.inj hown).symm
  have hcarried := run.carried
  rw [tasks_of_pair run.asked requestTask_pick requestTask_sum,hnodes,hschema] at hcarried
  rw [hmade] at hcreated
  have hsave := run.save
  generalize run.pieces = pieces at hcarried hcreated
  generalize run.nodes' = nodes' at hcarried hsave
  cases hcarried with
  | skip hclass => cases hclass
  | @make _ _ _ nodes₁ _ _ p _ _ hmakes _ hnodes₁ hrest =>
    cases hnodes₁
    cases hrest with
    | skip hclass => cases hclass
    | @make _ _ _ nodes₂ _ _ q _ _ hmakes' _ hnodes₂ hrest =>
      cases hnodes₂
      cases hrest
      have hform : p.node.form = ⟨.str "Pick",.int 2,[],[.int 2]⟩ :=
        Except.ok.inj (hmakes.form.symm.trans (bind_eq_ok.2 ⟨.numbers,rfl,moduleForm_pick⟩))
      have hnamed : schemaOf (.arr [.obj [("Id",.str "A"),("OperationType",.int 256)],p.record]) = .ok .names := by
        have hop : p.record.field "OperationType" = .ok (.str "Pick") :=
          field_of_get? (hmakes.recorded.shows.operation.trans (congrArg (fun form => some form.operation) hform))
        have hold : graphNamed [.obj [("Id",.str "A"),("OperationType",.int 256)]] = .ok false := rfl
        exact schemaOf_arr.2 ⟨true,(graphNamed_append hold _).trans (graphNamed_cons_of_named hop (by decide +kernel) []),rfl⟩
      have hform' : q.node.form = ⟨.str "Sum",.str "Number",[.str "Number"],[.str "Number"]⟩ :=
        Except.ok.inj (hmakes'.form.symm.trans (bind_eq_ok.2 ⟨.names,hnamed,moduleForm_sum_names⟩))
      have hshows := hmakes'.recorded.shows
      obtain ⟨-,hid⟩ : p.node.id = "PickNode : 0" ∧ q.node.id = "SumNode : 2" := by
        simpa [List.reduceOption,Piece.created] using hcreated
      refine ⟨_,p.record,q.record,run.rest,created,desk',heldGraph_numbered,rfl,rfl,requestTask_sum,numbered_sum,
        hrun,?_,?_,fun hnumbers => ?_⟩
      · rw [hsave,hslot,hgraph]
        rfl
      · rw [hshows.id,hid]
      · obtain ⟨n,hn⟩ := hnumbers.ports (some (.str "Number")) (by rw [hshows.typesOn_inputs,hform']; simp)
        cases hn

end ChipForge.Save
