import ChipForge.Proofs.EditRuns
import ChipForge.Proofs.Fields
import ChipForge.Proofs.Ports
import ChipForge.Save.Adder
import Mathlib.Data.List.ReduceOption

/-! What a task makes depends on the task, on the schema of the graph, and for a module on the nodes that stand in the
graph by then. Each new node is named by its class and an id drawn for it, and its record comes last. -/
namespace ChipForge.Text
open List

variable {part : List Char}

theorem isPrefixOf_append {text : List Char} (tail : List Char) (h : part.length ≤ text.length) :
    part.isPrefixOf (text++tail)=part.isPrefixOf text := by
  rw [Bool.eq_iff_iff, isPrefixOf_iff_prefix, isPrefixOf_iff_prefix]
  constructor
  · exact fun hpart => prefix_of_prefix_length_le hpart (prefix_append text tail) h
  · exact fun hpart => hpart.trans (prefix_append text tail)

theorem findFrom_append (hpart : part≠[]) (text tail : List Char) (n : Nat) :
    ∃ i ≤ text.length, findFrom part n (text++part)=some (n+i) ∧ findFrom part n (text++part++tail)=some (n+i) := by
  induction text generalizing n with
  | nil =>
    obtain ⟨c,rest,rfl⟩ := exists_cons_of_ne_nil hpart
    refine ⟨0,Nat.le_refl 0,?_,?_⟩
    · simp [findFrom]
    · rw [nil_append,cons_append,findFrom,← cons_append,isPrefixOf_append tail (Nat.le_refl _)]
      simp
  | cons c rest ih =>
    have hlength : part.length≤(c::(rest++part)).length := by
      simp only [length_cons,length_append]
      omega
    have hsame : part.isPrefixOf (c::(rest++part++tail))=part.isPrefixOf (c::(rest++part)) :=
      isPrefixOf_append tail hlength
    rw [cons_append,cons_append,findFrom,findFrom,hsame]
    by_cases h : part.isPrefixOf (c::(rest++part))
    · exact ⟨0,Nat.zero_le _,if_pos h,if_pos h⟩
    · obtain ⟨i,hi,hshort,hlong⟩ := ih (n+1)
      have hcount : n+1+i=n+(i+1) := by omega
      exact ⟨i+1,Nat.succ_le_succ hi,by rw [if_neg h,hshort,hcount],by rw [if_neg h,hlong,hcount]⟩

/-- The part before the first separator is the same whatever follows some separator. -/
theorem firstPart_append {sep : String} (hsep : sep.isEmpty=false) (text tail : String) :
    firstPart (text++sep++tail) sep=firstPart (text++sep) sep := by
  have hne : sep.toList≠[] := by simpa using hsep
  obtain ⟨i,hi,hshort,hlong⟩ := findFrom_append hne text.toList tail.toList 0
  rw [Nat.zero_add] at hshort hlong
  have hlength : i≤(text.toList++sep.toList).length := by
    rw [length_append]
    omega
  simp only [firstPart,hsep,Bool.false_eq_true,if_false,cut,String.toList_append,hshort,hlong]
  rw [take_append_of_le_length hlength]

end ChipForge.Text

namespace ChipForge.Save
open Json Wiring

variable {desk desk' : Desk} {schema : Schema} {d d' : Draft} {name type : Json} {made : EndEntry×Node} {node : Node}
  {key : String} {record : Json} {desk₁ : Desk} {α : Type} {className : String} {value info nodes : Json} {task : Task}
  {items : List Json}

/-- What a node does, by its operation and the types in it. -/
structure Form where
  operation : Json
  type : Json
  inputs : List Json
  outputs : List Json

def Node.form (n : Node) : Form := ⟨n.operation,n.type,n.inputs.map (·.type),n.outputs.map (·.type)⟩

/-- How a schema writes an operation that has a name and a number. -/
def Schema.operation (schema : Schema) (name : String) (code : Int) : Json :=
  if schema == .names then .str name else .int code

def portTypes (schema : Schema) (info : Json) (side : String) : Except Failure (List Json) := do
  (← (← info.fieldOr side (.arr [])).each).mapM fun port => do
    catalogueType schema (← port.fieldOr "type" (.str "DECIMAL"))

def moduleForm (schema : Schema) (info : Json) : Except Failure Form := do
  let operation ← operationOf schema info (← info.field "id")
  let inputs ← portTypes schema info "inputs"
  let outputs ← portTypes schema info "outputs"
  pure ⟨operation,← catalogueType schema (← info.fieldOr "gate_data_type" (.int 2)),inputs,outputs⟩

/-- The form of what a task makes. Ends and constants follow the schema of the graph as it was at first, modules follow
that of the nodes there are, and variables are written by name. -/
def formOf (schema : Schema) (nodes : Json) : Task→Except Failure Form
  | .module _ info => do moduleForm (← schemaOf nodes) info
  | .input _ type => .ok ⟨schema.operation "Root" 256,endType schema type,[],[endType schema type]⟩
  | .output _ type => .ok ⟨schema.operation "Exit" 512,endType schema type,[endType schema type],[]⟩
  | .constant type => .ok ⟨schema.operation "Constant" 257,endType schema type,[],[endType schema type]⟩
  | .variable _ gateType _ => do
    let g ← variableType gateType
    pure ⟨.str "Variable",.str g.name,[.str g.name,.str "Number"],[.str g.name]⟩

/-- The class of the node that a task makes, none if it makes no node. -/
def taskClass : Task→Except Failure (Option Json)
  | .module id info => do
    let source ← info.fieldOr "source_info" (.obj [])
    let name ← source.fieldOr "allmod_viewmodel" (.str ("Module_" ++ id))
    pure (if (← info.field "id").isNull then none else some name)
  | .input _ _ => .ok (some (.str "RootNodeViewModel"))
  | .output _ _ => .ok (some (.str "ExitNodeViewModel"))
  | .constant _ => .ok (some (.str "ConstantNodeViewModel"))
  | .variable key _ _ =>
    match key with
    | .str s => .ok (if s.isEmpty then none else some (.str "VariableNodeViewModel"))
    | _ => .ok none

def Node.settledJson (n : Node) (y : Json) : Json :=
  .obj [("Id",.str n.id),("OperationType",n.operation),("Inputs",n.inputsJson),("Outputs",n.outputsJson),
    ("MechanicConnectionId",n.connection),("GateDataType",n.type),("SaveData",n.data),
    ("VisualPosition",.obj [("x",.float 1000.0),("y",y)]),("VisualCollapsed",.bool false),
    ("ModelVersion",.int 1),("Version",.str "0.1")]

/-- Records under which a node stands in a graph. -/
inductive Recorded (n : Node) : Json→Prop
  | settled (y : Number) : Recorded n (n.settledJson y.toJson)
  | placed (version : Int) (x : Float) (y : Number) : Recorded n (n.toJsonAt version (.float x) y.toJson)

/-- A record that shows a node. -/
structure Shows (n : Node) (record : Json) : Prop where
  id : record.get? "Id" = some (.str n.id)
  operation : record.get? "OperationType" = some n.operation
  inputs : record.get? "Inputs" = some n.inputsJson
  outputs : record.get? "Outputs" = some n.outputsJson
  type : record.get? "GateDataType" = some n.type

theorem Recorded.shows {n : Node} (h : Recorded n record) : Shows n record := by
  cases h with
  | settled y => exact ⟨rfl,rfl,rfl,rfl,rfl⟩
  | placed version x y => exact ⟨rfl,rfl,rfl,rfl,rfl⟩

theorem settle_toJson (n : Node) (y : Json) : settle n.toJson y=.ok (n.settledJson y) := rfl

theorem settle_variableJson (n : Node) (x y y' : Json) :
    settle (variableJson n x y) y'=.ok (n.toJsonAt 2 (.float 1000.0) y') := rfl

/-- The entry of an end, which has the key and the type of its node. -/
def endRecord (name : Json) (n : Node) : Json :=
  .obj [("Key",n.connection),("DataName",.str ("#" ++ name.plain)),("SerializedValue",.str plainSetting),
    ("GateDataType",n.type)]

/-- An edit may have drawn ids; the supply and the save are as they were. -/
structure Draws (desk desk' : Desk) : Prop where
  supply : desk'.supply=desk.supply
  save : desk'.save=desk.save
  drawn : desk.drawn ≤ desk'.drawn

theorem Draws.refl (desk : Desk) : Draws desk desk := ⟨rfl,rfl,Nat.le_refl _⟩

theorem Draws.trans {desk₂ : Desk} (h : Draws desk desk₁) (h' : Draws desk₁ desk₂) : Draws desk desk₂ :=
  ⟨h'.supply.trans h.supply,h'.save.trans h.save,Nat.le_trans h.drawn h'.drawn⟩

/-- A node of a class and a form that was made under an id drawn for it. -/
structure IsNew (desk : Desk) (className : String) (form : Form) (node : Node) (draw : Nat) (desk' : Desk) : Prop where
  form : node.form=form
  id : node.id=className ++ " : " ++ desk.supply draw
  draws : Draws desk desk'
  lower : desk.drawn ≤ draw
  upper : draw < desk'.drawn

@[simp] theorem result_say_bind (line : String) (f : Unit→Edit α) (desk : Desk) :
    result (say line >>= f) desk=result (f ()) { desk with said := desk.said++[line ++ "\n"] } := rfl

@[simp] theorem result_freshId_bind (f : String→Edit α) (desk : Desk) :
    result (freshId >>= f) desk=result (f (desk.supply desk.drawn)) { desk with drawn := desk.drawn+1 } := rfl

theorem freshKey_draws (h : result (freshKey name) desk=(.ok key,desk')) : Draws desk desk' := by
  obtain ⟨word,-,h⟩ := result_lift_bind_eq_ok.1 h
  rw [result_freshId_bind,result_pure] at h
  obtain ⟨-,rfl⟩ := Prod.mk.inj h
  exact ⟨rfl,rfl,Nat.le_succ desk.drawn⟩

/-- Making an end draws an id for its key, one for the node and one for its port. -/
theorem isNew_of_freshKey {form : Form} (hkey : result (freshKey name) desk=(.ok key,desk₁)) (hform : node.form=form)
    (hid : node.id=className ++ " : " ++ desk₁.supply desk₁.drawn) :
    ∃ draw, IsNew desk className form node draw { desk₁ with drawn := desk₁.drawn+2 } := by
  have hdraws := freshKey_draws hkey
  exact ⟨desk₁.drawn,hform,hdraws.supply ▸ hid,hdraws.trans ⟨rfl,rfl,Nat.le_add_right _ 2⟩,hdraws.drawn,
    Nat.lt_add_of_pos_right (Nat.succ_pos 1)⟩

theorem makeInput_isNew (h : result (makeInput name type schema) desk=(.ok made,desk')) :
    (∃ key, made.2.connection=.str key) ∧ made.1.toJson=endRecord name made.2 ∧ ∃ draw, IsNew desk "RootNodeViewModel"
      ⟨schema.operation "Root" 256,endType schema type,[],[endType schema type]⟩ made.2 draw desk' := by
  obtain ⟨key,desk₁,hkey,h⟩ := result_bind_eq_ok.1 h
  rw [result_freshId_bind,result_freshId_bind] at h
  cases h
  exact ⟨⟨key,rfl⟩,rfl,isNew_of_freshKey hkey rfl (congrArg (·++_) (by decide))⟩

theorem makeOutput_isNew (h : result (makeOutput name type schema) desk=(.ok made,desk')) :
    (∃ key, made.2.connection=.str key) ∧ made.1.toJson=endRecord name made.2 ∧ ∃ draw, IsNew desk "ExitNodeViewModel"
      ⟨schema.operation "Exit" 512,endType schema type,[endType schema type],[]⟩ made.2 draw desk' := by
  obtain ⟨key,desk₁,hkey,h⟩ := result_bind_eq_ok.1 h
  rw [result_freshId_bind,result_freshId_bind] at h
  cases h
  exact ⟨⟨key,rfl⟩,rfl,isNew_of_freshKey hkey rfl (congrArg (·++_) (by decide))⟩

theorem makeConstant_isNew (h : result (makeConstant value type schema) desk=(.ok node,desk')) :
    ∃ draw, IsNew desk "ConstantNodeViewModel"
      ⟨schema.operation "Constant" 257,endType schema type,[],[endType schema type]⟩ node draw desk' := by
  rw [makeConstant,result_freshId_bind,result_freshId_bind] at h
  cases h
  refine ⟨desk.drawn,rfl,?_,⟨rfl,rfl,Nat.le_add_right _ 2⟩,Nat.le_refl _,
    Nat.lt_add_of_pos_right (Nat.succ_pos 1)⟩
  rw [show "ConstantNodeViewModel" ++ " : " = "ConstantNodeViewModel : " by decide]

theorem makeVariable_isNew {key : Json} (h : result (makeVariable key type .names) desk=(.ok node,desk')) :
    node.connection=key ∧ ∃ g draw, variableType type=.ok g ∧
      IsNew desk "VariableNodeViewModel" ⟨.str "Variable",.str g.name,[.str g.name,.str "Number"],[.str g.name]⟩
        node draw desk' := by
  obtain ⟨g,hg,h⟩ := result_lift_bind_eq_ok.1 h
  rw [result_freshId_bind,result_freshId_bind,result_freshId_bind,
    result_freshId_bind] at h
  cases h
  refine ⟨rfl,g,desk.drawn,hg,rfl,?_,⟨rfl,rfl,Nat.le_add_right _ 4⟩,Nat.le_refl _,
    Nat.lt_add_of_pos_right (Nat.succ_pos 3)⟩
  rw [show "VariableNodeViewModel" ++ " : " = "VariableNodeViewModel : " by decide]

/-- Each port has the type that the catalogue gives it in the schema. -/
theorem makePorts_eq_ok {make : String→Json→α} (typeOf : α→Json) (hmake : ∀ id t, typeOf (make id t)=t)
    {nodeId side word : String} {ports : List Json} {made : List α}
    (h : result (makePorts make nodeId side word schema ports) desk=(.ok made,desk')) :
    Draws desk desk' ∧ (ports.mapM fun port => do catalogueType schema (← port.fieldOr "type" (.str "DECIMAL"))) =
      .ok (made.map typeOf) := by
  induction ports generalizing made desk with
  | nil =>
    cases h
    exact ⟨.refl _,rfl⟩
  | cons port rest ih =>
    obtain ⟨type,htype,h⟩ := result_lift_bind_eq_ok.1 h
    obtain ⟨name,-,h⟩ := result_lift_bind_eq_ok.1 h
    rw [result_freshId_bind] at h
    obtain ⟨t,ht,h⟩ := result_lift_bind_eq_ok.1 h
    obtain ⟨others,desk₁,hothers,h⟩ := result_bind_eq_ok.1 h
    cases h
    obtain ⟨hdraws,htypes⟩ := ih hothers
    refine ⟨⟨hdraws.supply,hdraws.save,Nat.le_trans (Nat.le_succ _) hdraws.drawn⟩,?_⟩
    rw [List.mapM_cons]
    refine bind_eq_ok.2 ⟨t,bind_eq_ok.2 ⟨type,htype,ht⟩,bind_eq_ok.2 ⟨_,htypes,?_⟩⟩
    rw [List.map_cons,hmake]
    rfl

theorem makeModule_isNew {made : Option (Node×Number)} (h : result (makeModule name info nodes) desk=(.ok made,desk')) :
    ∃ schema id, schemaOf nodes=.ok schema ∧ info.field "id" = .ok id ∧ made.isNone=id.isNull ∧
      (made=none→Draws desk desk') ∧
      ∀ node y, made=some (node,y)→∃ form draw, moduleForm schema info=.ok form ∧
        IsNew desk name.plain form node draw desk' := by
  obtain ⟨schema,hschema,h⟩ := result_lift_bind_eq_ok.1 h
  obtain ⟨id,hid,h⟩ := result_lift_bind_eq_ok.1 h
  refine ⟨schema,id,hschema,hid,?_⟩
  cases hnull : id.isNull with
  | true =>
    rw [hnull] at h
    cases h
    exact ⟨rfl,fun _ => ⟨rfl,rfl,Nat.le_refl _⟩,fun _ _ h => nomatch h⟩
  | false =>
    rw [hnull] at h
    obtain ⟨operation,hoperation,h⟩ := result_lift_bind_eq_ok.1 h
    rw [result_freshId_bind,result_say_bind] at h
    obtain ⟨list,hlist,h⟩ := result_lift_bind_eq_ok.1 h
    obtain ⟨ports,hports,h⟩ := result_lift_bind_eq_ok.1 h
    obtain ⟨inputs,desk₁,hinputs,h⟩ := result_bind_eq_ok.1 h
    obtain ⟨list',hlist',h⟩ := result_lift_bind_eq_ok.1 h
    obtain ⟨ports',hports',h⟩ := result_lift_bind_eq_ok.1 h
    obtain ⟨outputs,desk₂,houtputs,h⟩ := result_bind_eq_ok.1 h
    obtain ⟨y,-,h⟩ := result_lift_bind_eq_ok.1 h
    obtain ⟨code,hcode,h⟩ := result_lift_bind_eq_ok.1 h
    obtain ⟨type,htype,h⟩ := result_lift_bind_eq_ok.1 h
    cases h
    refine ⟨rfl,fun h => (nomatch h),?_⟩
    rintro node y ⟨⟩
    obtain ⟨hdraws,hinputTypes⟩ := makePorts_eq_ok InPort.type (fun _ _ => rfl) hinputs
    obtain ⟨hdraws',houtputTypes⟩ := makePorts_eq_ok OutPort.type (fun _ _ => rfl) houtputs
    have hform : moduleForm schema info =
        .ok ⟨operation,type,inputs.map InPort.type,outputs.map OutPort.type⟩ :=
      bind_eq_ok.2 ⟨id,hid,bind_eq_ok.2 ⟨operation,hoperation,
        bind_eq_ok.2 ⟨_,bind_eq_ok.2 ⟨list,hlist,bind_eq_ok.2 ⟨ports,hports,hinputTypes⟩⟩,
        bind_eq_ok.2 ⟨_,bind_eq_ok.2 ⟨list',hlist',bind_eq_ok.2 ⟨ports',hports',houtputTypes⟩⟩,
        bind_eq_ok.2 ⟨code,hcode,bind_eq_ok.2 ⟨type,htype,rfl⟩⟩⟩⟩⟩⟩
    have hall := hdraws.trans hdraws'
    exact ⟨_,desk.drawn,hform,rfl,rfl,⟨hall.supply,hall.save,Nat.le_trans (Nat.le_succ _) hall.drawn⟩,
      Nat.le_refl _,hall.drawn⟩

/-- A node that was made, with its record and the number of the id that was drawn for it. -/
structure Piece where
  node : Node
  className : Json
  record : Json
  draw : Nat

def Piece.created (p : Piece) : Created := ⟨p.className,p.node.id⟩

/-- The node of an end has a key, and that of a variable has the key of the variable. -/
def Linked : Task→Node→Prop
  | .input _ _, node => ∃ key, node.connection=.str key
  | .output _ _, node => ∃ key, node.connection=.str key
  | .variable key _ _, node => node.connection=key
  | _, _ => True

/-- What a task makes beside the nodes there are. -/
structure Makes (supply : Nat→String) (schema : Schema) (nodes : Json) (task : Task) (p : Piece) : Prop where
  className : taskClass task=.ok (some p.className)
  form : formOf schema nodes task=.ok p.node.form
  recorded : Recorded p.node p.record
  id : p.node.id=p.className.plain ++ " : " ++ supply p.draw
  linked : Linked task p.node

/-- The two sides of a chip. -/
inductive Side
  | input
  | output
deriving DecidableEq

def Side.listName : Side→String
  | .input => "chip_inputs"
  | .output => "chip_outputs"

def Side.name? : Side→Task→Option Json
  | .input, .input name _ => some name
  | .output, .output name _ => some name
  | _, _ => none

def Side.isEnd (side : Side) (task : Task) : Bool := (side.name? task).isSome

def Draft.ends (d : Draft) : Side→Json
  | .input => d.inputs
  | .output => d.outputs

def Side.entries (side : Side) : Option Task→Option Piece→List Json
  | some task, some p => ((side.name? task).map (endRecord · p.node)).toList
  | _, _ => []

/-- What a task does to the definitions of variables. -/
def enterTask (definitions : Json) : Task→Except Failure Json
  | .variable (.str key) gateType value =>
    if key.isEmpty then .ok definitions else enterDefinition definitions key gateType value
  | _ => .ok definitions

/-- The lists of a draft grow by what a task enters. -/
structure Enters (d : Draft) (task : Task) (made : Option Piece) (d' : Draft) : Prop where
  ends : ∀ side : Side, (side.entries (some task) made).foldlM Json.append (d.ends side)=.ok (d'.ends side)
  definitions : enterTask d.definitions task=.ok d'.definitions

/-- One task of a run: it makes a node, which is noted and whose record comes last, or nothing. -/
inductive Step (schema : Schema) (desk : Desk) (d : Draft) (task : Task) (desk' : Desk) (d' : Draft) : Option Piece→Prop
  | skip (hclass : taskClass task=.ok none) (hdraws : Draws desk desk') (hcreated : d'.created=d.created)
      (hnodes : d'.nodes=d.nodes) (henters : Enters d task none d') : Step schema desk d task desk' d' none
  | make {p : Piece} (hmakes : Makes desk.supply schema d.nodes task p) (hcreated : d'.created=d.created++[p.created])
      (hnodes : d.nodes.append p.record=.ok d'.nodes) (hdraws : Draws desk desk')
      (hlower : desk.drawn ≤ p.draw) (hupper : p.draw < desk'.drawn) (henters : Enters d task (some p) d') :
      Step schema desk d task desk' d' (some p)

theorem place_eq_ok {node : Json} (h : d.place node=.ok d') (hrecord : settle node d.nextY.toJson=.ok record) :
    d'.created=d.created ∧ (∀ side, d'.ends side=d.ends side) ∧ d'.definitions=d.definitions ∧
      d.nodes.append record=.ok d'.nodes := by
  obtain ⟨settled,hsettled,h⟩ := bind_eq_ok.1 h
  rw [hrecord] at hsettled
  cases hsettled
  obtain ⟨nodes,hnodes,h⟩ := bind_eq_ok.1 h
  cases h
  exact ⟨rfl,fun side => by cases side <;> rfl,rfl,hnodes⟩

/-- How a node that was made is placed and noted. -/
def Draft.placeNew (d : Draft) (said added className : String) (record : Json) (id : String) : Edit Draft := do
  sayNew said
  let d ← d.place record
  sayAdded added
  pure (d.note (.str className) id)

theorem IsNew.step {d₁ : Draft} {form : Form} {draw : Nat} {said added : String} {json : Json}
    (h : IsNew desk className form node draw desk₁) (hclass : taskClass task=.ok (some (.str className)))
    (hform : formOf schema d.nodes task=.ok form)
    (hplace : result (d₁.placeNew said added className json node.id) desk₁=(.ok d',desk'))
    (hjson : settle json d₁.nextY.toJson=.ok record) (hrecord : Recorded node record) (hcreated : d₁.created=d.created)
    (hnodes : d₁.nodes=d.nodes) (hlinked : Linked task node)
    (hends : ∀ side : Side, ((side.name? task).map (endRecord · node)).toList.foldlM Json.append (d.ends side)=.ok (d₁.ends side))
    (hdefinitions : enterTask d.definitions task=.ok d₁.definitions) :
    ∃ p, Step schema desk d task desk' d' (some p) := by
  rw [Draft.placeNew,sayNew,result_say_bind] at hplace
  obtain ⟨d₂,hplaced,hpure⟩ := result_lift_bind_eq_ok.1 hplace
  cases hpure
  obtain ⟨hsame,hsides,hdefined,happend⟩ := place_eq_ok hplaced hjson
  refine ⟨⟨node,.str className,record,draw⟩,
    .make ⟨hclass,?_,hrecord,h.id,hlinked⟩ ?_ ?_ (h.draws.trans ⟨rfl,rfl,Nat.le_refl _⟩) h.lower h.upper
    ⟨fun side => ?_,hdefinitions.trans (congrArg _ hdefined.symm)⟩⟩
  · rw [hform,← h.form]
  · exact congrArg (·++_) (hsame.trans hcreated)
  · rw [← hnodes]
    exact happend
  · exact (hends side).trans (congrArg _ (hsides side).symm)

theorem addInput_step (h : result (addInput d name type schema) desk=(.ok d',desk')) :
    ∃ p, Step schema desk d (.input name type) desk' d' (some p) := by
  obtain ⟨⟨entry,node⟩,desk₁,hmake,h⟩ := result_bind_eq_ok.1 h
  obtain ⟨inputs,happend,h⟩ := result_lift_bind_eq_ok.1 h
  obtain ⟨hlinked,hentry,draw,hnew⟩ := makeInput_isNew hmake
  rw [show entry.toJson=endRecord name node from hentry] at happend
  refine hnew.step rfl rfl h (settle_toJson _ _) (.settled _) rfl rfl hlinked (fun side => ?_) rfl
  cases side with
  | input => exact bind_eq_ok.2 ⟨inputs,happend,rfl⟩
  | output => rfl

theorem addOutput_step (h : result (addOutput d name type schema) desk=(.ok d',desk')) :
    ∃ p, Step schema desk d (.output name type) desk' d' (some p) := by
  obtain ⟨⟨entry,node⟩,desk₁,hmake,h⟩ := result_bind_eq_ok.1 h
  obtain ⟨outputs,happend,h⟩ := result_lift_bind_eq_ok.1 h
  obtain ⟨hlinked,hentry,draw,hnew⟩ := makeOutput_isNew hmake
  rw [show entry.toJson=endRecord name node from hentry] at happend
  refine hnew.step rfl rfl h (settle_toJson _ _) (.settled _) rfl rfl hlinked (fun side => ?_) rfl
  cases side with
  | input => rfl
  | output => exact bind_eq_ok.2 ⟨outputs,happend,rfl⟩

theorem addConstant_step (h : result (addConstant d type schema) desk=(.ok d',desk')) :
    ∃ p, Step schema desk d (.constant type) desk' d' (some p) := by
  obtain ⟨node,desk₁,hmake,h⟩ := result_bind_eq_ok.1 h
  obtain ⟨draw,hnew⟩ := makeConstant_isNew hmake
  -- Here the class is read back off the id.
  have hname : Text.firstPart node.id " : " = "ConstantNodeViewModel" := by
    rw [hnew.id,Text.firstPart_append rfl]
    decide
  rw [hname] at h
  exact hnew.step rfl rfl h (settle_toJson _ _) (.settled _) rfl rfl trivial (fun side => by cases side <;> rfl) rfl

theorem addVariable_step {gateType : Json} (hkey : key.isEmpty=false)
    (h : result (addVariable d key gateType value) desk=(.ok d',desk')) :
    ∃ p, Step schema desk d (.variable (.str key) gateType value) desk' d' (some p) := by
  obtain ⟨definitions,hdefinitions,h⟩ := result_lift_bind_eq_ok.1 h
  obtain ⟨node,desk₁,hmake,h⟩ := result_bind_eq_ok.1 h
  obtain ⟨hlinked,g,draw,hg,hnew⟩ := makeVariable_isNew hmake
  exact hnew.step (by simp [taskClass,hkey]) (bind_eq_ok.2 ⟨g,hg,rfl⟩) h (settle_variableJson _ _ _ _)
    (.placed _ _ _) rfl rfl hlinked (fun side => by cases side <;> rfl)
    (by simpa [enterTask,hkey] using hdefinitions)

theorem addModule_step {id : String} (h : result (addModule d id info) desk=(.ok d',desk')) :
    ∃ made, Step schema desk d (.module id info) desk' d' made := by
  obtain ⟨source,hsource,h⟩ := result_lift_bind_eq_ok.1 h
  obtain ⟨name,hname,h⟩ := result_lift_bind_eq_ok.1 h
  obtain ⟨made,desk₁,hmake,h⟩ := result_bind_eq_ok.1 h
  obtain ⟨own,moduleId,hown,hid,hnull,hdraws,hnew⟩ := makeModule_isNew hmake
  have hclass : taskClass (.module id info)=.ok (if moduleId.isNull then none else some name) :=
    bind_eq_ok.2 ⟨source,hsource,bind_eq_ok.2 ⟨name,hname,bind_eq_ok.2 ⟨moduleId,hid,rfl⟩⟩⟩
  cases made with
  | none =>
    cases h
    rw [← hnull] at hclass
    exact ⟨none,.skip hclass (hdraws rfl) rfl rfl ⟨fun _ => rfl,rfl⟩⟩
  | some made =>
    obtain ⟨node,y⟩ := made
    obtain ⟨form,draw,hform,hnew⟩ := hnew node y rfl
    obtain ⟨nodes,hnodes,h⟩ := result_lift_bind_eq_ok.1 h
    rw [sayAdded,result_say_bind] at h
    cases h
    rw [← hnull] at hclass
    refine ⟨some ⟨node,name,moduleJson node y,draw⟩,
      .make ⟨hclass,?_,.placed _ _ _,hnew.id,trivial⟩ rfl hnodes (hnew.draws.trans ⟨rfl,rfl,Nat.le_refl _⟩) hnew.lower
        hnew.upper ⟨fun side => by cases side <;> rfl,rfl⟩⟩
    refine bind_eq_ok.2 ⟨own,hown,?_⟩
    rw [hform,← hnew.form]

theorem carryOut_step (h : result (carryOut schema d task) desk=(.ok d',desk')) :
    ∃ made, Step schema desk d task desk' d' made := by
  have hsome : (∃ p, Step schema desk d task desk' d' (some p))→∃ made, Step schema desk d task desk' d' made :=
    fun ⟨p,hp⟩ => ⟨some p,hp⟩
  cases task with
  | module id info => exact addModule_step h
  | input name type => exact hsome (addInput_step h)
  | output name type => exact hsome (addOutput_step h)
  | constant type => exact hsome (addConstant_step h)
  | _ key gateType value =>
    cases key with
    | str s =>
      cases hempty : s.isEmpty with
      | true =>
        simp only [carryOut,hempty,if_true] at h
        cases h
        exact ⟨none,.skip (by simp [taskClass,hempty]) ⟨rfl,rfl,Nat.le_refl _⟩ rfl rfl
          ⟨fun _ => rfl,by simp [enterTask,hempty]⟩⟩
      | false =>
        simp only [carryOut,hempty,Bool.false_eq_true,if_false] at h
        exact hsome (addVariable_step hempty h)
    | _ =>
      cases h
      exact ⟨none,.skip rfl ⟨rfl,rfl,Nat.le_refl _⟩ rfl rfl ⟨fun _ => rfl,rfl⟩⟩

def Side.entered (side : Side) (tasks : List (Option Task)) (pieces : List (Option Piece)) : List Json :=
  (List.zipWith side.entries tasks pieces).flatten

/-- A list with items after its own. What is no list takes none. -/
def Extends (old : Json) (items : List Json) (new : Json) : Prop :=
  (∃ olds, old=.arr olds ∧ new=.arr (olds++items)) ∨ items=[] ∧ new=old

theorem extends_of_foldlM {old new : Json} (h : items.foldlM Json.append old=.ok new) : Extends old items new := by
  induction items generalizing old with
  | nil =>
    cases h
    exact .inr ⟨rfl,rfl⟩
  | cons item rest ih =>
    rw [List.foldlM_cons] at h
    obtain ⟨old',hitem,h⟩ := bind_eq_ok.1 h
    cases old with
    | arr olds =>
      cases hitem
      rcases ih h with ⟨olds',holds,rfl⟩ | ⟨rfl,rfl⟩
      · cases holds
        exact .inl ⟨olds,rfl,by rw [List.append_assoc]; rfl⟩
      · exact .inl ⟨olds,rfl,rfl⟩
    | _ => cases hitem

theorem foldlM_append_eq_ok {records : List Json} (h : records.foldlM Json.append nodes=.ok (.arr items)) :
    ∃ olds, nodes=.arr olds ∧ items=olds++records := by
  rcases extends_of_foldlM h with ⟨olds,hnodes,hitems⟩ | ⟨rfl,rfl⟩
  · exact ⟨olds,hnodes,Json.arr.inj hitems⟩
  · exact ⟨items,rfl,(List.append_nil _).symm⟩

/-- Tasks that are carried out in order beside the nodes there are, with what each of them makes. There may be nothing to
do in a place. The ids that are drawn for nodes stand in the supply in the same order, within given bounds. -/
inductive Carries (supply : Nat→String) (schema : Schema) :
    Nat→Json→List (Option Task)→List (Option Piece)→Json→Nat→Prop
  | nil {low high : Nat} {nodes : Json} (hbounds : low ≤ high) : Carries supply schema low nodes [] [] nodes high
  | pass {low high : Nat} {nodes nodes' : Json} {tasks : List (Option Task)} {pieces : List (Option Piece)}
      (hrest : Carries supply schema low nodes tasks pieces nodes' high) :
      Carries supply schema low nodes (none::tasks) (none::pieces) nodes' high
  | skip {low high : Nat} {nodes nodes' : Json} {task : Task} {tasks : List (Option Task)} {pieces : List (Option Piece)}
      (hclass : taskClass task=.ok none) (hrest : Carries supply schema low nodes tasks pieces nodes' high) :
      Carries supply schema low nodes (some task::tasks) (none::pieces) nodes' high
  | make {low high : Nat} {nodes nodes₁ nodes' : Json} {task : Task} {p : Piece} {tasks : List (Option Task)}
      {pieces : List (Option Piece)} (hmakes : Makes supply schema nodes task p) (hlow : low ≤ p.draw)
      (hnodes : nodes.append p.record=.ok nodes₁)
      (hrest : Carries supply schema (p.draw+1) nodes₁ tasks pieces nodes' high) :
      Carries supply schema low nodes (some task::tasks) (some p::pieces) nodes' high

namespace Carries

variable {supply : Nat→String} {schema : Schema} {low high : Nat} {nodes nodes' : Json} {tasks : List (Option Task)}
  {pieces : List (Option Piece)} {p : Piece}

theorem mono {low' : Nat} (h : Carries supply schema low nodes tasks pieces nodes' high) (hlow : low' ≤ low) :
    Carries supply schema low' nodes tasks pieces nodes' high := by
  induction h with
  | nil hbounds => exact .nil (Nat.le_trans hlow hbounds)
  | pass _ ih => exact .pass (ih hlow)
  | skip hclass _ ih => exact .skip hclass (ih hlow)
  | make hmakes hlow' hnodes hrest _ => exact .make hmakes (Nat.le_trans hlow hlow') hnodes hrest

theorem expand (h : Carries supply schema low nodes (tasks.reduceOption.map some) pieces nodes' high) :
    ∃ pieces', Carries supply schema low nodes tasks pieces' nodes' high ∧ pieces'.reduceOption=pieces.reduceOption ∧
      ∀ side : Side, side.entered tasks pieces'=side.entered (tasks.reduceOption.map some) pieces := by
  induction tasks generalizing low nodes pieces with
  | nil =>
    cases h with
    | nil hbounds => exact ⟨[],.nil hbounds,rfl,fun _ => rfl⟩
  | cons task tasks ih =>
    cases task with
    | none =>
      obtain ⟨pieces',hrest,hsame,hentered⟩ := ih h
      exact ⟨none::pieces',.pass hrest,hsame,hentered⟩
    | some task =>
      rw [List.reduceOption_cons_of_some,List.map_cons] at h ⊢
      cases h with
      | skip hclass hrest =>
        obtain ⟨pieces',hrest',hsame,hentered⟩ := ih hrest
        exact ⟨none::pieces',.skip hclass hrest',hsame,hentered⟩
      | @make _ _ _ nodes₁ _ _ p _ pieces hmakes hlow hnodes hrest =>
        obtain ⟨pieces',hrest',hsame,hentered⟩ := ih hrest
        refine ⟨some p::pieces',.make hmakes hlow hnodes hrest',?_,fun side => ?_⟩
        · rw [List.reduceOption_cons_of_some,List.reduceOption_cons_of_some,hsame]
        · exact congrArg (side.entries (some task) (some p)++·) (hentered side)

/-- What a place of a run makes: a node if its task has a class, and nothing if there is no task or no class. -/
theorem forall₂ (h : Carries supply schema low nodes tasks pieces nodes' high) :
    List.Forall₂ (fun task piece => (task.elim (.ok none) taskClass=.ok none ∧ piece=none) ∨
      ∃ t p before, task=some t ∧ piece=some p ∧ Makes supply schema before t p) tasks pieces := by
  induction h with
  | nil => exact .nil
  | pass _ ih => exact .cons (.inl ⟨rfl,rfl⟩) ih
  | skip hclass _ ih => exact .cons (.inl ⟨hclass,rfl⟩) ih
  | make hmakes _ _ _ ih => exact .cons (.inr ⟨_,_,_,rfl,rfl,hmakes⟩) ih

theorem append_records (h : Carries supply schema low nodes tasks pieces nodes' high) :
    (pieces.reduceOption.map Piece.record).foldlM Json.append nodes=.ok nodes' := by
  induction h with
  | nil => rfl
  | pass _ ih => exact ih
  | skip _ _ ih => exact ih
  | make _ _ hnodes _ ih =>
    rw [List.reduceOption_cons_of_some,List.map_cons,List.foldlM_cons,hnodes]
    exact ih

/-- What a place makes, it makes beside the nodes there were and the records made in the places before. -/
theorem makes_at {i : Nat} (h : Carries supply schema low nodes tasks pieces nodes' high)
    (hp : pieces[i]?=some (some p)) :
    ∃ task before after, tasks[i]?=some (some task) ∧
      ((pieces.take i).reduceOption.map Piece.record).foldlM Json.append nodes=.ok before ∧
      Makes supply schema before task p ∧ before.append p.record=.ok after := by
  induction h generalizing i with
  | nil => cases hp
  | pass _ ih =>
    cases i with
    | zero => cases hp
    | succ i => exact ih hp
  | skip _ _ ih =>
    cases i with
    | zero => cases hp
    | succ i => exact ih hp
  | @make _ _ nodes nodes₁ _ task _ _ _ hmakes _ hnodes _ ih =>
    cases i with
    | zero =>
      cases hp
      exact ⟨task,nodes,nodes₁,rfl,rfl,hmakes,hnodes⟩
    | succ i =>
      obtain ⟨task',before,after,htask,hbefore,hmakes',happend⟩ := ih hp
      refine ⟨task',before,after,htask,?_,hmakes',happend⟩
      rw [List.take_succ_cons,List.reduceOption_cons_of_some,List.map_cons,List.foldlM_cons,hnodes]
      exact hbefore

theorem shows_of_mem (h : Carries supply schema low nodes tasks pieces nodes' high) (hp : some p∈pieces) :
    Shows p.node p.record := by
  obtain ⟨i,hi⟩ := List.mem_iff_getElem?.1 hp
  obtain ⟨task,before,after,-,-,hmakes,-⟩ := h.makes_at hi
  exact hmakes.recorded.shows

end Carries

/-- Tasks are carried out in order, and what they enter comes last in the lists. -/
theorem carryOutAll_carries {tasks : List Task} (h : result (carryOutAll schema d tasks) desk=(.ok d',desk')) :
    ∃ pieces, Carries desk.supply schema desk.drawn d.nodes (tasks.map some) pieces d'.nodes desk'.drawn ∧
      d'.created=d.created++pieces.reduceOption.map Piece.created ∧ desk'.save=desk.save ∧
      (∀ side : Side, (side.entered (tasks.map some) pieces).foldlM Json.append (d.ends side)=.ok (d'.ends side)) ∧
      tasks.foldlM enterTask d.definitions=.ok d'.definitions := by
  induction tasks generalizing d desk with
  | nil =>
    cases h
    exact ⟨[],.nil (Nat.le_refl _),(List.append_nil _).symm,rfl,fun _ => rfl,rfl⟩
  | cons task rest ih =>
    obtain ⟨d₁,desk₁,hfirst,h⟩ := result_bind_eq_ok.1 h
    obtain ⟨pieces,hcarries,hcreated,hsave,hends,hdefinitions⟩ := ih h
    have hall {made : Option Piece} (henters : Enters d task made d₁) :
        (∀ side : Side, (side.entered ((task::rest).map some) (made::pieces)).foldlM Json.append (d.ends side) =
          .ok (d'.ends side)) ∧ (task::rest).foldlM enterTask d.definitions=.ok d'.definitions := by
      refine ⟨fun side => ?_,bind_eq_ok.2 ⟨_,henters.definitions,hdefinitions⟩⟩
      rw [Side.entered,List.map_cons,List.zipWith_cons_cons,List.flatten_cons,List.foldlM_append]
      exact bind_eq_ok.2 ⟨_,henters.ends side,hends side⟩
    obtain ⟨made,hstep⟩ := carryOut_step hfirst
    cases hstep with
    | skip hclass hdraws hsame hnodes henters =>
      rw [hdraws.supply,hnodes] at hcarries
      rw [hsame] at hcreated
      exact ⟨none::pieces,.skip hclass (hcarries.mono hdraws.drawn),hcreated,hsave.trans hdraws.save,hall henters⟩
    | @make p hmakes hsame hnodes hdraws hlower hupper henters =>
      rw [hdraws.supply] at hcarries
      refine ⟨some p::pieces,.make hmakes hlower hnodes (hcarries.mono hupper),?_,hsave.trans hdraws.save,hall henters⟩
      rw [hcreated,hsame,List.append_assoc,List.reduceOption_cons_of_some]
      rfl

end ChipForge.Save
