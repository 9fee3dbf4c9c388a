import ChipForge.Proofs.AppendedNodes

/-! Keys of definitions stay distinct and every variable that is made has one definition. Its type is that of the node,
except where the save defined the variable before and no request gives it a value: such a definition keeps the type it
had. -/
namespace ChipForge.Save
open Json Wiring
open List hiding lookup insert

variable {threshold : Option Text.Similarity.Threshold} {catalogue request : Json} {requests items items' : List Json}
  {desk desk' : Desk} {key k : String} {gateType value definitions : Json} {tasks : List Task} {old new : Json}
  {task : Task} {p : Piece}

/-- Changes the first item that passes a test, or adds one. -/
def upsert (p : Json→Bool) (change : Json→Json) (new : Json) : List Json→List Json
  | [] => [new]
  | item::rest => if p item then change item::rest else item::upsert p change new rest

section
variable {p q : Json→Bool} {change : Json→Json} {new : Json}

theorem upsert_eq (items : List Json) : upsert p change new items =
    (items.findIdx? p).elim (items++[new]) fun i => items.modify i change := by
  induction items with
  | nil => rfl
  | cons item rest ih =>
    rw [upsert,findIdx?_cons,ih]
    cases p item with
    | true => rfl
    | false => cases rest.findIdx? p <;> rfl

theorem find?_upsert (hnew : p new=true) (hchange : ∀ item, p item=true → p (change item)=true) (items : List Json) :
    (upsert p change new items).find? p=some ((items.find? p).elim new change) := by
  induction items with
  | nil => simp [upsert,hnew]
  | cons item rest ih =>
    cases hitem : p item with
    | true => simp [upsert,hitem,hchange item hitem]
    | false => simp [upsert,hitem,ih]

theorem find?_upsert_ne (hnew : q new=false) (hchange : ∀ item, p item=true → q item=false ∧ q (change item)=false)
    (items : List Json) : (upsert p change new items).find? q=items.find? q := by
  induction items with
  | nil => simp [upsert,hnew]
  | cons item rest ih =>
    cases hitem : p item with
    | true => simp [upsert,hitem,hchange item hitem]
    | false => simp only [upsert,hitem,Bool.false_eq_true,if_false,find?_cons,ih]

theorem map_upsert {f : Json→Option Json} (hchange : ∀ item, f (change item)=f item) (items : List Json) :
    (upsert p change new items).map f=if items.any p then items.map f else items.map f++[f new] := by
  induction items with
  | nil => rfl
  | cons item rest ih =>
    cases hitem : p item with
    | true => simp [upsert,hitem,hchange]
    | false =>
      simp only [upsert,hitem,Bool.false_eq_true,if_false,map_cons,ih,any_cons,Bool.false_or]
      split <;> rfl

end

/-- No two definitions have one key. -/
def DistinctKeys (items : List Json) : Prop := (items.map (·.get? "Key")).Nodup

/-- The type that a key is defined with. -/
def heldType (items : List Json) (k : String) : Option Json := (items.find? (isKeyed k)).map (fieldOf · "GateDataType")

theorem definitionIndex?_eq_ok {n : Nat} {found : Option Nat} (h : definitionIndex? key n items=.ok found) :
    found=(items.findIdx? (isKeyed key)).map (·+n) := by
  induction items generalizing n with
  | nil =>
    cases h
    rfl
  | cons d rest ih =>
    obtain ⟨x,hx,h⟩ := bind_eq_ok.1 h
    have hkeyed : x.same (.str key)=isKeyed key d := by
      rw [field_eq_ok hx,isKeyed]
      cases d.get? "Key" with
      | none => rfl
      | some x => cases x <;> simp [same]
    rw [findIdx?_cons,← hkeyed]
    cases hsame : x.same (.str key) with
    | true =>
      rw [hsame] at h
      cases h
      simp
    | false =>
      rw [hsame] at h
      rw [ih h]
      cases rest.findIdx? (isKeyed key) <;> simp; omega

def renew (value : Json) (d : Definition) (old : Json) : Json :=
  if value.isNull then old else (old.set "SerializedValue" d.setting).set "GateDataType" d.type

theorem enterDefinition_eq_ok (h : enterDefinition old key gateType value=.ok new) :
    ∃ items d g, old=.arr items ∧ new=.arr (upsert (isKeyed key) (renew value d) d.toJson items) ∧
      variableType gateType=.ok g ∧ d.key=.str key ∧ d.type=.str g.name := by
  obtain ⟨items,found,hitems,hfound,h⟩ := bind_bind_eq_ok.1 h
  obtain ⟨d,hd,h⟩ := bind_eq_ok.1 h
  obtain ⟨g,shown,hg,-,hd⟩ := bind_bind_eq_ok.1 hd
  cases hd
  obtain rfl := definitionIndex?_eq_ok hfound
  cases hindex : items.findIdx? (isKeyed key) with
  | none =>
    rw [hindex] at h
    cases old with
    | arr olds =>
      cases hitems
      cases h
      exact ⟨items,_,g,rfl,by rw [upsert_eq,hindex]; rfl,hg,rfl,rfl⟩
    | _ => cases h
  | some i =>
    rw [hindex] at h
    obtain ⟨hi,hkeyed,-⟩ := findIdx?_eq_some_iff_getElem.1 hindex
    obtain rfl := eq_arr_of_each hitems (getElem?_eq_getElem hi) (isKeyed_iff.1 hkeyed)
    cases h
    refine ⟨items,⟨.str key,shown,settingText g value,typeIn .names g⟩,g,rfl,?_,hg,rfl,rfl⟩
    rw [upsert_eq,hindex,Option.elim_some]
    unfold renew
    cases value.isNull with
    | true => exact congrArg Json.arr (modify_id _ _).symm
    | false => rfl

section
variable {d : Definition} (hkey : d.key=.str key)

theorem get?_renew (value : Json) (d : Definition) (old : Json) : (renew value d old).get? "Key" = old.get? "Key" := by
  rw [renew]
  split
  · rfl
  · rw [get?_set_ne _ _ (by decide),get?_set_ne _ _ (by decide)]

include hkey

theorem DistinctKeys.upsert (h : DistinctKeys items) : DistinctKeys (upsert (isKeyed key) (renew value d) d.toJson items) := by
  rw [DistinctKeys,map_upsert (get?_renew value d)]
  split
  · exact h
  · rename_i hnone
    refine nodup_append.2 ⟨h,nodup_singleton _,fun x hx y hy hxy => hnone ?_⟩
    obtain ⟨item,hitem,rfl⟩ := mem_map.1 hx
    cases mem_singleton.1 hy
    exact any_eq_true.2 ⟨item,hitem,isKeyed_iff.2 (hxy.trans (congrArg some hkey))⟩

/-- The type of a key that is entered is that of the request, unless it has a type already and no value is given. -/
theorem heldType_upsert : heldType (upsert (isKeyed key) (renew value d) d.toJson items) key =
    some (if value.isNull then (heldType items key).getD d.type else d.type) := by
  have hnew : isKeyed key d.toJson=true := isKeyed_iff.2 (congrArg some hkey)
  have hrenew : ∀ item, isKeyed key item=true → isKeyed key (renew value d item)=true := by
    intro item hitem
    rwa [isKeyed_iff,get?_renew,← isKeyed_iff]
  rw [heldType,find?_upsert hnew hrenew,heldType]
  cases hfind : items.find? (isKeyed key) with
  | none => simp [fieldOf,Definition.toJson,get?,lookup]
  | some old =>
    have hold := isKeyed_iff.1 (find?_some hfind)
    rw [Option.elim_some,Option.map_some,Option.map_some,Option.getD_some,renew]
    split
    · rfl
    · have hset : (old.set "SerializedValue" d.setting).get? "Key" = some (.str key) := by
        rw [get?_set_ne _ _ (by decide),hold]
      rw [fieldOf,get?_set_self _ hset,Option.getD_some]

theorem heldType_upsert_ne (hk : k≠key) :
    heldType (upsert (isKeyed key) (renew value d) d.toJson items) k=heldType items k := by
  have hother : ∀ item, isKeyed key item=true → isKeyed k item=false := by
    intro item hitem
    rw [Bool.eq_false_iff,ne_eq,isKeyed_iff,isKeyed_iff.1 hitem]
    simpa using Ne.symm hk
  have hrenew : ∀ item, isKeyed key item=true → isKeyed k item=false ∧ isKeyed k (renew value d item)=false := by
    intro item hitem
    refine ⟨hother item hitem,hother _ ?_⟩
    rwa [isKeyed_iff,get?_renew,← isKeyed_iff]
  have hnew : isKeyed key d.toJson=true := isKeyed_iff.2 (congrArg some hkey)
  rw [heldType,find?_upsert_ne (hother _ hnew) hrenew,heldType]

end

/-- Items of a list. What is no list has none. -/
def itemsIn (list : Json) : List Json := list.asArr?.getD []

def isFor (k : String) : Task→Bool
  | .variable (.str key) _ _ => key == k
  | _ => false

/-- Does the task give a value to a variable? -/
def gives (k : String) : Task→Bool
  | .variable (.str key) _ value => key == k && !value.isNull
  | _ => false

theorem gives_eq_false (h : isFor k task=false) : gives k task=false := by
  cases task with
  | «variable» key gateType value =>
    cases key with
    | str key => rw [gives,show (key == k)=false from h,Bool.false_and]
    | _ => rfl
  | _ => rfl

theorem enterTask_cases (h : enterTask old task=.ok new) :
    (new=old ∧ ∀ k, k.isEmpty=false → isFor k task=false) ∨
      ∃ key gateType value d g, task=.variable (.str key) gateType value ∧ variableType gateType=.ok g ∧
        d.key=.str key ∧ d.type=.str g.name ∧
        itemsIn new=upsert (isKeyed key) (renew value d) d.toJson (itemsIn old) := by
  cases task with
  | «variable» key gateType value =>
    cases key with
    | str key =>
      rw [enterTask] at h
      split at h
      · rename_i hempty
        cases h
        refine .inl ⟨rfl,fun k hk => ?_⟩
        rw [isFor,beq_eq_false_iff_ne]
        rintro rfl
        rw [hempty] at hk
        cases hk
      · obtain ⟨items,d,g,rfl,rfl,hg,hkey,htype⟩ := enterDefinition_eq_ok h
        exact .inr ⟨key,gateType,value,d,g,rfl,hg,hkey,htype,rfl⟩
    | _ =>
      cases h
      exact .inl ⟨rfl,fun _ _ => rfl⟩
  | _ =>
    cases h
    exact .inl ⟨rfl,fun _ _ => rfl⟩

theorem foldlM_enterTask_distinct (h : tasks.foldlM enterTask old=.ok new) (hold : DistinctKeys (itemsIn old)) :
    DistinctKeys (itemsIn new) := by
  induction tasks generalizing old with
  | nil =>
    cases h
    exact hold
  | cons task rest ih =>
    obtain ⟨old₁,hfirst,h⟩ := bind_eq_ok.1 h
    refine ih h ?_
    rcases enterTask_cases hfirst with ⟨rfl,-⟩ | ⟨key,_,_,d,_,-,-,hkey,-,hlisted⟩
    · exact hold
    · rw [hlisted]
      exact hold.upsert hkey

/-- A key that is asked for has the type of the requests, unless it was defined before and is given no value. -/
theorem foldlM_enterTask_heldType {g : GateType} (hk : k.isEmpty=false)
    (htypes : ∀ gateType value, .variable (.str k) gateType value∈tasks → variableType gateType=.ok g)
    (h : tasks.foldlM enterTask old=.ok new) : heldType (itemsIn new) k =
      if tasks.any (gives k) then some (.str g.name)
      else (heldType (itemsIn old) k).or (if tasks.any (isFor k) then some (.str g.name) else none) := by
  induction tasks generalizing old with
  | nil =>
    cases h
    simp
  | cons task rest ih =>
    obtain ⟨old₁,hfirst,h⟩ := bind_eq_ok.1 h
    rw [ih (fun gateType value hmem => htypes gateType value (mem_cons_of_mem _ hmem)) h,any_cons,any_cons]
    rcases enterTask_cases hfirst with ⟨rfl,hother⟩ | ⟨key,gateType,value,d,g',rfl,hg,hkey,htype,hlisted⟩
    · rw [hother k hk,gives_eq_false (hother k hk),Bool.false_or,Bool.false_or]
    · rw [hlisted]
      -- Once a value was given the type stays that of the requests, since all of them have one type.
      by_cases hsame : k=key
      · subst hsame
        cases hg.symm.trans (htypes gateType value (mem_cons_self ..))
        rw [heldType_upsert hkey,htype,gives,isFor,beq_self_eq_true,Bool.true_and,Bool.true_or,if_pos rfl]
        cases value.isNull <;> cases rest.any (gives k) <;> cases heldType (itemsIn old) k <;> rfl
      · have hne : (key == k)=false := beq_eq_false_iff_ne.2 (Ne.symm hsame)
        rw [heldType_upsert_ne hkey hsame,gives,isFor,hne,Bool.false_and,Bool.false_or,Bool.false_or]

theorem DistinctKeys.filter {entry : Json} (h : DistinctKeys items) (hfind : items.find? (isKeyed k)=some entry) :
    items.filter (isKeyed k)=[entry] := by
  have hnodup : ((items.filter (isKeyed k)).map (·.get? "Key")).Nodup := h.sublist (filter_sublist.map _)
  have hkeyed : ∀ item∈items.filter (isKeyed k), item.get? "Key" = some (.str k) :=
    fun item hitem => isKeyed_iff.1 (mem_filter.1 hitem).2
  rw [← head?_filter] at hfind
  match hfilter : items.filter (isKeyed k) with
  | [] =>
    rw [hfilter] at hfind
    cases hfind
  | [item] =>
    rw [hfilter] at hfind
    cases hfind
    rfl
  | item::other::rest =>
    rw [hfilter] at hnodup hkeyed
    have hsame : item.get? "Key" = other.get? "Key" := by rw [hkeyed item (by simp),hkeyed other (by simp)]
    simp [hsame] at hnodup

/-- A node of a variable has one definition. It has the type of the node, unless it was there before and no value is given:
then it has the type it had. -/
structure Defined (old new : Json) (k : String) (given : Bool) (record : Json) : Prop where
  key : record.get? "MechanicConnectionId" = some (.str k)
  definition : ∃ type entry, record.get? "GateDataType" = some type ∧ (itemsIn new).filter (isKeyed k)=[entry] ∧
    fieldOf entry "GateDataType" = if given then type else (heldType (itemsIn old) k).getD type

/-- Only a variable with a key is made, and its node has that key and the type that is asked for. -/
theorem Makes.variable {supply : Nat→String} {schema : Schema} {nodes key : Json}
    (h : Makes supply schema nodes (.variable key gateType value) p) : ∃ k g, key=.str k ∧ k.isEmpty=false ∧
      variableType gateType=.ok g ∧ p.record.get? "MechanicConnectionId" = some (.str k) ∧
      p.record.get? "GateDataType" = some (.str g.name) := by
  have hclass := h.className
  cases key with
  | str k =>
    obtain ⟨g,hg,hform⟩ := bind_eq_ok.1 h.form
    have htype : p.node.type=.str g.name := (congrArg Form.type (Except.ok.inj hform)).symm
    refine ⟨k,g,rfl,?_,hg,h.recorded.connection.trans (congrArg some h.linked),?_⟩
    · cases hempty : k.isEmpty with
      | true => simp [taskClass,hempty] at hclass
      | false => rfl
    · rw [h.recorded.shows.type,htype]
  | _ => cases hclass

theorem AddRun.defined (run : AddRun threshold catalogue requests desk desk') {key : Json} {i : Nat}
    (hnew : run.tasks.reduceOption.foldlM enterTask old=.ok new) (hdistinct : DistinctKeys (itemsIn new))
    (htask : run.tasks[i]?=some (some (.variable key gateType value))) (hp : run.pieces[i]?=some (some p))
    (hsame : ∀ type value', .variable key type value'∈run.tasks.reduceOption → type=gateType) :
    ∃ k, key=.str k ∧ Defined old new k (run.tasks.reduceOption.any (gives k)) p.record := by
  obtain ⟨task,_,_,htask',-,hmakes,-⟩ := run.carried.makes_at hp
  cases htask.symm.trans htask'
  obtain ⟨k,g,rfl,hk,hg,hconnection,htype⟩ := hmakes.variable
  have hmem : Task.variable (.str k) gateType value∈run.tasks.reduceOption :=
    reduceOption_mem_iff.2 (mem_of_getElem? htask)
  have hfor : run.tasks.reduceOption.any (isFor k)=true := any_eq_true.2 ⟨_,hmem,beq_self_eq_true k⟩
  have hheld := foldlM_enterTask_heldType hk (fun type value' hother => hsame type value' hother ▸ hg) hnew
  rw [hfor,if_pos rfl] at hheld
  have hall : heldType (itemsIn new) k=some (if run.tasks.reduceOption.any (gives k) then .str g.name
      else (heldType (itemsIn old) k).getD (.str g.name)) := by
    rw [hheld]
    cases run.tasks.reduceOption.any (gives k) <;> cases heldType (itemsIn old) k <;> rfl
  obtain ⟨entry,hentry,hfield⟩ := Option.map_eq_some_iff.1 hall
  exact ⟨k,rfl,hconnection,_,entry,htype,hdistinct.filter hentry,hfield⟩

/-- Definitions after a run on a save whose definitions have distinct keys. They are left alone if no variable is asked for. -/
def VariablesDefined (save : Json) (requests : List Json) (made : List (Option Json)) (save' : Json) : Prop :=
  if requests.any (asks isVariable) then ∃ old new, ReadsList save "chip_variables" old ∧ HoldsList save' "chip_variables" new ∧
    DistinctKeys (itemsIn new) ∧ ∀ (i : Nat) request record key gateType value, requests[i]?=some request →
      made[i]?=some (some record) → spelled? request=some (.variable key gateType value) →
      ∃ k, key=.str k ∧ Defined old new k (requests.any (asks (gives k))) record
  else Spares "chip_variables" save save'

/-- A run makes variables that have a definition each, and keys stay distinct. -/
theorem addModules_defines {created : List Created}
    (h : result (addModules (.arr requests) catalogue threshold) desk = (.ok created, desk'))
    (hkeys : ∀ old, ReadsList desk.save "chip_variables" old → DistinctKeys (itemsIn old))
    (htypes : ∀ r ∈ requests, ∀ r' ∈ requests, ∀ key type value type' value',
      spelled? r = some (.variable key type value) → spelled? r' = some (.variable key type' value') → type = type') :
    ∃ made, GrownBy threshold catalogue requests desk.save created made desk'.save ∧
      VariablesDefined desk.save requests made desk'.save := by
  obtain ⟨run,rfl⟩ := addModules_run h
  refine ⟨_,run.grownBy,?_⟩
  have hdefinitions := run.definitions
  rw [← any_asks (fun _ _ => rfl) run.asked] at hdefinitions
  rw [VariablesDefined]
  split
  · rename_i hneeded
    rw [Rewrites,if_pos hneeded] at hdefinitions
    obtain ⟨old,new,hold,hnew,hholds⟩ := hdefinitions
    have hdistinct := foldlM_enterTask_distinct hnew (hkeys old hold)
    refine ⟨old,new,hold,hholds,hdistinct,?_⟩
    intro i request record key gateType value hrequest hrecord hspelled
    rw [getElem?_map] at hrecord
    obtain ⟨piece,hp,hrecord⟩ := Option.map_eq_some_iff.1 hrecord
    obtain ⟨p,rfl,rfl⟩ := Option.map_eq_some_iff.1 hrecord
    obtain ⟨task,htask,hasked⟩ := forall₂_getElem? run.asked hrequest
    obtain rfl : task = some (.variable key gateType value) := by
      rcases spelled?_cases hasked with heq | ⟨hnone,-⟩
      · rw [← heq,hspelled]
      · rw [hnone] at hspelled
        cases hspelled
    have hsame : ∀ type value', .variable key type value' ∈ run.tasks.reduceOption → type = gateType := by
      intro type value' hmem
      obtain ⟨j,hj⟩ := mem_iff_getElem?.1 (reduceOption_mem_iff.1 hmem)
      obtain ⟨r,hr,hasked'⟩ := run.request_of_task hj
      rcases spelled?_cases hasked' with heq | ⟨-,_,_,hmodule⟩
      · exact htypes r hr request (mem_of_getElem? hrequest) key type value' gateType value heq hspelled
      · cases hmodule
    obtain ⟨k,rfl,hdefined⟩ := run.defined hnew hdistinct htask hp hsame
    refine ⟨k,rfl,?_⟩
    rwa [any_asks (fun _ _ => rfl) run.asked]
  · rename_i hneeded
    rwa [Rewrites,if_neg hneeded] at hdefinitions

def textDefinition : Json := .obj [("Key",.str "x"),("GateDataType",.str "String")]

def textDesk : Desk := twoBoxes [emptyGraph,.obj [("key",.str "chip_variables"),
  ("stringValue",.str "[\x7b\"Key\":\"x\",\"GateDataType\":\"String\"\x7d]")]] []

def numberRequest : Json := .obj [("type",.str "variable"),("key",.str "x"),("gateDataType",.str "Number")]

theorem inFirst_textDesk :
    (do pure ((← inFirst "chip_variables" textDesk.save).elim (.ok (.arr [])) fun f => listOfEntry f.2)) =
      (.ok (.ok (.arr [textDefinition])) : Except Failure (Except Failure Json)) := by cbv

theorem readsList_textDesk (h : ReadsList textDesk.save "chip_variables" old) : old=.arr [textDefinition] := by
  have hfirst := inFirst_textDesk
  obtain ⟨found,hfound,hlist⟩ := h
  rw [hfound] at hfirst
  exact Except.ok.inj (hlist.symm.trans (Except.ok.inj hfirst))

theorem requestTask_numberRequest :
    requestTask none (.obj []) numberRequest=.ok (some (.variable (.str "x") (.str "Number") .null)) := by cbv

theorem spelled?_numberRequest : spelled? numberRequest=some (.variable (.str "x") (.str "Number") .null) := by cbv

theorem enterTask_textDefinition
    (h : enterTask (.arr [textDefinition]) (.variable (.str "x") (.str "Number") .null)=.ok new) :
    new=.arr [textDefinition] := by
  have h : enterDefinition (.arr [textDefinition]) "x" (.str "Number") .null=.ok new := h
  obtain ⟨items,d,g,hitems,rfl,-⟩ := enterDefinition_eq_ok h
  cases hitems
  rfl

theorem addModules_textDesk : ∃ created desk',
    result (addModules (.arr [numberRequest]) (.obj []) none) textDesk=(.ok created,desk') ∧
      created.map (·.id)=["VariableNodeViewModel : 0"] :=
  result_of_ids (by decide +kernel)

theorem addModules_defines_textDesk : ∃ created desk' made,
    result (addModules (.arr [numberRequest]) (.obj []) none) textDesk = (.ok created, desk') ∧
    GrownBy none (.obj []) [numberRequest] textDesk.save created made desk'.save ∧
    VariablesDefined textDesk.save [numberRequest] made desk'.save := by
  obtain ⟨created,desk',hrun,-⟩ := addModules_textDesk
  obtain ⟨made,hmade,hdefined⟩ := addModules_defines hrun
    (fun old hold => by rw [readsList_textDesk hold]; exact nodup_singleton _)
    (fun r hr r' hr' key type value type' value' h h' => by
      rw [mem_singleton.1 hr,spelled?_numberRequest] at h
      rw [mem_singleton.1 hr',spelled?_numberRequest] at h'
      cases h
      cases h'
      rfl)
  exact ⟨created,desk',made,hrun,hmade,hdefined⟩

/-- The definition of a text stays one although a node of a number is made for it. -/
theorem addModules_otherType : ∃ created desk' record,
    result (addModules (.arr [numberRequest]) (.obj []) none) textDesk = (.ok created, desk') ∧
    GrownBy none (.obj []) [numberRequest] textDesk.save created [some record] desk'.save ∧
    record.get? "MechanicConnectionId" = some (.str "x") ∧ record.get? "GateDataType" = some (.str "Number") ∧
    HoldsList desk'.save "chip_variables" (.arr [textDefinition]) := by
  obtain ⟨created,desk',hrun,-⟩ := addModules_textDesk
  obtain ⟨run,rfl⟩ := addModules_run hrun
  obtain ⟨p,ht,hp⟩ := run.exists_piece (i := 0) rfl requestTask_numberRequest nofun
  obtain ⟨t,htasks⟩ := length_eq_one_iff.1 run.asked.length_eq.symm
  obtain ⟨piece,hpieces⟩ := length_eq_one_iff.1 (run.carried.forall₂.length_eq.symm.trans run.asked.length_eq.symm)
  rw [htasks] at ht
  rw [hpieces] at hp
  cases ht
  cases hp
  have hdefinitions := run.definitions
  obtain ⟨task,_,_,htask,-,hmakes,-⟩ := run.carried.makes_at (i := 0) (by rw [hpieces]; rfl)
  rw [htasks] at htask hdefinitions
  cases htask
  obtain ⟨k,g,hkey,-,hg,hconnection,htype⟩ := hmakes.variable
  cases hkey
  cases hg
  obtain ⟨old,new,hold,hnew,hholds⟩ := hdefinitions
  rw [readsList_textDesk hold,reduceOption_cons_of_some] at hnew
  obtain ⟨entered,hentered,hnew⟩ := bind_eq_ok.1 hnew
  obtain rfl := enterTask_textDefinition hentered
  cases hnew
  have hmade : run.pieces.map (Option.map Piece.record) = [some p.record] := by rw [hpieces]; rfl
  exact ⟨_,desk',p.record,hrun,hmade ▸ run.grownBy,hconnection,htype,hholds⟩

end ChipForge.Save
