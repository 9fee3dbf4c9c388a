import ChipForge.Proofs.Ports
import ChipForge.Proofs.Revisions
import ChipForge.Save.Retype

/-! A node keeps all but its type, its data and the types of its ports. Instructions reach nodes by their ids, which
stay, so what a list of instructions does to each node and notes of it can be read off the nodes as they were. -/
namespace ChipForge.Save
open Json Revise Wiring
open List hiding lookup insert

variable {rules modules type nodeId node node' w : Json} {changes changes' : Changes} {side : String}
  {last : Option Json} {key : String} {i : Nat}

/-- The fields of a record but for some. -/
def fieldsBut (keys : List String) (v : Json) (key : String) : Option Json := if key∈keys then none else v.get? key

theorem fieldsBut_set {keys : List String} (h : key∈keys) (v x : Json) :
    fieldsBut keys (v.set key x)=fieldsBut keys v := by
  funext other
  unfold fieldsBut
  split
  · rfl
  · rename_i hother
    exact get?_set_ne _ _ fun heq => hother (heq ▸ h)

def barePorts : Json→List (String→Option Json) ⊕ Json
  | .arr ports => .inl (ports.map (fieldsBut ["DataType"]))
  | v => .inr v

/-- What a node has besides its type, its data and the types of its ports. -/
structure Skeleton where
  fields : String→Option Json
  inputs : Option (List (String→Option Json) ⊕ Json)
  outputs : Option (List (String→Option Json) ⊕ Json)

def skeleton (node : Json) : Skeleton :=
  ⟨fieldsBut ["GateDataType","SaveData","Inputs","Outputs"] node,(node.get? "Inputs").map barePorts,
    (node.get? "Outputs").map barePorts⟩

theorem skeleton_set (h : key∈["GateDataType","SaveData"]) (v x : Json) : skeleton (v.set key x)=skeleton v := by
  rw [skeleton,fieldsBut_set (by grind),get?_set_ne _ _ (by grind),get?_set_ne _ _ (by grind)]
  rfl

/-- All that retyping a side of a node leaves as it is. -/
def outside (node : Json) : Skeleton×Option Json := (skeleton node,node.get? "GateDataType")

theorem retypePorts_leaves (change : Nat→Except Failure (Option PortChange)) : Leaves barePorts (retypePorts change) := by
  have hport : ∀ c, Leaves (fieldsBut ["DataType"]) (retypePort c) := by
    intro c
    cases c with
    | none => exact .pure ()
    | some c =>
      refine .bind (.assign fun v => fieldsBut_set (by decide) v _) fun _ => ?_
      cases c.line with
      | none => exact .pure ()
      | some line => exact .tell line
  refine fun v => (ensures_inItems (I := fun _ done done' =>
    done'.map (fieldsBut ["DataType"])=done.map (fieldsBut ["DataType"])) rfl ?_).imp ?_
  · intro _ done done' port hdone
    refine ensures_bind.2 fun c _ => (hport c port).imp fun {_ port'} h => ?_
    rw [map_append,map_append,hdone,map_singleton,map_singleton,h]
  · rintro _ w ⟨ports',h,rfl⟩
    cases v with
    | arr ports => exact congrArg Sum.inl h
    | _ => rfl

theorem inSide_leaves {m : Revise Unit} (hside : side = "Inputs" ∨ side = "Outputs") (hm : Leaves barePorts m) :
    Leaves outside (inField side (.arr []) m) := by
  refine .inField hm fun {v x x'} hx hports => ?_
  have hsame : ((v.set side x').get? side).map barePorts=(v.get? side).map barePorts := by
    rw [get?_set_self x' hx,hx,Option.map_some,Option.map_some,hports]
  rcases hside with rfl | rfl <;> simp_all [outside,skeleton,fieldsBut_set,get?_set_ne]

theorem retypeSide_leaves (hside : side = "Inputs" ∨ side = "Outputs") (change : Nat→Except Failure (Option PortChange)) :
    Leaves outside (retypeSide side change) :=
  inSide_leaves hside (retypePorts_leaves change)

theorem retypeListSide_leaves (hside : side = "Inputs" ∨ side = "Outputs")
    (change : Nat→Except Failure (Option PortChange)) : Leaves outside (retypeListSide side change) := by
  refine inSide_leaves hside (.bind .here fun ports => ?_)
  split
  · exact .bind (.lift _) fun _ => .bind (.lift _) fun _ => retypePorts_leaves change
  · exact .pure ()

theorem retypeByRule_leaves (t : Target) : Leaves outside (retypeByRule t type rules) := by
  have hruled : ∀ rule key label, ∀ {side}, side = "Inputs" ∨ side = "Outputs" →
      Leaves outside (retypeByRule.ruled t type rule side key label) := by
    intro rule key label side hside
    unfold retypeByRule.ruled
    split
    · exact retypeSide_leaves hside _
    · exact .pure ()
  refine .bind (.lift _) fun _ => .bind (.tell _) fun _ => .bind (.lift _) fun rule => ?_
  split
  · exact .bind (.lift _) fun _ => .bind (.tell _) fun _ => .bind (hruled _ _ _ (.inl rfl)) fun _ => hruled _ _ _ (.inr rfl)
  · refine .bind (.lift _) fun _ => .bind (.tell _) fun _ => ?_
    exact .bind (retypeSide_leaves (.inl rfl) _) fun _ => retypeSide_leaves (.inr rfl) _

theorem retypeModule_leaves (t : Target) : Leaves outside (retypeModule t type rules) := by
  unfold retypeModule
  split
  · exact .bind (retypeListSide_leaves (.inl rfl) _) fun _ => retypeListSide_leaves (.inr rfl) _
  · exact retypeByRule_leaves t

def isModifiable (modules op : Json) : Bool :=
  match definitionOf op modules with
  | .ok (_,module) => modifiable module
  | .error _ => false

/-- A node ends with a type, as a number or by name. -/
def HasType (type node : Json) : Prop :=
  ∃ schema written, newType schema type=.ok written ∧ node.get? "GateDataType" = some written

/-- What is noted of a node with a connection. -/
def note (connection type : Json) : Option (Json×Json) := if connection.truthy then some (connection,type) else none

theorem targetOf_eq_ok {t : Target} (h : targetOf node type modules=.ok t) : newType t.schema type=.ok t.written ∧
    isModifiable modules (fieldOf node "OperationType")=modifiable t.module := by
  obtain ⟨op,named,hop,-,h⟩ := bind_bind_eq_ok.1 h
  obtain ⟨written,⟨key,module⟩,hwritten,hdefinition,h⟩ := bind_bind_eq_ok.1 h
  obtain ⟨name,-,h⟩ := bind_eq_ok.1 h
  cases h
  obtain rfl : op=fieldOf node "OperationType" := field_eq_ok hop
  exact ⟨hwritten,by rw [isModifiable,hdefinition]⟩

theorem noteEnd_ensures (w : Json) : Ensures (noteEnd changes node type) w fun changes' w' =>
    w'=w ∧ changes'.ends=(note (fieldOf node "MechanicConnectionId") type).toList++changes.ends := by
  simp only [noteEnd,ensures_bind,ensures_lift]
  intro connection hconnection
  obtain rfl : connection=fieldOf node "MechanicConnectionId" := field_eq_ok hconnection
  unfold note
  split <;> simp

/-- A node that a modifiable module stands behind takes the new type and keeps its skeleton; others stay as they are. -/
theorem retype_ensures : Ensures (retype rules modules type nodeId changes) node fun changes' node' =>
    if isModifiable modules (fieldOf node "OperationType") then
      skeleton node'=skeleton node ∧ HasType type node' ∧
        changes'.ends=(note (fieldOf node "MechanicConnectionId") type).toList++changes.ends
    else node'=node ∧ changes'=changes := by
  simp only [retype,ensures_bind,ensures_tell,ensures_here,ensures_lift]
  intro t ht
  obtain ⟨hwritten,hmodifiable⟩ := targetOf_eq_ok ht
  rw [hmodifiable]
  cases modifiable t.module with
  | false => simp
  | true =>
    simp only [Bool.not_true,Bool.false_eq_true,if_false,if_true,ensures_bind,ensures_lift]
    refine (noteEnd_ensures node).imp fun {changes₁ w} hnote => ?_
    obtain ⟨rfl,hends⟩ := hnote
    -- Once the type is written, nothing changes it or the skeleton.
    have htyped : ∀ {node'}, w.isObj → outside node'=outside (w.set "GateDataType" t.written) →
        skeleton node'=skeleton w ∧ HasType type node' := by
      intro node' hobj hkept
      obtain ⟨hskeleton,htype⟩ := Prod.mk.inj hkept
      refine ⟨hskeleton.trans (skeleton_set (by decide) _ _),_,_,hwritten,htype.trans ?_⟩
      cases w with
      | obj fields => simp [get?,Json.set]
      | _ => cases hobj
    rintro (_ | _) -
    · simp only [Bool.false_eq_true,if_false,ensures_bind,ensures_lift,ensures_assign]
      refine fun hobj data _ _ => (retypeModule_leaves t _).imp fun {_ node'} hkept => ensures_pure.2 ?_
      have hdata : outside ((w.set "GateDataType" t.written).set "SaveData" data)=outside (w.set "GateDataType" t.written) :=
        Prod.ext (skeleton_set (by decide) _ _) (get?_set_ne _ _ (by decide))
      obtain ⟨hskeleton,htype⟩ := htyped hobj (hkept.trans hdata)
      exact ⟨hskeleton,htype,hends⟩
    · simp only [if_true,ensures_bind,ensures_tell,ensures_assign]
      refine fun hobj => (retypeSide_leaves (.inr rfl) _ _).imp fun {_ w₁} houtputs => ?_
      refine (retypeSide_leaves (.inl rfl) _ _).imp fun {_ node'} hinputs => ensures_pure.2 ?_
      obtain ⟨hskeleton,htype⟩ := htyped hobj (hinputs.trans houtputs)
      exact ⟨hskeleton,htype,hends⟩

/-- What instructions look at in a node; all of it stays. -/
structure Face where
  id : Json
  op : Json
  connection : Json
  filled : Bool

def faceOf (node : Json) : Face :=
  ⟨fieldOf node "Id",fieldOf node "OperationType",fieldOf node "MechanicConnectionId",node.truthy⟩

/-- The node that an instruction retypes: the first with its id, if that is not empty and its module is modifiable. -/
def reached (modules : Json) (faces : List Face) (step : Json) : Option Nat :=
  (faces.findIdx? fun face => face.id.same (fieldOf step "node_id")).filter fun i =>
    faces[i]?.any fun face => face.filled && isModifiable modules face.op

/-- What an instruction notes of the node that it retypes. -/
def noting (modules : Json) (faces : List Face) (step : Json) : Option (Json×Json) :=
  ((reached modules faces step).bind (faces[·]?)).bind fun face => note face.connection (fieldOf step "new_data_type")

/-- How a node is changed, by the last instruction that retypes it. -/
def RetypedBy : Option Json→Json→Json→Prop
  | none, node, node' => node'=node
  | some step, node, node' => node.truthy ∧ skeleton node'=skeleton node ∧ HasType (fieldOf step "new_data_type") node'

def lastReaching (modules : Json) (faces : List Face) (steps : List Json) (i : Nat) : Option Json :=
  (steps.filter fun step => reached modules faces step=some i).getLast?

def Retyped (modules : Json) (steps nodes nodes' : List Json) : Prop :=
  nodes.length=nodes'.length ∧ ∀ {i node node'}, nodes[i]?=some node → nodes'[i]?=some node' →
    RetypedBy (lastReaching modules (nodes.map faceOf) steps i) node node'

theorem RetypedBy.skeleton_eq (h : RetypedBy last node node') : skeleton node'=skeleton node := by
  cases last with
  | none => exact congrArg skeleton h
  | some step => exact h.2.1

theorem RetypedBy.faceOf_eq (h : RetypedBy last node node') : faceOf node'=faceOf node := by
  cases last with
  | none => exact congrArg faceOf h
  | some step =>
    obtain ⟨htruthy,hskeleton,_,_,-,htype⟩ := h
    have hfield : ∀ key, key∉["GateDataType","SaveData","Inputs","Outputs"] → fieldOf node' key=fieldOf node key := by
      intro key hkey
      have hget := congrFun (congrArg Skeleton.fields hskeleton) key
      simp only [skeleton,fieldsBut,hkey,if_false] at hget
      rw [fieldOf,fieldOf,hget]
    have htruthy' : node'.truthy=true := by
      cases node' with
      | obj fields =>
        cases fields with
        | nil => cases htype
        | cons => rfl
      | _ => cases htype
    simp only [faceOf,hfield "Id" (by decide),hfield "OperationType" (by decide),hfield "MechanicConnectionId" (by decide),
      htruthy,htruthy']

theorem RetypedBy.trans {last' : Option Json} (h : RetypedBy last node w) (h' : RetypedBy last' w node') :
    RetypedBy (last'.or last) node node' := by
  cases last' with
  | none =>
    cases h'
    exact h
  | some step =>
    obtain ⟨htruthy,hskeleton,htype⟩ := h'
    refine ⟨?_,hskeleton.trans h.skeleton_eq,htype⟩
    rwa [← show w.truthy=node.truthy from congrArg Face.filled h.faceOf_eq]

namespace Retyped

variable {step : Json} {steps rest nodes nodes₁ nodes' : List Json} {i : Nat}

theorem map_eq {κ : Type} {f : Json→κ} (h : Retyped modules steps nodes nodes')
    (hf : ∀ {last node node'}, RetypedBy last node node' → f node'=f node) : nodes'.map f=nodes.map f := by
  refine ext_getElem (by simp [h.1]) fun i hi hi' => ?_
  rw [getElem_map,getElem_map]
  exact hf (h.2 (getElem?_eq_getElem _) (getElem?_eq_getElem _))

theorem faces (h : Retyped modules steps nodes nodes') : nodes'.map faceOf=nodes.map faceOf := h.map_eq RetypedBy.faceOf_eq

theorem refl (h : ∀ i, lastReaching modules (nodes.map faceOf) steps i=none) : Retyped modules steps nodes nodes := by
  refine ⟨rfl,fun {i _ _} hnode hnode' => ?_⟩
  rw [h i]
  exact Option.some.inj (hnode'.symm.trans hnode)

theorem one (hreached : ∀ {k}, reached modules (nodes.map faceOf) step=some k → k=i) (hnode : nodes[i]?=some node)
    (h : RetypedBy (lastReaching modules (nodes.map faceOf) [step] i) node node') :
    Retyped modules [step] nodes (nodes.modify i fun _ => node') := by
  refine ⟨by simp,fun {k x y} hx hy => ?_⟩
  by_cases hk : k=i
  · subst hk
    cases hnode.symm.trans hx
    obtain rfl : node'=y := by simpa [hnode] using hy
    exact h
  · obtain rfl : x=y := by simpa [Ne.symm hk,hx] using hy
    have hother : reached modules (nodes.map faceOf) step≠some k := fun h => hk (hreached h)
    simp [lastReaching,hother,RetypedBy]

theorem cons (h : Retyped modules [step] nodes nodes₁) (h' : Retyped modules rest nodes₁ nodes') :
    Retyped modules (step::rest) nodes nodes' := by
  refine ⟨h.1.trans h'.1,fun {i node node'} hnode hnode' => ?_⟩
  have hi : i < nodes₁.length := h.1 ▸ (List.getElem?_eq_some_iff.1 hnode).1
  have hfirst := h.2 hnode (getElem?_eq_getElem hi)
  have hrest := h'.2 (getElem?_eq_getElem hi) hnode'
  rw [h.faces] at hrest
  rw [lastReaching,← singleton_append,filter_append,getLast?_append]
  exact hfirst.trans hrest

end Retyped

theorem findById_eq_ok {nodes : List Json} {found : Option Nat} (h : findById nodeId i nodes=.ok found) :
    found=(((nodes.map faceOf).findIdx? fun face => face.id.same nodeId).filter fun k =>
      (nodes.map faceOf)[k]?.any Face.filled).map (i+·) := by
  induction nodes generalizing i with
  | nil =>
    cases h
    rfl
  | cons node rest ih =>
    obtain ⟨id,hid,h⟩ := bind_eq_ok.1 h
    have hid : id=(faceOf node).id := field_eq_ok hid
    rw [map_cons,findIdx?_cons,← hid]
    by_cases hsame : id.same nodeId
    · rw [if_pos hsame] at h ⊢
      cases h
      cases htruthy : node.truthy <;> simp [Option.filter,faceOf,htruthy]
    · rw [if_neg hsame] at h ⊢
      rw [ih h]
      cases (rest.map faceOf).findIdx? fun face => face.id.same nodeId with
      | none => rfl
      | some k =>
        simp only [Option.map_some,Option.filter_some,getElem?_cons_succ]
        split <;> simp [Nat.add_comm 1 k,Nat.add_assoc]

/-- Only lists have items that can be found. -/
theorem eq_arr_of_findById {v : Json} (h : findById nodeId 0 v.listed=.ok (some i)) : ∃ nodes, v=.arr nodes := by
  cases v with
  | arr nodes => exact ⟨nodes,rfl⟩
  | obj fields => cases fields <;> cases h
  | str s =>
    simp only [listed,each,Except.toOption,Option.getD_some] at h
    cases hs : s.toList <;> rw [hs] at h <;> cases h
  | _ => cases h

theorem retypeNodes_ensures {steps : List Json} (v : Json) :
    Ensures (retypeNodes rules modules changes steps) v fun changes' w =>
      (∃ nodes', Retyped modules steps v.listed nodes' ∧ w=v.withItems nodes') ∧
        changes'.ends=(steps.filterMap (noting modules (v.listed.map faceOf))).reverse++changes.ends := by
  induction steps generalizing changes v with
  | nil => exact ensures_pure.2 ⟨⟨_,.refl fun _ => rfl,v.withItems_listed.symm⟩,rfl⟩
  | cons step rest ih =>
    simp only [retypeNodes,ensures_bind,ensures_lift,ensures_here]
    intro nodeId hid type htype items hitems found hfound
    obtain rfl : fieldOf step "node_id" = nodeId := by rw [fieldOf,item_eq_ok hid,Option.getD_some]
    obtain rfl : fieldOf step "new_data_type" = type := by rw [fieldOf,item_eq_ok htype,Option.getD_some]
    obtain rfl : v.listed=items := by rw [listed,hitems]; rfl
    have hends : (List.filterMap (noting modules (v.listed.map faceOf)) (step::rest)).reverse =
        (rest.filterMap (noting modules (v.listed.map faceOf))).reverse ++
          (noting modules (v.listed.map faceOf) step).toList := by
      rw [filterMap_cons]
      cases noting modules (v.listed.map faceOf) step <;> simp
    rw [hends]
    have hplace := findById_eq_ok hfound
    simp only [Nat.zero_add,Option.map_id'] at hplace
    cases found with
    | none =>
      have hnone : reached modules (v.listed.map faceOf) step=none := by
        rw [reached,Option.filter_eq_none_iff]
        intro i hi
        have hempty := Option.filter_eq_none_iff.1 hplace.symm i hi
        cases hface : (v.listed.map faceOf)[i]? with
        | none => simp
        | some face => simp_all
      refine (ih v).imp fun {changes' w} h => ?_
      obtain ⟨⟨nodes',hretyped,hw⟩,h⟩ := h
      exact ⟨⟨nodes',(Retyped.refl fun i => by simp [lastReaching,hnone]).cons hretyped,hw⟩,by simp [h,noting,hnone]⟩
    | some i =>
      obtain ⟨hi,hany⟩ := Option.filter_eq_some_iff.1 hplace.symm
      obtain ⟨nodes,rfl⟩ := eq_arr_of_findById hfound
      simp only [listed_arr] at hi hany ⊢
      cases hnode : nodes[i]? with
      | none => simp [hnode] at hany
      | some node =>
        have htruthy : node.truthy=true := by simpa [hnode,faceOf] using hany
        have hreached : reached modules (nodes.map faceOf) step =
            if isModifiable modules (fieldOf node "OperationType") then some i else none := by
          rw [reached,hi,Option.filter_some,getElem?_map,hnode]
          simp [faceOf,htruthy]
        rw [ensures_bind,ensures_inItem hnode]
        refine retype_ensures.imp fun {changes₁ node'} h => ?_
        have hstep : RetypedBy (lastReaching modules (nodes.map faceOf) [step] i) node node' ∧
            changes₁.ends=(noting modules (nodes.map faceOf) step).toList++changes.ends := by
          split at h
          · obtain ⟨hskeleton,htype,hends₁⟩ := h
            rw [if_pos ‹_›] at hreached
            simpa [lastReaching,noting,hreached,hnode,RetypedBy,htruthy,hskeleton,htype,faceOf] using hends₁
          · obtain ⟨rfl,rfl⟩ := h
            rw [if_neg ‹_›] at hreached
            simp [lastReaching,noting,hreached,RetypedBy]
        have hone : Retyped modules [step] nodes (nodes.modify i fun _ => node') :=
          .one (fun hk => by grind) hnode hstep.1
        refine (ih _).imp fun {changes' w} h => ?_
        rw [listed_arr,hone.faces,hstep.2] at h
        obtain ⟨⟨nodes',hretyped,hw⟩,h⟩ := h
        exact ⟨⟨nodes',hone.cons hretyped,hw⟩,by rw [h,append_assoc]⟩

end ChipForge.Save
