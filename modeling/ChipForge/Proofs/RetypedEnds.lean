import ChipForge.Proofs.RetypedSaves

/-! Retyping changes no more than the types of the nodes that instructions reach and of the entries whose keys these
nodes carry. In a save with one container the entries end with the types of the nodes. The keys are kept from one
container to the next, so an entry may follow a node of an earlier container. -/
namespace ChipForge.Save
open Json Wiring
open List hiding lookup insert

variable {rules modules : Json} {steps : List Json} {faces : List Face} {desk desk' : Desk} {r : Unit} {form : EndForm}
  {item item' : Json} {nodes nodes' : List Json}

theorem noting_eq_some {step : Json} {e : Json×Json} : noting modules faces step=some e ↔
    ∃ i face, reached modules faces step=some i ∧ faces[i]?=some face ∧ face.connection.truthy ∧
      e=(face.connection,fieldOf step "new_data_type") := by
  simp only [noting,note,Option.bind_eq_some_iff]
  constructor
  · rintro ⟨face,⟨i,hi,hface⟩,he⟩
    split at he
    · cases he
      exact ⟨i,face,hi,hface,‹_›,rfl⟩
    · cases he
  · rintro ⟨i,face,hi,hface,htruthy,rfl⟩
    exact ⟨face,⟨i,hi,hface⟩,if_pos htruthy⟩

theorem Follows.eq_self {ends : List (Json×Json)} (h : Follows ends form item item')
    (hends : ∀ e∈ends, e.1.same (fieldOf item "Key")=false) : item'=item := by
  unfold Follows at h
  rw [find?_eq_none.2 fun e he => by rw [hends e he]; decide] at h
  exact h

theorem Retyped.untouched {i : Nat} (h : Retyped modules steps nodes nodes')
    (hi : ∀ step∈steps, reached modules (nodes.map faceOf) step≠some i) : nodes'[i]?=nodes[i]? := by
  have hlast : lastReaching modules (nodes.map faceOf) steps i=none := by
    rw [lastReaching,getLast?_eq_none_iff,filter_eq_nil_iff]
    simpa using hi
  cases hnode : nodes[i]? with
  | none =>
    rw [getElem?_eq_none_iff] at hnode ⊢
    exact h.1 ▸ hnode
  | some node =>
    have hi : i < nodes'.length := h.1 ▸ (List.getElem?_eq_some_iff.1 hnode).1
    have hsame := h.2 hnode (getElem?_eq_getElem hi)
    rw [hlast] at hsame
    rw [getElem?_eq_getElem hi,show nodes'[i]=node from hsame]

/-- The nodes stay in place with all but the types and data of those that instructions reach. -/
def NodesKept (modules : Json) (steps nodes nodes' : List Json) : Prop :=
  nodes'.map skeleton=nodes.map skeleton ∧
    ∀ i, (∀ step∈steps, reached modules (nodes.map faceOf) step≠some i) → nodes'[i]?=nodes[i]?

/-- An entry of an end stays as it is if no node that instructions reach carries its key. -/
def EndKept (modules : Json) (steps containers : List Json) (item item' : Json) : Prop :=
  (∀ c∈containers, ∀ i face, (facesIn c)[i]?=some face → face.connection.same (fieldOf item "Key") →
    ∀ step∈steps, reached modules (facesIn c) step≠some i) → item'=item

/-- Retyping keeps all but the types and data of the nodes that instructions reach and the entries with their keys. -/
theorem retypeAll_touches (hrun : result (retypeAll (.arr steps) rules modules) desk = (.ok r, desk')) :
    Refitted (fun _ => Reworked (NodesKept modules steps) fun _ => EndKept modules steps (containersOf desk.save))
      desk.save desk'.save := by
  refine (retypeAll_refits hrun).imp fun {before c rest c'} hsave h => h.imp (fun _ h => ?_) fun {_ item _} h hnone => ?_
  · exact ⟨h.map_eq RetypedBy.skeleton_eq,fun i => h.untouched⟩
  · refine h.eq_self fun e he => Bool.eq_false_iff.2 fun hsame => ?_
    obtain ⟨c₁,hc₁,he⟩ := mem_flatMap.1 (mem_reverse.1 he)
    obtain ⟨step,hstep,he⟩ := mem_filterMap.1 he
    obtain ⟨i,face,hreached,hface,-,rfl⟩ := noting_eq_some.1 he
    refine hnone c₁ ?_ i face hface hsame step hstep hreached
    rw [hsave]
    grind

/-- A save with chips that have these nodes and inputs. -/
def chipDesk (chips : List (List Json×List Json)) : Desk :=
  let entry (key text : String) : Json := .obj [("key",.str key),("stringValue",.str text)]
  ⟨.obj [("saveObjectContainers",.arr (chips.map fun (nodes,inputs) => .obj [("saveObjects",.obj [("saveMetaDatas",.arr [
    entry "chip_graph" (Json.write .compact (.obj [("Nodes",.arr nodes)])),
    entry "chip_inputs" (Json.write (.indented 2) (.arr inputs))])])]))],fun _ => "",0,[]⟩

def inputNode (key type : String) : Json :=
  .obj [("Id",.str "A"),("OperationType",.str "Root"),("MechanicConnectionId",.str key),("GateDataType",.str type)]

def inputEntry (key : String) : Json := .obj [("Key",.str key),("GateDataType",.int 2)]

def toEntity : Json := .obj [("node_id",.str "A"),("new_data_type",.int 1)]

def entityRun (desk : Desk) : Except Failure Unit×Desk := result (retypeAll (.arr [toEntity]) (.obj []) (.obj [])) desk

def saveText (desk : Desk) : String := Json.write .compact desk.save

def textAfter? (desk : Desk) : Option String := (entityRun desk).1.toOption.map fun _ => saveText (entityRun desk).2

theorem exists_entityRun {d : Desk} (h : (textAfter? d).isSome) : ∃ desk', entityRun d=(.ok (),desk') := by
  unfold textAfter? at h
  generalize entityRun d=run at h ⊢
  rcases run with ⟨_ | _,desk'⟩
  · cases h
  · exact ⟨desk',rfl⟩

/-- Two chips; the second has an entry with the key of a node of the first. -/
def sharedKeyDesk : Desk := chipDesk [([inputNode "k" "Number"],[]),([],[inputEntry "k"])]

theorem runs_sharedKey : ∃ desk', entityRun sharedKeyDesk=(.ok (),desk') := exists_entityRun (by decide +kernel)

theorem retypeAll_touches_sharedKey : ∃ desk', entityRun sharedKeyDesk = (.ok (), desk') ∧
    Refitted (fun _ => Reworked (NodesKept (.obj []) [toEntity]) fun _ =>
      EndKept (.obj []) [toEntity] (containersOf sharedKeyDesk.save)) sharedKeyDesk.save desk'.save := by
  obtain ⟨desk',hrun⟩ := runs_sharedKey
  exact ⟨desk',hrun,retypeAll_touches hrun⟩

/-- The last instruction that reaches a node with a key. -/
def lastFor (modules : Json) (faces : List Face) (steps : List Json) (key : Json) : Option Json :=
  (steps.filter fun step => (noting modules faces step).any fun e => e.1.same key).getLast?

theorem find?_noted (key : Json) : ((steps.filterMap (noting modules faces)).reverse.find? fun e => e.1.same key).map (·.2) =
    (lastFor modules faces steps key).map (fieldOf · "new_data_type") := by
  have htypes : ((steps.filterMap (noting modules faces)).filter fun e => e.1.same key).map (·.2) =
      (steps.filter fun step => (noting modules faces step).any fun e => e.1.same key).map (fieldOf · "new_data_type") := by
    induction steps with
    | nil => rfl
    | cons step steps ih =>
      rw [filterMap_cons,filter_cons]
      cases hstep : noting modules faces step with
      | none => simpa using ih
      | some e =>
        obtain ⟨_,_,-,-,-,rfl⟩ := noting_eq_some.1 hstep
        rw [filter_cons]
        split <;> simp_all
  rw [← head?_filter,filter_reverse,head?_reverse,lastFor,← getLast?_map,← getLast?_map,htypes]

theorem newType_code {schema : Schema} {g : GateType} {written : Json} (h : newType schema (.int g.code)=.ok written) :
    written=if schema=.names then .str g.name else .int g.code := by
  cases schema with
  | numbers =>
    cases h
    rfl
  | names =>
    cases g <;> cases h <;> rfl

/-- The instructions ask for types by their codes. -/
def Coded (steps : List Json) : Prop := ∀ step∈steps, ∃ g : GateType, fieldOf step "new_data_type" = .int g.code

/-- A node that alone carries a key ends with the type of the last instruction for the key. -/
def NodesAgree (modules : Json) (steps nodes nodes' : List Json) : Prop :=
  ∀ {key : Json} {i : Nat} {step : Json}, lastFor modules (nodes.map faceOf) steps key=some step →
    (∀ {k node}, nodes[k]?=some node→(faceOf node).connection.same key → k=i) →
      ∃ g : GateType, fieldOf step "new_data_type" = .int g.code ∧ ∃ node', nodes'[i]?=some node' ∧
        (node'.get? "GateDataType" = some (.int g.code) ∨ node'.get? "GateDataType" = some (.str g.name))

/-- An entry of an end takes the type of the last instruction for its key, in the form that its type has. -/
def EndAgrees (modules : Json) (faces : List Face) (steps : List Json) (form : EndForm) (item item' : Json) : Prop :=
  match lastFor modules faces steps (fieldOf item "Key") with
  | none => item'=item
  | some step => ∃ (g : GateType) (data : Json), fieldOf step "new_data_type" = .int g.code ∧
      item'=(item.set form.typeField (if (fieldOf item form.typeField).isStr then .str g.name else .int g.code)).set
        form.settingField data

theorem Retyped.nodesAgree (h : Retyped modules steps nodes nodes') (htypes : Coded steps) :
    NodesAgree modules steps nodes nodes' := by
  intro key i step hlast hunique
  have hreach : ∀ {s}, (noting modules (nodes.map faceOf) s).any (fun e => e.1.same key)=true ↔
      reached modules (nodes.map faceOf) s=some i ∧ ∃ node, nodes[i]?=some node ∧
        (faceOf node).connection.truthy ∧ (faceOf node).connection.same key := by
    intro s
    simp only [Option.any_eq_true,noting_eq_some,getElem?_map,Option.map_eq_some_iff]
    constructor
    · rintro ⟨_,⟨k,_,hk,⟨node,hnode,rfl⟩,htruthy,rfl⟩,hsame⟩
      obtain rfl := hunique hnode hsame
      exact ⟨hk,node,hnode,htruthy,hsame⟩
    · rintro ⟨hi,node,hnode,htruthy,hsame⟩
      exact ⟨_,⟨i,_,hi,⟨node,hnode,rfl⟩,htruthy,rfl⟩,hsame⟩
  obtain ⟨hstep,hnoting⟩ := mem_filter.1 (mem_of_getLast? hlast)
  obtain ⟨-,node,hnode,hcarries⟩ := hreach.1 hnoting
  -- The instructions for the key are those that reach the one node with it.
  have hlast' : lastReaching modules (nodes.map faceOf) steps i=some step := by
    rw [lastReaching,← hlast,lastFor]
    refine congrArg getLast? (filter_congr fun s _ => ?_)
    rw [Bool.eq_iff_iff,decide_eq_true_eq,hreach]
    exact ⟨fun hs => ⟨hs,node,hnode,hcarries⟩,And.left⟩
  have hi : i < nodes'.length := h.1 ▸ (List.getElem?_eq_some_iff.1 hnode).1
  have hnode' := h.2 hnode (getElem?_eq_getElem hi)
  rw [hlast'] at hnode'
  obtain ⟨-,-,schema,written,hwritten,htype⟩ := hnode'
  obtain ⟨g,hg⟩ := htypes step hstep
  rw [hg] at hwritten
  refine ⟨g,hg,_,getElem?_eq_getElem hi,?_⟩
  rw [htype,newType_code hwritten]
  cases schema with
  | numbers => exact .inl rfl
  | names => exact .inr rfl

theorem Follows.endAgrees (h : Follows (steps.filterMap (noting modules faces)).reverse form item item')
    (htypes : Coded steps) : EndAgrees modules faces steps form item item' := by
  have hfind := @find?_noted modules steps faces (fieldOf item "Key")
  unfold Follows at h
  unfold EndAgrees
  cases hlast : lastFor modules faces steps (fieldOf item "Key") with
  | none =>
    rw [hlast,Option.map_none,Option.map_eq_none_iff] at hfind
    rwa [hfind] at h
  | some step =>
    rw [hlast,Option.map_some] at hfind
    obtain ⟨e,he,htype⟩ := Option.map_eq_some_iff.1 hfind
    rw [he] at h
    obtain ⟨written,data,hwritten,-,rfl⟩ := h
    obtain ⟨g,hg⟩ := htypes step (mem_filter.1 (mem_of_getLast? hlast)).1
    rw [htype,hg] at hwritten
    refine ⟨g,data,hg,?_⟩
    rw [newType_code hwritten]
    cases (fieldOf item form.typeField).isStr <;> rfl

/-- With one container, the entries of ends and the nodes that carry their keys end with one type. -/
theorem retypeAll_synchronises {c : Json} (hone : containersOf desk.save = [c]) (htypes : Coded steps)
    (hrun : result (retypeAll (.arr steps) rules modules) desk = (.ok r, desk')) :
    Refitted (fun _ => Reworked (NodesAgree modules steps) (EndAgrees modules (facesIn c) steps)) desk.save desk'.save := by
  refine (retypeAll_refits hrun).imp fun {before c₁ rest c'} hsave h => h.imp (fun _ h => h.nodesAgree htypes) fun h => ?_
  obtain ⟨rfl,rfl,-⟩ : before = [] ∧ c = c₁ ∧ rest = [] := by
    rw [hone] at hsave
    cases before <;> simp_all
  exact Follows.endAgrees (by simpa [notedIn] using h) htypes

def oneChipDesk (key type : String) : Desk := chipDesk [([inputNode key type],[inputEntry key])]

theorem retypeAll_synchronises_oneChip : ∃ c desk', containersOf (oneChipDesk "k" "Number").save = [c] ∧
    entityRun (oneChipDesk "k" "Number") = (.ok (), desk') ∧
    Refitted (fun _ => Reworked (NodesAgree (.obj []) [toEntity]) (EndAgrees (.obj []) (facesIn c) [toEntity]))
      (oneChipDesk "k" "Number").save desk'.save := by
  obtain ⟨desk',hrun⟩ : ∃ desk', entityRun (oneChipDesk "k" "Number") = (.ok (),desk') := exists_entityRun (by decide +kernel)
  refine ⟨_,desk',rfl,hrun,retypeAll_synchronises rfl (fun step hstep => ⟨.entity,?_⟩) hrun⟩
  rw [mem_singleton.1 hstep]
  rfl

/-- An empty key is passed over: the node changes and the entry with its key does not. -/
theorem retypeAll_skips_emptyKey : textAfter? (oneChipDesk "" "Number") = some (saveText (oneChipDesk "" "Entity")) := by
  decide +kernel

/-- A container whose graph has none of the instructed ids keeps its nodes. Its entries follow only what was noted in
earlier containers. -/
theorem retypeAll_uninstructed (hrun : result (retypeAll (.arr steps) rules modules) desk = (.ok r, desk')) :
    Refitted (fun before c c' => (∀ face ∈ facesIn c, ∀ step ∈ steps, face.id.same (fieldOf step "node_id") = false) →
      Reworked (fun nodes nodes' => nodes' = nodes) (Follows (before.flatMap (notedIn modules steps)).reverse) c c')
      desk.save desk'.save := by
  refine (retypeAll_refits hrun).imp fun {before c rest c'} _ h hnone => ?_
  have hreached : ∀ step ∈ steps, reached modules (facesIn c) step = none := by
    intro step hstep
    rw [reached,findIdx?_eq_none_iff.2 fun face hface => hnone face hface step hstep]
    rfl
  have hnoted : notedIn modules steps c = [] := by
    refine filterMap_eq_nil_iff.2 fun step hstep => ?_
    rw [noting,hreached step hstep]
    rfl
  refine h.imp (fun hfaces h => ext_getElem? fun i => h.untouched fun step hstep => ?_) fun h => ?_
  · rw [hfaces,hreached step hstep]
    simp
  · rwa [flatMap_append,flatMap_singleton,hnoted,append_nil] at h

theorem retypeAll_uninstructed_sharedKey : ∃ desk', entityRun sharedKeyDesk = (.ok (), desk') ∧
    Refitted (fun before c c' => (∀ face ∈ facesIn c, ∀ step ∈ [toEntity], face.id.same (fieldOf step "node_id") = false) →
      Reworked (fun nodes nodes' => nodes' = nodes) (Follows (before.flatMap (notedIn (.obj []) [toEntity])).reverse) c c')
      sharedKeyDesk.save desk'.save := by
  obtain ⟨desk',hrun⟩ := runs_sharedKey
  exact ⟨desk',hrun,retypeAll_uninstructed hrun⟩

/-- The second chip has no nodes, and yet its entry follows the first. -/
theorem retypeAll_crosses_sharedKey : textAfter? sharedKeyDesk = some (saveText (chipDesk [([inputNode "k" "Entity"], []),
    ([], [.obj [("Key", .str "k"), ("GateDataType", .int 1), ("SerializedValue", .null)]])])) := by decide +kernel

end ChipForge.Save
