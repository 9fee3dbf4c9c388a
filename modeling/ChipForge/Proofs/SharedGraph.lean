import ChipForge.Proofs.Additions
import ChipForge.Save.Connect
import ChipForge.Save.Positions
import Mathlib

/-! Nodes and connections go to the first graph of all containers, constants and places to those of the first container.
So all stages work on one graph exactly if the first container has it. -/
namespace ChipForge.Save
open Json Wiring
open List hiding lookup insert

variable {threshold : Option Text.Similarity.Threshold} {catalogue : Json} {requests : List Json}

variable {save entry : Json} {slot : Slot} {desk desk' : Desk} {i : Nat} {entries : List Json} {j : Nat} {t : Task}
  {p : Piece}

def constantIn (text nodeId value form : Json) : Except Failure (Option Json) := do
  let graph ← text.parseText
  let nodes ← graph.fieldOr "Nodes" (.arr [])
  match ← findByPart nodeId 0 (← nodes.each) with
  | none => pure none
  | some (j,node) =>
    if !node.truthy then pure none
    else
      let changed ← constantNode node value form
      pure (some (graph.set "Nodes" (nodes.updateAt j fun _ => changed)))

def constantResult (save : Json) (slot : Slot) : Option Json → ConstantResult
  | some graph => .done (setText slot (tight graph) save)
  | none => .noNode

theorem setConstant_eq {text : Json} (h : inFirst "chip_graph" save=.ok (some (i,entry)))
    (htext : entry.get? "stringValue" = some text) (nodeId value form : Json) :
    setConstant save nodeId value form=constantResult save ⟨0,i⟩ <$> constantIn text nodeId value form := by
  obtain ⟨list,entries,hlist,hentries,h⟩ := bind_bind_eq_ok.1 h
  rw [setConstant,hlist]
  change (list.each >>= _)=_
  rw [hentries]
  change (findInList _ _ _ >>= _)=_
  rw [h]
  change (entry.item _ >>= _)=_
  rw [item_of_get? htext]
  change (text.parseText >>= _)=_
  simp only [constantIn,map_bind]
  -- The steps up to the search for the node are the same on both sides.
  refine bind_congr (m := Except Failure) fun graph => bind_congr (m := Except Failure) fun nodes =>
    bind_congr (m := Except Failure) fun items => bind_congr (m := Except Failure) fun found => ?_
  rcases found with - | ⟨j,node⟩
  · rfl
  · dsimp only
    split
    · rfl
    · rw [map_bind]
      rfl

def savedBy : Except Failure ConstantResult→Option Json
  | .ok (.done save) => some save
  | _ => none

/-- An instruction that cannot be carried out leaves the save as it is. -/
theorem result_applyConstant (nodeId value form : Json) (desk : Desk) :
    (result (applyConstant nodeId value form) desk).1=.ok (savedBy (setConstant desk.save nodeId value form)).isSome ∧
      (result (applyConstant nodeId value form) desk).2.save =
        (savedBy (setConstant desk.save nodeId value form)).getD desk.save := by
  rw [applyConstant,result_bind_ok (result_getSave desk)]
  cases setConstant desk.save nodeId value form with
  | error f => exact ⟨rfl,rfl⟩
  | ok done => cases done <;> exact ⟨rfl,rfl⟩

def constantSet (text nodeId value form : Json) : Option Json := (constantIn text nodeId value form).toOption.join

theorem savedBy_map (save : Json) (slot : Slot) (r : Except Failure (Option Json)) :
    savedBy (constantResult save slot <$> r)=r.toOption.join.map fun graph => setText slot (tight graph) save := by
  cases r with
  | error f => rfl
  | ok graph => cases graph <;> rfl

def movedIn (positions text : Json) : Except Failure (Json×Nat) := do
  let graph ← text.parseText
  let (nodes,count) ← moveNodes positions (← (← graph.fieldOr "Nodes" (.arr [])).each)
  pure (graph.set "Nodes" (.arr nodes),count)

theorem moveGraph?_ne_some (h : ∀ found, findInList "chip_graph" i entries=.ok found → found=none) (positions : Json)
    (moved : Nat×String×Nat) : moveGraph? positions i entries≠.ok (some moved) := by
  induction entries generalizing i with
  | nil => simp [moveGraph?]
  | cons first rest ih =>
    rw [moveGraph?]
    rw [findInList] at h
    cases hnamed : isNamed "chip_graph" first with
    | error f => simp [bind,Except.bind]
    | ok named =>
      rw [hnamed] at h
      cases named with
      | true => cases h _ rfl
      | false => exact ih h

/-- Places go to the first graph, or to a later one if no node of the first has a place. -/
theorem moveGraph?_found {text : Json} (h : findInList "chip_graph" i entries=.ok (some (j,entry)))
    (htext : entry.get? "stringValue" = some text) (positions : Json) :
    ∃ rest, moveGraph? positions i entries=(movedIn positions text >>= fun moved =>
      if 0 < moved.2 then .ok (some (j,write Style.compact moved.1,moved.2)) else moveGraph? positions (j+1) rest) := by
  induction entries generalizing i with
  | nil => cases h
  | cons first rest ih =>
    obtain ⟨named,hnamed,h⟩ := bind_eq_ok.1 h
    rw [moveGraph?,hnamed]
    cases named with
    | false => exact ih h
    | true =>
      cases h
      refine ⟨rest,?_⟩
      change (entry.item _ >>= _)=_
      rw [item_of_get? htext]
      simp only [movedIn,bind_assoc]
      rfl

theorem le_of_moveGraph? {positions : Json} {count : Nat} {text : String}
    (h : moveGraph? positions i entries=.ok (some (j,text,count))) : i ≤ j := by
  induction entries generalizing i with
  | nil => cases h
  | cons first rest ih =>
    obtain ⟨named,hnamed,h⟩ := bind_eq_ok.1 h
    cases named with
    | false => exact Nat.le_of_succ_le (ih h)
    | true =>
      obtain ⟨_,_,-,-,h⟩ := bind_bind_eq_ok.1 h
      obtain ⟨_,_,-,-,h⟩ := bind_bind_eq_ok.1 h
      obtain ⟨⟨nodes,moved⟩,-,h⟩ := bind_eq_ok.1 h
      dsimp only at h
      split_ifs at h
      · cases h
        exact Nat.le_refl _
      · exact Nat.le_of_succ_le (ih h)

/-- The graph of the first container that is changed when nodes are moved, with its new text. -/
def movedText (positions save : Json) : Except Failure (Option (Nat×String×Nat)) := do
  moveGraph? positions 0 (← (← firstEntries save).each)

theorem result_moveAll (positions : Json) (desk : Desk) :
    (result (moveAll positions) desk).2.save =
      match movedText positions desk.save with
      | .ok (some (i,text,_)) => setText ⟨0,i⟩ text desk.save
      | _ => desk.save := by
  rw [moveAll,result_bind_ok (result_getSave desk)]
  generalize hmoved : movedText positions desk.save=moved
  rw [movedText] at hmoved
  rw [hmoved]
  cases moved with
  | error f =>
    dsimp only
    split_ifs <;> rfl
  | ok found => cases found <;> rfl

/-- Connecting changes the nodes of the graph that a text stands for and writes it back to its place. Nothing is changed if
the text stands for no graph. -/
def ConnectsAt (slot : Slot) (text : String) (desk : Desk) : Prop :=
  ∀ connections name found desk', result (connectAll connections name) desk=(.ok found,desk') →
    match (parse text).toOption.filter (!·.isNull) with
    | none => found=none ∧ desk'.save=desk.save
    | some graph => ∃ count nodes, found=some count ∧ desk'.save =
        setText slot (write Style.spaced.unicode (graph.update "Nodes" fun v => v.withItems nodes)) desk.save

/-- Constants are set in the graph that a text stands for, which is written back to its place. -/
def SetsAt (slot : Slot) (text : String) (desk : Desk) : Prop :=
  ∀ nodeId value form,
    (result (applyConstant nodeId value form) desk).1=.ok (constantSet (.str text) nodeId value form).isSome ∧
      (result (applyConstant nodeId value form) desk).2.save =
        ((constantSet (.str text) nodeId value form).map fun graph => setText slot (tight graph) desk.save).getD desk.save

/-- Nodes of the graph that a text stands for are moved to their places, and the graph is written back. If none of them has a
place, at most a graph that comes later in the container is changed. -/
def MovesAt (slot : Slot) (text : String) (desk : Desk) : Prop :=
  ∀ positions, match movedIn positions (.str text) with
    | .error _ => (result (moveAll positions) desk).2.save=desk.save
    | .ok (_,0) => (result (moveAll positions) desk).2.save=desk.save ∨
        ∃ i text, slot.index < i ∧ (result (moveAll positions) desk).2.save=setText ⟨slot.container,i⟩ text desk.save
    | .ok (graph,_+1) => (result (moveAll positions) desk).2.save=setText slot (write Style.compact graph) desk.save

theorem readableGraph_eq {text : String} (h : findEntry "chip_graph" save=.ok (some (slot,entry)))
    (htext : entry.get? "stringValue" = some (.str text)) :
    readableGraph save=.ok ((parse text).toOption.map fun graph => (slot,graph)) := by
  have hfield : entry.fieldOr "stringValue" (.str "")=.ok (.str text) := by
    cases entry with
    | obj fields =>
      have hlookup : lookup "stringValue" fields=some (.str text) := htext
      simp [fieldOr,field?,hlookup,Except.map]
    | _ => cases htext
  rw [readableGraph,h]
  simp only [hfield,parseText,bind,Except.bind]
  cases parse text <;> rfl

theorem connectsAt_of_findEntry {text : String} (h : findEntry "chip_graph" desk.save=.ok (some (slot,entry)))
    (htext : entry.get? "stringValue" = some (.str text)) : ConnectsAt slot text desk := by
  intro connections name found desk' hrun
  rw [connectAll,result_bind_ok (result_getSave desk),readableGraph_eq h htext,result_ok_bind] at hrun
  generalize (parse text).toOption=parsed at hrun ⊢
  cases parsed with
  | none =>
    cases hrun
    exact ⟨rfl,rfl⟩
  | some graph =>
    dsimp only [Option.map_some] at hrun
    cases hnull : graph.isNull with
    | true =>
      rw [hnull,if_pos rfl] at hrun
      cases hrun
      simp [Option.filter_some,hnull]
    | false =>
      rw [hnull,if_neg Bool.false_ne_true] at hrun
      obtain ⟨list,-,hrun⟩ := result_lift_bind_eq_ok.1 hrun
      obtain ⟨items,hitems,hrun⟩ := result_lift_bind_eq_ok.1 hrun
      obtain ⟨⟨index,ports⟩,-,hrun⟩ := result_lift_bind_eq_ok.1 hrun
      rw [hitems,result_ok_bind] at hrun
      obtain ⟨instructions,-,hrun⟩ := result_lift_bind_eq_ok.1 hrun
      obtain ⟨⟨nodes,count⟩,desk₁,-,hrun⟩ := result_bind_eq_ok.1 hrun
      cases hrun
      simp only [Option.filter_some,hnull]
      exact ⟨count,nodes,rfl,rfl⟩

section First
variable {text : String} {i : Nat}

theorem setsAt_of_inFirst (h : inFirst "chip_graph" desk.save=.ok (some (i,entry)))
    (htext : entry.get? "stringValue" = some (.str text)) : SetsAt ⟨0,i⟩ text desk := by
  intro nodeId value form
  have hsaved := savedBy_map desk.save ⟨0,i⟩ (constantIn (.str text) nodeId value form)
  rw [← setConstant_eq h htext] at hsaved
  obtain ⟨hworked,hsave⟩ := result_applyConstant nodeId value form desk
  rw [hsaved] at hworked hsave
  exact ⟨by rw [hworked,Option.isSome_map]; rfl,hsave⟩

theorem movesAt_of_inFirst (h : inFirst "chip_graph" desk.save=.ok (some (i,entry)))
    (htext : entry.get? "stringValue" = some (.str text)) : MovesAt ⟨0,i⟩ text desk := by
  intro positions
  obtain ⟨entries,hentries,hfound⟩ := inFirst_iff.1 h
  obtain ⟨rest,hmoved⟩ := moveGraph?_found hfound htext positions
  have hall : movedText positions desk.save=moveGraph? positions 0 entries := by
    rw [movedText,firstEntries_iff.2 hentries]
    rfl
  rw [hmoved] at hall
  cases hin : movedIn positions (.str text) with
  | error f =>
    rw [hin] at hall
    simp only [result_moveAll,hall]
    rfl
  | ok moved =>
    obtain ⟨graph,count⟩ := moved
    rw [hin] at hall
    cases count with
    | succ count =>
      simp only [result_moveAll,hall]
      rfl
    | zero =>
      have hlater : movedText positions desk.save=moveGraph? positions (i+1) rest := hall
      simp only [result_moveAll,hlater]
      cases hnext : moveGraph? positions (i+1) rest with
      | error f => exact .inl rfl
      | ok found =>
        cases found with
        | none => exact .inl rfl
        | some found => exact .inr ⟨found.1,found.2.1,le_of_moveGraph? hnext,rfl⟩

end First

/-- Neither constants nor places change the save. -/
structure LeavesSave (desk : Desk) : Prop where
  constants : ∀ nodeId value form, (result (applyConstant nodeId value form) desk).1=.ok false ∧
    (result (applyConstant nodeId value form) desk).2.save=desk.save
  places : ∀ positions, (result (moveAll positions) desk).2.save=desk.save

theorem leavesSave_of_findEntry (h : findEntry "chip_graph" desk.save=.ok (some (slot,entry))) (hslot : slot.container≠0) :
    LeavesSave desk := by
  have hnone : ∀ {list items found}, firstEntries desk.save=.ok list → list.each=.ok items →
      findInList "chip_graph" 0 items=.ok found → found=none := by
    intro list items found hlist hitems hfound
    exact inFirst_eq_none h hslot (bind_eq_ok.2 ⟨list,hlist,bind_eq_ok.2 ⟨items,hitems,hfound⟩⟩)
  constructor
  · intro nodeId value form
    have hsaved : savedBy (setConstant desk.save nodeId value form)=none := by
      cases hresult : setConstant desk.save nodeId value form with
      | error f => rfl
      | ok done =>
        obtain ⟨list,items,hlist,hitems,hresult⟩ := bind_bind_eq_ok.1 hresult
        obtain ⟨found,hfound,hresult⟩ := bind_eq_ok.1 hresult
        cases hnone hlist hitems hfound
        cases hresult
        rfl
    obtain ⟨hworked,hsave⟩ := result_applyConstant nodeId value form desk
    rw [hsaved] at hworked hsave
    exact ⟨hworked,hsave⟩
  · intro positions
    rw [result_moveAll]
    split
    · rename_i i text count hmoved
      obtain ⟨list,items,hlist,hitems,hmoved⟩ := bind_bind_eq_ok.1 hmoved
      exact absurd hmoved (moveGraph?_ne_some (fun _ hfound => hnone hlist hitems hfound) positions _)
    · rfl

/-- A container lists a key in the first of its entries of a name. -/
def ListsKey (save : Json) (container : Nat) (name key : String) : Prop :=
  ∃ entries i entry items, entriesAt save container=some (.arr entries) ∧
    findInList name 0 entries=.ok (some (i,entry)) ∧
    entry.get? "stringValue" = some (.str (write Style.compact (.arr items))) ∧
    ∃ found∈items, found.get? "Key" = some (.str key)

/-- The record made for an end has a key, which a container lists. -/
def EndListed (save : Json) (container : Nat) (record : Json) : Task→Prop
  | .input _ _ => ∃ key, record.get? "MechanicConnectionId" = some (.str key) ∧ ListsKey save container "chip_inputs" key
  | .output _ _ => ∃ key, record.get? "MechanicConnectionId" = some (.str key) ∧ ListsKey save container "chip_outputs" key
  | _ => True

theorem Recorded.connection {n : Node} {record : Json} (h : Recorded n record) :
    record.get? "MechanicConnectionId" = some n.connection := by
  cases h <;> rfl

variable (run : AddRun threshold catalogue requests desk desk')

theorem AddRun.listsKey {side : Side} {name : Json} {key : String} (ht : run.tasks[i]?=some (some t)) (hp : run.pieces[i]?=some (some p))
    (hname : side.name? t=some name) (hkey : p.node.connection=.str key) : ListsKey desk'.save 0 side.listName key := by
  have hmem : endRecord name p.node∈side.entered run.tasks run.pieces := by
    refine mem_flatten.2 ⟨side.entries (some t) (some p),mem_iff_getElem?.2 ⟨i,?_⟩,?_⟩
    · rw [getElem?_zipWith,ht,hp]
    · simp [Side.entries,hname]
  have hneeded : run.tasks.reduceOption.any side.isEnd=true :=
    any_eq_true.2 ⟨t,reduceOption_mem_iff.2 (mem_of_getElem? ht),by rw [Side.isEnd,hname]; rfl⟩
  have hends := run.ends side
  rw [Rewrites,if_pos hneeded] at hends
  obtain ⟨old,new,-,hnew,j,entry,hentry,htext⟩ := hends
  obtain ⟨entries,hentries,hfound⟩ := inFirst_iff.1 hentry
  rcases extends_of_foldlM hnew with ⟨olds,-,rfl⟩ | ⟨hnil,-⟩
  · exact ⟨entries,j,entry,_,hentries,hfound,htext,_,mem_append_right _ hmem,congrArg some hkey⟩
  · rw [hnil] at hmem
    cases hmem

theorem AddRun.endListed (ht : run.tasks[i]?=some (some t)) (hp : run.pieces[i]?=some (some p)) : EndListed desk'.save 0 p.record t := by
  obtain ⟨task,_,_,htask,-,hmakes,-⟩ := run.carried.makes_at hp
  cases ht.symm.trans htask
  have hconnection := hmakes.recorded.connection
  have hlinked := hmakes.linked
  cases t with
  | input name type =>
    obtain ⟨key,hkey⟩ := hlinked
    exact ⟨key,hconnection.trans (congrArg some hkey),run.listsKey ht hp (show Side.input.name? _ = some name from rfl) hkey⟩
  | output name type =>
    obtain ⟨key,hkey⟩ := hlinked
    exact ⟨key,hconnection.trans (congrArg some hkey),run.listsKey ht hp (show Side.output.name? _ = some name from rfl) hkey⟩
  | _ => trivial

/-- A node is made for a request whose task has a class. -/
theorem AddRun.exists_piece {request : Json} (hrequest : requests[i]?=some request)
    (ht : requestTask threshold catalogue request=.ok (some t)) (hclass : taskClass t≠.ok none) :
    ∃ p, run.tasks[i]?=some (some t) ∧ run.pieces[i]?=some (some p) := by
  obtain ⟨task,htask,hasked⟩ := forall₂_getElem? run.asked hrequest
  obtain rfl := Except.ok.inj (hasked.symm.trans ht)
  obtain ⟨piece,hpiece,hmade⟩ := forall₂_getElem? run.carried.forall₂ htask
  rcases hmade with ⟨hnone,-⟩ | ⟨_,p,_,-,rfl,-⟩
  · exact absurd hnone hclass
  · exact ⟨p,htask,hpiece⟩

def AddRun.text : String := write addedStyle (run.graph.set "Nodes" run.nodes')

theorem AddRun.findEntry_text :
    ∃ entry, findEntry "chip_graph" desk'.save=.ok (some (run.slot,entry)) ∧
      entry.get? "stringValue" = some (.str run.text) := by
  rw [run.save]
  exact findEntry_setText run.place run.text

/-- After nodes were added, the graph that has them is the first one of the save, and connections are made there. Constants are
set and nodes are moved there if it stands in the first container, and otherwise not at all. Ends are listed in the first
container. -/
theorem addModules_shares_graph {requests : List Json} {catalogue : Json} {threshold : Option Text.Similarity.Threshold}
    {created : List Created} (h : result (addModules (.arr requests) catalogue threshold) desk = (.ok created, desk')) :
    ∃ run : AddRun threshold catalogue requests desk desk', created = run.pieces.reduceOption.map Piece.created ∧
      (∃ entry, findEntry "chip_graph" desk'.save = .ok (some (run.slot, entry)) ∧
        entry.get? "stringValue" = some (.str run.text)) ∧
      ConnectsAt run.slot run.text desk' ∧
      (run.slot.container = 0 → SetsAt run.slot run.text desk' ∧ MovesAt run.slot run.text desk') ∧
      (run.slot.container ≠ 0 → LeavesSave desk') ∧
      ∀ (i : Nat) (t : Task) (p : Piece), run.tasks[i]? = some (some t) → run.pieces[i]? = some (some p) →
        EndListed desk'.save 0 p.record t := by
  obtain ⟨run,hcreated⟩ := addModules_run h
  obtain ⟨entry,hentry,htext⟩ := run.findEntry_text
  refine ⟨run,hcreated,⟨entry,hentry,htext⟩,connectsAt_of_findEntry hentry htext,fun hslot => ?_,
    leavesSave_of_findEntry hentry,fun i t p ht hp => run.endListed ht hp⟩
  have hfirst := inFirst_of_findEntry hentry hslot
  rw [show run.slot = ⟨0,run.slot.index⟩ by rw [← hslot]]
  exact ⟨setsAt_of_inFirst hfirst htext,movesAt_of_inFirst hfirst htext⟩

def boxOf (entries : List Json) : Json := .obj [("saveObjects",.obj [("saveMetaDatas",.arr entries)])]

def twoBoxes (first second : List Json) : Desk :=
  ⟨.obj [("saveObjectContainers",.arr [boxOf first,boxOf second])],fun n => toString n,0,[]⟩

def emptyGraph : Json := .obj [("key",.str "chip_graph"),("stringValue",.str "\x7b\"Nodes\": []\x7d")]

def inputAndConstant : List Json := [.obj [("type",.str "input")],.obj [("type",.str "constant")]]

theorem heldGraph_first (second : List Json) : heldGraph (twoBoxes [emptyGraph] second).save =
    .ok (⟨0,0⟩,.obj [("Nodes",.arr [])]) := by cbv

theorem heldGraph_second : heldGraph (twoBoxes [] [emptyGraph]).save=.ok (⟨1,0⟩,.obj [("Nodes",.arr [])]) := by cbv

theorem requestTask_input : requestTask none (.obj []) (.obj [("type",.str "input")]) =
    .ok (some (.input (.str "Input") (.int 2))) := by cbv

theorem addModules_shares_graph_first : ∃ created desk' text key,
    result (addModules (.arr inputAndConstant) (.obj []) none) (twoBoxes [emptyGraph] []) = (.ok created, desk') ∧
    created.map (·.id) = ["RootNodeViewModel : 1", "ConstantNodeViewModel : 3"] ∧ ConnectsAt ⟨0, 0⟩ text desk' ∧
    SetsAt ⟨0, 0⟩ text desk' ∧ MovesAt ⟨0, 0⟩ text desk' ∧ ListsKey desk'.save 0 "chip_inputs" key := by
  have hids : ((result (addModules (.arr inputAndConstant) (.obj []) none) (twoBoxes [emptyGraph] [])).1.toOption.map
      fun created => created.map (·.id)) = some ["RootNodeViewModel : 1","ConstantNodeViewModel : 3"] := by decide +kernel
  obtain ⟨created,desk',hrun,hcreated⟩ := result_of_ids hids
  obtain ⟨run,-,-,hconnects,hfirst,-,hends⟩ := addModules_shares_graph hrun
  obtain ⟨hslot,-⟩ := run.holds (heldGraph_first []) rfl
  rw [hslot] at hconnects hfirst
  obtain ⟨p,ht,hp⟩ := run.exists_piece (i := 0) rfl requestTask_input nofun
  obtain ⟨key,-,hkey⟩ := hends 0 _ p ht hp
  exact ⟨created,desk',run.text,key,hrun,hcreated,hconnects,(hfirst rfl).1,(hfirst rfl).2,hkey⟩

/-- Where only the second container has a graph, a constant that was added to it cannot be set, its nodes cannot be moved, and
an input of it is listed in the first container instead. -/
theorem addModules_misses_first : ∃ created desk' key,
    result (addModules (.arr inputAndConstant) (.obj []) none) (twoBoxes [] [emptyGraph]) = (.ok created, desk') ∧
    created.map (·.id) = ["RootNodeViewModel : 1", "ConstantNodeViewModel : 3"] ∧
    (result (applyConstant (.str "ConstantNodeViewModel : 3") (.int 5) (.str "decimal")) desk').1 = .ok false ∧
    (∀ positions, (result (moveAll positions) desk').2.save = desk'.save) ∧
    ListsKey desk'.save 0 "chip_inputs" key ∧ ¬ListsKey desk'.save 1 "chip_inputs" key := by
  have hids : ((result (addModules (.arr inputAndConstant) (.obj []) none) (twoBoxes [] [emptyGraph])).1.toOption.map
      fun created => created.map (·.id)) = some ["RootNodeViewModel : 1","ConstantNodeViewModel : 3"] := by decide +kernel
  have hsecond : (((entriesAt (result (addModules (.arr inputAndConstant) (.obj []) none)
      (twoBoxes [] [emptyGraph])).2.save 1).bind asArr?).map List.length) = some 1 := by decide +kernel
  obtain ⟨created,desk',hrun,hcreated⟩ := result_of_ids hids
  rw [hrun] at hsecond
  obtain ⟨run,-⟩ := addModules_run hrun
  obtain ⟨hslot,-⟩ := run.holds heldGraph_second rfl
  obtain ⟨p,ht,hp⟩ := run.exists_piece (i := 0) rfl requestTask_input nofun
  obtain ⟨key,-,hkey⟩ := run.endListed ht hp
  obtain ⟨entry,hentry,-⟩ := run.findEntry_text
  rw [hslot] at hentry
  have hleaves := leavesSave_of_findEntry hentry (by decide)
  refine ⟨created,desk',key,hrun,hcreated,(hleaves.constants _ _ _).1,hleaves.places,hkey,?_⟩
  rintro ⟨entries,i,found,-,hentries,hfound,-⟩
  obtain ⟨k,-,hk,hnamed⟩ := findInList_eq_ok hfound
  -- The graph is the only entry of its container.
  have hone : entries.length = 1 := by simpa [hentries,asArr?] using hsecond
  obtain rfl : k = 0 := by have := (List.getElem?_eq_some_iff.1 hk).1; omega
  obtain ⟨hgraph,hnamed'⟩ := entryAt_of_findEntry hentry
  have hat : entryAt desk'.save ⟨1,0⟩ = some found := by simp only [entryAt,hentries,Option.bind_some,asArr?,hk]
  exact ne_of_isNamed (by decide) hat hnamed hgraph hnamed' rfl

end ChipForge.Save
