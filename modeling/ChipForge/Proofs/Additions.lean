import ChipForge.Proofs.FirstContainer
import ChipForge.Proofs.MadeNodes

/-! Whether a node is made for a request, and of which class, depends on the request and the catalogue alone. Nodes are
made in the order of the requests, and the grown graph is written back to where it was found. -/
namespace ChipForge.Save
open Json Wiring
open List hiding lookup insert

variable {desk desk' : Desk} {key : String} {threshold : Option Text.Similarity.Threshold} {needed : Bool}
  {requests : List Json} {catalogue : Json} {found : Option Slot×Json} {slot : Option Slot}
  {graph save list save' : Json} {task : Option Task} {wishes : List Wish} {α β γ : Type} {as : List α} {other : String}
  {created : List Created}

def taskFor (threshold : Option Text.Similarity.Threshold) (catalogue : Json) (names : Table String) :
    Wish→Except Failure (Option Task)
  | .named text => do
    match ← closestModule threshold names text with
    | some id => pure (some (.module id (← catalogue.item id)))
    | none => pure none
  | .input name type => pure (some (.input name type))
  | .output name type => pure (some (.output name type))
  | .constant type => pure (some (.constant type))
  | .variable key gateType value => pure (some (.variable key gateType value))
  | .odd => pure none

def wishClass (threshold : Option Text.Similarity.Threshold) (catalogue : Json) (names : Table String) (wish : Wish) :
    Except Failure (Option Json) := do
  match ← taskFor threshold catalogue names wish with
  | none => pure none
  | some task => taskClass task

/-- The class of the node that is made for a request, none if no node is. -/
def classFor (threshold : Option Text.Similarity.Threshold) (catalogue request : Json) : Except Failure (Option Json) := do
  let names ← moduleNames Table.empty (← catalogue.entries)
  match ← readWish? request with
  | none => pure none
  | some wish => wishClass threshold catalogue names wish

def requestTask (threshold : Option Text.Similarity.Threshold) (catalogue request : Json) :
    Except Failure (Option Task) := do
  let names ← moduleNames Table.empty (← catalogue.entries)
  match ← readWish? request with
  | none => pure none
  | some wish => taskFor threshold catalogue names wish

theorem classFor_eq {request : Json} (h : requestTask threshold catalogue request=.ok task) :
    classFor threshold catalogue request=task.elim (.ok none) taskClass := by
  obtain ⟨entries,names,hentries,hnames,h⟩ := bind_bind_eq_ok.1 h
  obtain ⟨wish,hwish,h⟩ := bind_eq_ok.1 h
  simp only [classFor,hentries,hnames,hwish,bind,Except.bind]
  cases wish with
  | none =>
    cases h
    rfl
  | some wish =>
    simp only [wishClass,h,bind,Except.bind]
    cases task <;> rfl

theorem readWishes_eq_ok (h : result (readWishes requests) desk=(.ok wishes,desk')) :
    desk'={ desk with said := desk'.said } ∧
      ∃ read, Forall₂ (fun request wish => readWish? request=.ok wish) requests read ∧ wishes=read.reduceOption := by
  induction requests generalizing wishes desk with
  | nil =>
    cases h
    exact ⟨rfl,[],.nil,rfl⟩
  | cons request rest ih =>
    obtain ⟨wish,hwish,h⟩ := result_lift_bind_eq_ok.1 h
    cases wish with
    | none =>
      rw [result_say_bind] at h
      obtain ⟨hsaid,read,hread,rfl⟩ := ih h
      exact ⟨hsaid,none::read,.cons hwish hread,reduceOption_cons_of_none read⟩
    | some wish =>
      obtain ⟨others,desk₁,hothers,h⟩ := result_bind_eq_ok.1 h
      cases h
      obtain ⟨hsaid,read,hread,rfl⟩ := ih hothers
      exact ⟨hsaid,some wish::read,.cons hwish hread,reduceOption_cons_of_some wish read⟩

theorem planTasks_eq_ok {names : Table String} {tasks : List Task}
    (h : result (planTasks threshold catalogue names wishes) desk=(.ok tasks,desk')) :
    desk'={ desk with said := desk'.said } ∧
      ∃ planned, Forall₂ (fun wish task => taskFor threshold catalogue names wish=.ok task) wishes planned ∧
        tasks=planned.reduceOption := by
  induction wishes generalizing tasks desk with
  | nil =>
    cases h
    exact ⟨rfl,[],.nil,rfl⟩
  | cons wish rest ih =>
    -- All wishes but the named ones and the odd ones are tasks as they stand.
    have hplain : ∀ {task : Task}, taskFor threshold catalogue names wish=.ok (some task) →
        result (do pure (task::(← planTasks threshold catalogue names rest))) desk=(.ok tasks,desk') →
        desk'={ desk with said := desk'.said } ∧ ∃ planned,
          Forall₂ (fun wish task => taskFor threshold catalogue names wish=.ok task) (wish::rest) planned ∧
            tasks=planned.reduceOption := by
      intro task htask hrun
      obtain ⟨others,desk₁,hothers,hrun⟩ := result_bind_eq_ok.1 hrun
      cases hrun
      obtain ⟨hsaid,planned,hplanned,rfl⟩ := ih hothers
      exact ⟨hsaid,some task::planned,.cons htask hplanned,reduceOption_cons_of_some task planned⟩
    cases wish with
    | named text =>
      obtain ⟨found,hfound,h⟩ := result_lift_bind_eq_ok.1 h
      cases found with
      | none =>
        rw [result_say_bind] at h
        obtain ⟨hsaid,planned,hplanned,rfl⟩ := ih h
        exact ⟨hsaid,none::planned,.cons (bind_eq_ok.2 ⟨none,hfound,rfl⟩) hplanned,
          reduceOption_cons_of_none planned⟩
      | some id =>
        obtain ⟨info,hinfo,h⟩ := result_lift_bind_eq_ok.1 h
        exact hplain (bind_eq_ok.2 ⟨some id,hfound,bind_eq_ok.2 ⟨info,hinfo,rfl⟩⟩) h
    | odd =>
      obtain ⟨hsaid,planned,hplanned,rfl⟩ := ih h
      exact ⟨hsaid,none::planned,.cons rfl hplanned,reduceOption_cons_of_none planned⟩
    | _ => exact hplain rfl h

theorem forall₂_comp {R : α→β→Prop} {S : β→γ→Prop} {T : α→γ→Prop} {bs : List β} {cs : List γ}
    (h : Forall₂ R as bs) (h' : Forall₂ S bs cs) (hcomp : ∀ a b c, R a b→S b c→T a c) : Forall₂ T as cs := by
  induction h generalizing cs with
  | nil =>
    cases h'
    exact .nil
  | cons hab _ ih =>
    cases h' with
    | cons hbc h' => exact .cons (hcomp _ _ _ hab hbc) (ih h')

/-- Where each item leads to at most one item of a next list, and each of those to at most one item further on, items are
matched with where they lead in the end, nothing for those that are left out on the way. -/
theorem forall₂_reduceOption {R : α→Option β→Prop} {S : β→Option γ→Prop} {bs : List (Option β)}
    {cs : List (Option γ)} (h : Forall₂ R as bs) (h' : Forall₂ S bs.reduceOption cs) :
    ∃ ds, Forall₂ (fun a d => (R a none ∧ d=none) ∨ ∃ b, R a (some b) ∧ S b d) as ds ∧
      ds.reduceOption=cs.reduceOption := by
  induction h generalizing cs with
  | nil =>
    cases h'
    exact ⟨[],.nil,rfl⟩
  | @cons a b as bs hab _ ih =>
    cases b with
    | none =>
      rw [reduceOption_cons_of_none] at h'
      obtain ⟨ds,hds,hsame⟩ := ih h'
      exact ⟨none::ds,.cons (.inl ⟨hab,rfl⟩) hds,by rw [reduceOption_cons_of_none,hsame]⟩
    | some b =>
      rw [reduceOption_cons_of_some] at h'
      cases h' with
      | @cons _ d _ cs hbd h' =>
        obtain ⟨ds,hds,hsame⟩ := ih h'
        refine ⟨d::ds,.cons (.inr ⟨b,hab,hbd⟩) hds,?_⟩
        cases d with
        | none => rw [reduceOption_cons_of_none,reduceOption_cons_of_none,hsame]
        | some d => rw [reduceOption_cons_of_some,reduceOption_cons_of_some,hsame]

/-- A node of a class: its id starts with the class. -/
structure IsOf (name : Json) (c : Created) : Prop where
  className : c.className=name
  id : ∃ tail, c.id=name.plain ++ " : " ++ tail

/-- The node made for a request, if one is: it is of the class for the request. -/
structure Serves (threshold : Option Text.Similarity.Threshold) (catalogue request : Json) (made : Option Created) :
    Prop where
  className : classFor threshold catalogue request=.ok (made.map (·.className))
  isOf : ∀ c∈made, IsOf c.className c

/-- The graph of a save and its place. -/
def heldGraph (save : Json) : Except Failure (Slot×Json) := do
  match ← findEntry "chip_graph" save with
  | some (slot,entry) => pure (slot,← (← entry.item "stringValue").parseText)
  | none => throw (.refusal .badValue "在 data.json 中找不到 'chip_graph'，请确认存档文件正确。")

/-- A save whose graph has new nodes last, those that were made in order. The rest of the save may have changed too. -/
def GraphGrown (save : Json) (created : List Created) (save' : Json) : Prop :=
  ∃ slot graph nodes nodes' rest, ∃ records : List Json, heldGraph save=.ok (slot,graph) ∧
    graph.item "Nodes" = .ok nodes ∧ records.foldlM Json.append nodes=.ok nodes' ∧
    records.map (·.get? "Id")=created.map (fun c => some (.str c.id)) ∧
    save'=setText slot (Json.write addedStyle (graph.set "Nodes" nodes')) rest

theorem openGraph_eq_ok {slot : Slot} (h : result openGraph desk=(.ok (slot,graph),desk')) :
    heldGraph desk.save=.ok (slot,graph) ∧ desk'=desk := by
  obtain ⟨save,desk₁,hsave,h⟩ := result_bind_eq_ok.1 h
  cases hsave
  obtain ⟨found,hfound,h⟩ := result_lift_bind_eq_ok.1 h
  cases found with
  | none => cases h
  | some found =>
    obtain ⟨text,htext,h⟩ := result_lift_bind_eq_ok.1 h
    obtain ⟨parsed,hparsed,h⟩ := result_lift_bind_eq_ok.1 h
    cases h
    exact ⟨bind_eq_ok.2 ⟨some found,hfound,bind_eq_ok.2 ⟨text,htext,bind_eq_ok.2 ⟨_,hparsed,rfl⟩⟩⟩,rfl⟩

theorem place_of_heldGraph {slot : Slot} (h : heldGraph save=.ok (slot,graph)) :
    placeOf "chip_graph" save=.ok (some slot) := by
  obtain ⟨found,hfound,h⟩ := bind_eq_ok.1 h
  cases found with
  | none => cases h
  | some found =>
    obtain ⟨text,parsed,-,-,h⟩ := bind_bind_eq_ok.1 h
    cases h
    exact placeOf_eq_ok hfound

/-- Neither the supply of ids nor the place of the graph changes, and no ids are drawn. -/
structure Keeps (desk desk' : Desk) : Prop where
  supply : desk'.supply=desk.supply
  drawn : desk'.drawn=desk.drawn
  place : placeOf "chip_graph" desk'.save=placeOf "chip_graph" desk.save

theorem Keeps.refl (desk : Desk) : Keeps desk desk := ⟨rfl,rfl,rfl⟩

theorem Keeps.trans {desk₁ desk₂ : Desk} (h : Keeps desk desk₁) (h' : Keeps desk₁ desk₂) : Keeps desk desk₂ :=
  ⟨h'.supply.trans h.supply,h'.drawn.trans h.drawn,h'.place.trans h.place⟩

theorem Keeps.of_said (h : desk'={ desk with said := desk'.said }) : Keeps desk desk' := by
  rw [h]
  exact ⟨rfl,rfl,rfl⟩

theorem ensureFirst_keeps (hkey : key ≠ "chip_graph") {found : Slot×Json}
    (h : result (ensureFirst key) desk=(.ok found,desk')) : Keeps desk desk' := by
  obtain ⟨entries,added,hat,rfl,hfound⟩ := findInList_ensureFirst hkey h
  refine ⟨rfl,rfl,placeOf_updateEntries fun list hlist => ?_⟩
  cases hat.symm.trans hlist
  exact congrArg (Except.map (Option.map (·.1))) hfound

theorem checkEntries_eq_ok (h : result (checkEntries needed) desk=(.ok (),desk')) : desk'=desk := by
  cases needed with
  | false =>
    cases h
    rfl
  | true =>
    obtain ⟨save,desk₁,hsave,h⟩ := result_bind_eq_ok.1 h
    cases hsave
    -- Only a list of entries lets the check pass.
    split at h <;> cases h
    rfl

theorem closeList_keeps (h : result (closeList slot list) desk=(.ok (),desk')) : Keeps desk desk' := by
  cases slot with
  | none =>
    cases h
    exact .refl _
  | some slot =>
    cases h
    exact ⟨rfl,rfl,placeOf_setText _⟩

/-- The list that is read from the first container under a name. It is empty if there is no such entry. -/
def ReadsList (save : Json) (key : String) (list : Json) : Prop :=
  ∃ found, inFirst key save=.ok found ∧ found.elim (.ok (.arr [])) (fun f => listOfEntry f.2)=.ok list

/-- How a list is opened: it is read if it is needed, and the first container has an entry for it then. -/
inductive Opens (key : String) : Json→Bool→Option Slot×Json→Json→Prop
  | pass (save list : Json) : Opens key save false (none,list) save
  | read {save save' list : Json} {i : Nat} (hreads : ReadsList save key list) (hfirst : HasFirst save' key i) :
    Opens key save true (some ⟨0,i⟩,list) save'

def Opened (save : Json) (key : String) (slot : Option Slot) : Prop :=
  ∀ place∈slot, place.container=0 ∧ HasFirst save key place.index

theorem Opens.opened (h : Opens key save needed found save') : Opened save' key found.1 := by
  cases h with
  | pass => exact fun _ hplace => nomatch hplace
  | read _ hfirst =>
    rintro place ⟨⟩
    exact ⟨rfl,hfirst⟩

theorem Opened.of_spares (h : Opened save key slot) (hspares : Spares key save save') : Opened save' key slot := by
  intro place hplace
  obtain ⟨hslot,entry,hentry⟩ := h place hplace
  exact ⟨hslot,entry,hspares _ hentry⟩

theorem listOfEntry_new (hkey : key ≠ "chip_graph") :
    listOfEntry (newEntry key)=.ok (.arr []) := by
  have htext : emptyText key = "[]" := if_neg (by simpa using hkey)
  rw [newEntry,htext]
  rfl

theorem openList_opens (hkey : key ≠ "chip_graph") (h : result (openList needed key) desk=(.ok found,desk')) :
    Opens key desk.save needed found desk'.save ∧ Keeps desk desk' ∧
      ∀ {other}, key≠other → inFirst other desk'.save=inFirst other desk.save := by
  cases needed with
  | false =>
    cases h
    exact ⟨.pass _ _,.refl _,fun _ => rfl⟩
  | true =>
    obtain ⟨⟨slot,entry⟩,desk₁,hensure,h⟩ := result_bind_eq_ok.1 h
    obtain ⟨list,hlist,h⟩ := result_lift_bind_eq_ok.1 h
    cases h
    obtain ⟨hslot,hafter,hbefore⟩ := inFirst_ensureFirst hensure
    obtain ⟨c,i⟩ := slot
    subst hslot
    refine ⟨.read ?_ ⟨entry,hafter⟩,ensureFirst_keeps hkey hensure,fun hother => inFirst_ensureFirst_ne hother hensure⟩
    rcases hbefore with hbefore | ⟨hnone,rfl⟩
    · exact ⟨_,hbefore,hlist⟩
    · exact ⟨none,hnone,(listOfEntry_new hkey).symm.trans hlist⟩

theorem inFirst_of_entryOfFirst? {entry : Json} {slot : Slot} (h : entryOfFirst? key save=some (slot,entry)) :
    slot.container=0 ∧ inFirst key save=.ok (some (slot.index,entry)) := by
  rw [entryOfFirst?] at h
  split at h
  · rename_i i found hfound
    cases h
    refine ⟨rfl,?_⟩
    obtain ⟨containers,hcontainers,hfound⟩ := bind_eq_ok.1 hfound
    split at hfound
    · obtain ⟨container,hcontainer,hfound⟩ := bind_eq_ok.1 hfound
      obtain ⟨objects,list,hobjects,hlist,hfound⟩ := bind_bind_eq_ok.1 hfound
      obtain ⟨listed,hlisted,hfound⟩ := bind_eq_ok.1 hfound
      obtain ⟨hk,hnamed⟩ := findInList_zero hfound
      obtain ⟨value,hvalue⟩ := exists_key_of_isNamed hnamed
      have hentries := entriesOf?_of_listed
        (bind_eq_ok.2 ⟨objects,hobjects,bind_eq_ok.2 ⟨list,hlist,hlisted⟩⟩) hk hvalue
      have hcontainers := get?_of_fieldOr hcontainers (by rintro rfl; cases hcontainer)
      exact inFirst_iff.2 ⟨listed,entriesAt_zero hcontainers hcontainer hentries,hfound⟩
    · cases hfound
  · cases h

theorem openVariables_opens (h : result (openVariables needed) desk=(.ok found,desk')) :
    desk'=desk ∧ Opens "chip_variables" desk.save needed found desk.save := by
  cases needed with
  | false =>
    cases h
    exact ⟨rfl,.pass _ _⟩
  | true =>
    obtain ⟨save,desk₁,hsave,h⟩ := result_bind_eq_ok.1 h
    cases hsave
    cases hentry : entryOfFirst? "chip_variables" desk.save with
    | none =>
      rw [hentry] at h
      cases h
    | some place =>
      rw [hentry] at h
      obtain ⟨list,hlist,h⟩ := result_lift_bind_eq_ok.1 h
      cases h
      obtain ⟨⟨c,i⟩,entry⟩ := place
      obtain ⟨hslot,hfirst⟩ := inFirst_of_entryOfFirst? hentry
      cases hslot
      exact ⟨rfl,.read ⟨_,hfirst,hlist⟩ ⟨entry,hfirst⟩⟩

theorem closeList_spares (hother : other≠key) (hopened : Opened desk.save other slot)
    (h : result (closeList slot list) desk=(.ok (),desk')) : Spares key desk.save desk'.save := by
  cases slot with
  | none =>
    cases h
    exact .of_eq rfl
  | some slot =>
    obtain ⟨c,i⟩ := slot
    obtain ⟨rfl,entry,hentry⟩ := hopened _ rfl
    cases h
    obtain ⟨hat,hnamed⟩ := entryAt_of_inFirst hentry
    exact spares_setText hat hnamed hother _

/-- What becomes of the list that the first container has under a name: if it is needed, it is read, changed and written back,
and otherwise it stays. -/
def Rewrites (save : Json) (key : String) (needed : Bool) (change : Json→Except Failure Json) (save' : Json) : Prop :=
  if needed then ∃ old new, ReadsList save key old ∧ change old=.ok new ∧ HoldsList save' key new
  else Spares key save save'

theorem Opens.rewrites {save₁ save₂ : Json} {desk₃ desk₄ : Desk} {change : Json→Except Failure Json}
    (h : Opens key save₁ needed found save₂) (hbefore : inFirst key save₁=inFirst key save)
    (hbetween : Spares key save₂ desk₃.save) (hclose : result (closeList found.1 list) desk₃=(.ok (),desk₄))
    (hafter : Spares key desk₄.save save') (hchange : change found.2=.ok list) :
    Rewrites save key needed change save' := by
  cases h with
  | pass =>
    cases hclose
    exact ((Spares.of_eq hbefore).trans hbetween).trans hafter
  | read hreads hfirst =>
    obtain ⟨entry,hentry⟩ := hfirst
    obtain ⟨before,hread,hlist⟩ := hreads
    cases hclose
    have hholds : HasFirst desk₃.save key _ := ⟨entry,hbetween _ hentry⟩
    exact ⟨_,list,⟨before,hbefore.symm.trans hread,hlist⟩,hchange,(hholds.holdsList list).of_spares hafter⟩

theorem isInput_eq : isInput=Side.input.isEnd := by
  funext t
  cases t <;> rfl

theorem isOutput_eq : isOutput=Side.output.isEnd := by
  funext t
  cases t <;> rfl

/-- A run of the adder on a save: the graph it found there, the task of each request and what it made, and the place the
grown graph was written to. What it entered comes last in the lists of the first container. -/
structure AddRun (threshold : Option Text.Similarity.Threshold) (catalogue : Json) (requests : List Json)
    (desk desk' : Desk) where
  slot : Slot
  graph : Json
  nodes : Json
  schema : Schema
  tasks : List (Option Task)
  pieces : List (Option Piece)
  nodes' : Json
  rest : Json
  held : heldGraph desk.save=.ok (slot,graph)
  listed : graph.item "Nodes" = .ok nodes
  schema_eq : schemaOf nodes=.ok schema
  asked : Forall₂ (fun request task => requestTask threshold catalogue request=.ok task) requests tasks
  carried : Carries desk.supply schema desk.drawn nodes tasks pieces nodes' desk'.drawn
  place : placeOf "chip_graph" rest=.ok (some slot)
  save : desk'.save=setText slot (Json.write addedStyle (graph.set "Nodes" nodes')) rest
  ends : ∀ side : Side, Rewrites desk.save side.listName (tasks.reduceOption.any side.isEnd)
    (fun old => (side.entered tasks pieces).foldlM Json.append old) desk'.save
  definitions : Rewrites desk.save "chip_variables" (tasks.reduceOption.any isVariable)
    (fun old => tasks.reduceOption.foldlM enterTask old) desk'.save

theorem addModules_run (h : result (addModules (.arr requests) catalogue threshold) desk=(.ok created,desk')) :
    ∃ run : AddRun threshold catalogue requests desk desk', created=run.pieces.reduceOption.map Piece.created := by
  obtain ⟨items,hitems,h⟩ := result_lift_bind_eq_ok.1 h
  cases hitems
  obtain ⟨wishes,desk₁,hwishes,h⟩ := result_bind_eq_ok.1 h
  obtain ⟨⟨slot,graph⟩,desk₂,hgraph,h⟩ := result_bind_eq_ok.1 h
  obtain ⟨nodes,hnodes,h⟩ := result_lift_bind_eq_ok.1 h
  obtain ⟨schema,hschema,h⟩ := result_lift_bind_eq_ok.1 h
  obtain ⟨entries,hentries,h⟩ := result_lift_bind_eq_ok.1 h
  obtain ⟨names,hnames,h⟩ := result_lift_bind_eq_ok.1 h
  obtain ⟨tasks,desk₃,htasks,h⟩ := result_bind_eq_ok.1 h
  obtain ⟨⟨⟩,desk₄,hcheck,h⟩ := result_bind_eq_ok.1 h
  obtain ⟨⟨inputSlot,inputs⟩,desk₅,hinputs,h⟩ := result_bind_eq_ok.1 h
  obtain ⟨⟨outputSlot,outputs⟩,desk₆,houtputs,h⟩ := result_bind_eq_ok.1 h
  obtain ⟨⟨variableSlot,definitions⟩,desk₇,hvariables,h⟩ := result_bind_eq_ok.1 h
  obtain ⟨old,-,h⟩ := result_lift_bind_eq_ok.1 h
  obtain ⟨y,-,h⟩ := result_lift_bind_eq_ok.1 h
  obtain ⟨draft,desk₈,hdraft,h⟩ := result_bind_eq_ok.1 h
  obtain ⟨⟨⟩,desk₉,hclose,h⟩ := result_bind_eq_ok.1 h
  obtain ⟨⟨⟩,desk₁₀,hclose',h⟩ := result_bind_eq_ok.1 h
  obtain ⟨⟨⟩,desk₁₁,hclose'',h⟩ := result_bind_eq_ok.1 h
  cases h
  obtain ⟨hsaid,read,hread,rfl⟩ := readWishes_eq_ok hwishes
  obtain ⟨hheld,rfl⟩ := openGraph_eq_ok hgraph
  obtain ⟨hsaid',planned,hplanned,rfl⟩ := planTasks_eq_ok htasks
  obtain rfl := checkEntries_eq_ok hcheck
  obtain ⟨rfl,hopens₃⟩ := openVariables_opens hvariables
  obtain ⟨hopens₁,hkeeps₁,hspares₁⟩ := openList_opens (by decide) hinputs
  obtain ⟨hopens₂,hkeeps₂,hspares₂⟩ := openList_opens (by decide) houtputs
  have hsame₀ : desk₄.save=desk.save := by rw [hsaid',hsaid]
  have hbefore : Keeps desk desk₇ :=
    (((Keeps.of_said hsaid).trans (.of_said hsaid')).trans hkeeps₁).trans hkeeps₂
  have hafter : Keeps desk₈ desk₁₁ := ((closeList_keeps hclose).trans (closeList_keeps hclose')).trans (closeList_keeps hclose'')
  obtain ⟨pieces,hcarries,hcreated,hsave,hends,hdefinitions⟩ := carryOutAll_carries hdraft
  -- Requests, wishes and tasks are matched step by step.
  obtain ⟨asked,hasked,hsame⟩ := forall₂_reduceOption hread hplanned
  rw [← hsame,hbefore.supply,hbefore.drawn,← hafter.drawn] at hcarries
  obtain ⟨pieces',hcarries',hsame',hentered⟩ := hcarries.expand
  have hplace : placeOf "chip_graph" desk₁₁.save=.ok (some slot) := by
    rw [hafter.place,hsave,hbefore.place,place_of_heldGraph (hsaid ▸ hheld)]
  obtain ⟨entry,hentry⟩ := exists_findEntry hplace
  obtain ⟨hat,hnamed⟩ := entryAt_of_findEntry hentry
  -- Each list stays as it is while others are opened and closed, and while the graph is written.
  have hdraft₈ (key : String) : Spares key desk₇.save desk₈.save := .of_eq (by rw [hsave])
  have hinputs₈ : Spares "chip_inputs" desk₅.save desk₈.save :=
    (Spares.of_eq (hspares₂ (by decide))).trans (hdraft₈ _)
  have hclosed₁ {key : String} (hkey : "chip_inputs" ≠ key) : Spares key desk₈.save desk₉.save :=
    closeList_spares hkey (hopens₁.opened.of_spares hinputs₈) hclose
  have houtputs₉ : Spares "chip_outputs" desk₇.save desk₉.save := (hdraft₈ _).trans (hclosed₁ (by decide))
  have hclosed₂ {key : String} (hkey : "chip_outputs" ≠ key) : Spares key desk₉.save desk₁₀.save :=
    closeList_spares hkey (hopens₂.opened.of_spares houtputs₉) hclose'
  have hvariables₁₀ : Spares "chip_variables" desk₇.save desk₁₀.save :=
    ((hdraft₈ _).trans (hclosed₁ (by decide))).trans (hclosed₂ (by decide))
  have hclosed₃ {key : String} (hkey : "chip_variables" ≠ key) : Spares key desk₁₀.save desk₁₁.save :=
    closeList_spares hkey (hopens₃.opened.of_spares hvariables₁₀) hclose''
  have hwritten {key : String} (hkey : "chip_graph" ≠ key) := spares_setText hat hnamed hkey
    (Json.write addedStyle (graph.set "Nodes" draft.nodes))
  have hbefore₁ : inFirst "chip_inputs" desk₄.save=inFirst "chip_inputs" desk.save := by rw [hsame₀]
  have hbefore₂ : inFirst "chip_outputs" desk₅.save=inFirst "chip_outputs" desk.save := by
    rw [hspares₁ (by decide),hsame₀]
  have hbefore₃ : inFirst "chip_variables" desk₇.save=inFirst "chip_variables" desk.save := by
    rw [hspares₂ (by decide),hspares₁ (by decide),hsame₀]
  rw [hsame] at hentered
  refine ⟨⟨slot,graph,nodes,schema,asked,pieces',draft.nodes,desk₁₁.save,?_,hnodes,hschema,hasked.imp ?_,
    hcarries',hplace,rfl,fun side => ?_,?_⟩,?_⟩
  · rwa [hsaid] at hheld
  · intro request task htask
    refine bind_eq_ok.2 ⟨entries,hentries,bind_eq_ok.2 ⟨names,hnames,bind_eq_ok.2 ?_⟩⟩
    rcases htask with ⟨hwish,rfl⟩ | ⟨wish,hwish,htask⟩
    · exact ⟨none,hwish,rfl⟩
    · exact ⟨some wish,hwish,htask⟩
  · rw [hentered side,hsame]
    cases side with
    | input =>
      rw [isInput_eq] at hopens₁
      exact hopens₁.rewrites hbefore₁ hinputs₈ hclose
        (((hclosed₂ (by decide)).trans (hclosed₃ (by decide))).trans (hwritten (by decide))) (hends .input)
    | output =>
      rw [isOutput_eq] at hopens₂
      exact hopens₂.rewrites hbefore₂ houtputs₉ hclose' ((hclosed₃ (by decide)).trans (hwritten (by decide))) (hends .output)
  · rw [hsame]
    exact hopens₃.rewrites hbefore₃ hvariables₁₀ hclose'' (hwritten (by decide)) hdefinitions
  · rw [hsame']
    exact hcreated

/-- The adder makes nodes in the order of the requests, one for each request that has a class, and none for the others. -/
theorem addModules_serves (h : result (addModules (.arr requests) catalogue threshold) desk=(.ok created,desk')) :
    ∃ made, Forall₂ (Serves threshold catalogue) requests made ∧ created=made.reduceOption ∧
      GraphGrown desk.save created desk'.save := by
  obtain ⟨run,rfl⟩ := addModules_run h
  refine ⟨run.pieces.map (Option.map Piece.created),?_,?_,run.slot,run.graph,run.nodes,run.nodes',run.rest,
    run.pieces.reduceOption.map Piece.record,run.held,run.listed,run.carried.append_records,?_,run.save⟩
  · rw [List.forall₂_map_right_iff]
    refine forall₂_comp run.asked run.carried.forall₂ fun request task piece htask hpiece => ?_
    rcases hpiece with ⟨hclass,rfl⟩ | ⟨t,p,nodes,rfl,rfl,hmakes⟩
    · exact ⟨(classFor_eq htask).trans hclass,by simp⟩
    · refine ⟨(classFor_eq htask).trans hmakes.className,?_⟩
      rintro c ⟨⟩
      exact ⟨rfl,_,hmakes.id⟩
  · rw [reduceOption_map]
  · rw [map_map,map_map]
    exact map_congr_left fun p hp => (run.carried.shows_of_mem (reduceOption_mem_iff.1 hp)).id

variable (run : AddRun threshold catalogue requests desk desk')

theorem AddRun.holds {slot : Slot} (hheld : heldGraph desk.save=.ok (slot,graph)) (hlist : graph.item "Nodes" = .ok list) :
    run.slot=slot ∧ run.nodes=list := by
  obtain ⟨hslot,hgraph⟩ := Prod.mk.inj (Except.ok.inj (run.held.symm.trans hheld))
  have hlisted := run.listed
  rw [hgraph] at hlisted
  exact ⟨hslot,Except.ok.inj (hlisted.symm.trans hlist)⟩

theorem AddRun.request_of_task {i : Nat} (htask : run.tasks[i]?=some task) :
    ∃ request∈requests, requestTask threshold catalogue request=.ok task := by
  obtain ⟨hi,rfl⟩ := List.getElem?_eq_some_iff.1 htask
  have hlt : i < requests.length := run.asked.length_eq ▸ hi
  exact ⟨requests[i],getElem_mem hlt,run.asked.get hlt hi⟩

theorem result_of_ids {m : Edit (List Created)} {ids : List String}
    (h : ((result m desk).1.toOption.map fun created => created.map (·.id))=some ids) :
    ∃ created desk', result m desk=(.ok created,desk') ∧ created.map (·.id)=ids := by
  rcases hm : result m desk with ⟨f | created,desk'⟩
  · rw [hm] at h
    cases h
  · rw [hm] at h
    exact ⟨created,desk',rfl,Option.some.inj h⟩

end ChipForge.Save
