import ChipForge.Proofs.SharedGraph
import ChipForge.Proofs.UniformSchema
import ChipForge.Save.Ends

/-! Adding ends by plain definitions. A run that fails has at most added empty entries for those that were missing. What it
writes by name it tells by the operations alone, while the adder of modules looks at types too and leaves variables out. -/
namespace ChipForge.Save
open Json Wiring Text
open List hiding lookup insert

variable {desk desk' : Desk} {save save' graph : Json} {key : String} {keys : List String} {entries nodes definitions : List Json}
  {schema : Schema} {definition : Json} {named : Bool} {f : Failure} {i : Nat} {catalogue : Json}
  {threshold : Option Similarity.Threshold} {created : List Created}

theorem updateEntries_updateEntries (save : Json) (c : Nat) (f g : Json→Json) :
    updateEntries (updateEntries save c f) c g=updateEntries save c fun list => g (f list) := by
  have hupdate (v : Json) (key : String) (f g : Json→Json) : (v.update key f).update key g=v.update key (g ∘ f) := by
    cases v with
    | obj fields =>
      simp only [update,map_map,Json.obj.injEq,map_inj_left]
      rintro ⟨k,x⟩ -
      by_cases hk : k=key <;> simp [hk]
    | _ => rfl
  have hupdateAt (v : Json) (f g : Json→Json) : (v.updateAt c f).updateAt c g=v.updateAt c (g ∘ f) := by
    cases v <;> simp [updateAt,modify_modify_eq]
  simp only [updateEntries,hupdate,hupdateAt,Function.comp_def]

/-- The new entry for a name that a list has no entry of. -/
def missing (entries : List Json) (key : String) : List Json :=
  match findInList key 0 entries with
  | .ok none => [newEntry key]
  | _ => []

/-- A save whose first container has new entries last, for the names that it had none of. -/
def Filled (keys : List String) (save save' : Json) : Prop :=
  ∃ entries, entriesAt save 0=some (.arr entries) ∧ save'=updateEntries save 0 fun _ => .arr (entries++keys.flatMap (missing entries))

theorem filled_of_ensureFirst {found : Slot×Json} (h : result (ensureFirst key) desk=(.ok found,desk')) :
    Filled [key] desk.save desk'.save := by
  obtain ⟨entries,added,hat,-,rfl,-,hfound⟩ := ensureFirst_eq_ok h
  refine ⟨entries,hat,?_⟩
  rw [flatMap_singleton,missing]
  rcases hfound with ⟨hfound,rfl⟩ | ⟨hnone,-,-,rfl⟩
  · rw [hfound]
  · rw [hnone]

theorem Filled.trans {save₁ : Json} (h : Filled keys save save₁) (h' : Filled [key] save₁ save') (hkey : key∉keys) :
    Filled (keys++[key]) save save' := by
  obtain ⟨entries,hat,rfl⟩ := h
  obtain ⟨entries₁,hat₁,rfl⟩ := h'
  rw [entriesAt_replaced hat] at hat₁
  cases hat₁
  have hother : ∀ entry∈keys.flatMap (missing entries), isNamed key entry=.ok false := by
    intro entry hentry
    obtain ⟨other,hmem,hentry⟩ := mem_flatMap.1 hentry
    rw [missing] at hentry
    split at hentry
    · rw [mem_singleton.1 hentry,isNamed_newEntry,beq_false_of_ne (ne_of_mem_of_not_mem hmem hkey)]
    · cases hentry
  have hsame : missing (entries++keys.flatMap (missing entries)) key=missing entries key := by
    rw [missing,findInList_append_of_ne hother,missing]
  refine ⟨entries,hat,?_⟩
  rw [updateEntries_updateEntries,flatMap_singleton,hsame,flatMap_append,flatMap_singleton,append_assoc]

/-- Failures after which a run only says that it failed. -/
def isForgiven : Failure→Bool
  | .fault .missingKey _ => true
  | .fault .outOfRange _ => true
  | .fault .malformedJson _ => true
  | _ => false

/-- A reading that never fails in a way that is forgiven. -/
def Strict {α : Type} (x : Except Failure α) : Prop := ∀ f, x=.error f → isForgiven f=false

theorem Strict.bind {α β : Type} {x : Except Failure α} {k : α→Except Failure β} (hx : Strict x) (hk : ∀ a, Strict (k a)) :
    Strict (x >>= k) := by
  intro f h
  cases x with
  | error e =>
    cases h
    exact hx f rfl
  | ok a => exact hk a f h

theorem findInList_strict (i : Nat) (entries : List Json) : Strict (findInList key i entries) := by
  induction entries generalizing i with
  | nil => exact nofun
  | cons entry rest ih =>
    refine .bind (fun f h => ?_) fun named => ?_
    · cases entry <;> cases h <;> rfl
    · split
      · exact nofun
      · exact ih (i+1)

theorem ensureEntry_strict (list : Json) (key : String) : Strict (ensureEntry list key) := by
  refine .bind (fun f h => ?_) fun items => .bind (findInList_strict 0 items) fun found => ?_
  · cases list <;> cases h <;> rfl
  · cases found with
    | some found => exact nofun
    | none => exact .bind (fun f h => by cases list <;> cases h <;> rfl) fun _ => nofun

/-- Making sure of an entry fails in a way that is forgiven only if there is no place for entries. -/
theorem ensureFirst_error (h : result (ensureFirst key) desk=(.error f,desk')) (hf : isForgiven f=true) :
    firstEntries desk.save=.error f ∧ desk'=desk := by
  rw [ensureFirst,result_bind_ok (result_getSave desk),result_lift_bind] at h
  cases hlist : firstEntries desk.save with
  | error e =>
    rw [hlist] at h
    cases h
    exact ⟨rfl,rfl⟩
  | ok list =>
    rw [hlist] at h
    rcases result_bind_eq_error h with h | ⟨_,_,_,h⟩
    · rw [result_lift] at h
      obtain ⟨h,-⟩ := Prod.mk.inj h
      rw [ensureEntry_strict list key f h] at hf
      cases hf
    · cases h

/-- Neither end of an edit has another save. -/
def Quiet {α : Type} (m : Edit α) : Prop := ∀ desk, (result m desk).2.save=desk.save

/-- An edit that changes the save only if it ends well. -/
def SavesLast {α : Type} (m : Edit α) : Prop := ∀ desk f desk', result m desk=(.error f,desk') → desk'.save=desk.save

section Quiet
variable {α β : Type} {m : Edit α} {k : α→Edit β}

theorem Quiet.save_eq {r : Except Failure α} (hm : Quiet m) (h : result m desk=(r,desk')) : desk'.save=desk.save := by
  rw [← hm desk,h]

theorem Quiet.bind (hm : Quiet m) (hk : ∀ a, Quiet (k a)) : Quiet (m >>= k) := by
  intro desk
  rw [result_bind,← hm desk]
  rcases result m desk with ⟨f | a,desk'⟩
  · rfl
  · exact hk a desk'

theorem Quiet.lift (x : Except Failure α) : Quiet (liftM x) := fun desk => by rw [result_lift]

theorem Quiet.pure (a : α) : Quiet (pure a) := fun _ => rfl

theorem Quiet.freshId : Quiet freshId := fun _ => rfl

theorem SavesLast.bind (hm : Quiet m) (hk : ∀ a, SavesLast (k a)) : SavesLast (m >>= k) := by
  intro desk f desk' h
  rcases result_bind_eq_error h with h | ⟨a,desk₁,hrun,h⟩
  · exact hm.save_eq h
  · exact (hk a desk₁ f desk' h).trans (hm.save_eq hrun)

end Quiet

theorem freshKey_quiet (name : Json) : Quiet (freshKey name) :=
  .bind (.lift _) fun _ => .bind .freshId fun _ => .pure _

theorem addEnd_quiet (d : EndDraft) (definition : Json) : Quiet (addEnd schema d definition) := by
  have hplace {n : Json} {make : Json→EndDraft} : Quiet (do
      let graph ← placeIn d.graph n d.nextY
      pure (make graph)) := .bind (.lift _) fun _ => .pure _
  refine .bind (.lift _) fun kind => .bind (.lift _) fun type => ?_
  split_ifs
  · refine .bind (.lift _) fun name => .bind ?_ fun made => .bind (.lift _) fun _ => hplace
    exact .bind (freshKey_quiet _) fun _ => .bind .freshId fun _ => .bind .freshId fun _ => .pure _
  · refine .bind (.lift _) fun name => .bind ?_ fun made => .bind (.lift _) fun _ => hplace
    exact .bind (freshKey_quiet _) fun _ => .bind .freshId fun _ => .bind .freshId fun _ => .pure _
  · refine .bind (.lift _) fun value => .bind ?_ fun node => hplace
    exact .bind .freshId fun _ => .bind .freshId fun _ => .pure _
  · exact .pure _

theorem addEndsTo_quiet (d : EndDraft) (definitions : List Json) : Quiet (addEndsTo schema d definitions) := by
  induction definitions generalizing d with
  | nil => exact .pure _
  | cons definition rest ih => exact .bind (addEnd_quiet d definition) ih

theorem addEnds_eq_ok {definitions : Json} {b : Bool} (h : result (addEnds definitions) desk=(.ok b,desk')) :
    b=true ∧ result (addEndsOrFail definitions) desk=(.ok (),desk') ∨
      b=false ∧ ∃ f desk₁, result (addEndsOrFail definitions) desk=(.error f,desk₁) ∧ isForgiven f=true ∧ desk'.save=desk₁.save := by
  rw [addEnds,result_tryCatch,result_bind] at h
  rcases hrun : result (addEndsOrFail definitions) desk with ⟨f | ⟨⟩,desk₁⟩ <;> rw [hrun] at h
  · dsimp only at h
    split at h <;> cases h
    all_goals exact .inr ⟨rfl,_,_,rfl,rfl,rfl⟩
  · cases h
    exact .inl ⟨rfl,rfl⟩

def endKeys : List String := ["chip_inputs","chip_outputs","chip_graph"]

/-- A failed run leaves the save as it is, but for new entries of the names that it looks for. Without a place for entries it
changes nothing. -/
theorem addEnds_failed {definitions : Json} (h : result (addEnds definitions) desk = (.ok false, desk')) :
    (∃ f, firstEntries desk.save = .error f) ∧ desk'.save = desk.save ∨ Filled endKeys desk.save desk'.save := by
  obtain ⟨⟨⟩,-⟩ | ⟨-,f,desk₁,h,hf,hsave⟩ := addEnds_eq_ok h
  rw [hsave]
  have hlater {desk₂ desk₃ : Desk} {keys : List String} {key : String} (hfilled : Filled keys desk.save desk₂.save)
      (h : result (ensureFirst key) desk₂ = (.error f,desk₃)) : False := by
    obtain ⟨entries,hat,hsave⟩ := hfilled
    have hlist := (ensureFirst_error h hf).1
    rw [firstEntries_iff.2 (hsave ▸ entriesAt_replaced hat _)] at hlist
    cases hlist
  rcases result_bind_eq_error h with h | ⟨⟨inputSlot,inputEntry⟩,desk₂,hinputs,h⟩
  · obtain ⟨hlist,rfl⟩ := ensureFirst_error h hf
    exact .inl ⟨⟨f,hlist⟩,rfl⟩
  have hfilled := filled_of_ensureFirst hinputs
  rcases result_bind_eq_error h with h | ⟨⟨outputSlot,outputEntry⟩,desk₃,houtputs,h⟩
  · exact (hlater hfilled h).elim
  replace hfilled := hfilled.trans (filled_of_ensureFirst houtputs) (by decide)
  rcases result_bind_eq_error h with h | ⟨⟨graphSlot,graphEntry⟩,desk₄,hgraph,h⟩
  · exact (hlater hfilled h).elim
  replace hfilled := hfilled.trans (filled_of_ensureFirst hgraph) (by decide)
  -- What follows changes the save only at its very end, where nothing can fail.
  have hlast : desk₁.save = desk₄.save := by
    refine (?_ : SavesLast _) _ _ _ h
    iterate 10 refine .bind (.lift _) fun _ => ?_
    refine .bind (addEndsTo_quiet _ _) fun d desk f desk' h => ?_
    cases h
  rw [hlast]
  exact .inr hfilled

/-- A graph whose text cannot be read, in a container that has no lists of ends. -/
def brokenGraph : Desk := twoBoxes [.obj [("key",.str "chip_graph"),("stringValue",.str "")]] []

theorem addEnds_failed_broken : ∃ desk', result (addEnds (.arr [])) brokenGraph = (.ok false, desk') ∧
    Filled endKeys brokenGraph.save desk'.save := by
  have hrun := result_eq_ok (m := addEnds (.arr [])) (s := brokenGraph) (a := false) (by decide +kernel)
  obtain ⟨⟨f,hf⟩,-⟩ | hfilled := addEnds_failed hrun
  · cases hf
  · exact ⟨_,hrun,hfilled⟩

/-- A run that fails on its graph has added two lists before. -/
theorem addEnds_failed_adds : ∃ desk', result (addEnds (.arr [])) brokenGraph = (.ok false, desk') ∧
    desk'.save ≠ brokenGraph.save := by
  refine ⟨_,result_eq_ok (m := addEnds (.arr [])) (by decide +kernel),fun heq => ?_⟩
  have hthree : ((entriesAt (result (addEnds (.arr [])) brokenGraph).2.save 0).bind asArr?).map length = some 3 := by
    decide +kernel
  rw [heq] at hthree
  exact absurd hthree (by decide +kernel)

/-- What tells the schema of a node: its operation, and whether its types are written by name. -/
def written (record : Json) : Option Json×Option Bool×List (Option Bool)×List (Option Bool) :=
  (record.get? "OperationType",(record.get? "GateDataType").map isStr,(typesOn record "Inputs").map (Option.map isStr),
    (typesOn record "Outputs").map (Option.map isStr))

def Form.written (form : Form) : Option Json×Option Bool×List (Option Bool)×List (Option Bool) :=
  (some form.operation,some form.type.isStr,form.inputs.map (some ·.isStr),form.outputs.map (some ·.isStr))

theorem Shows.written {n : Node} {record : Json} (h : Shows n record) : written record=n.form.written := by
  rw [Save.written,h.operation,h.type,h.typesOn_inputs,h.typesOn_outputs,map_map,map_map]
  rfl

/-- A definition of an end or a constant. -/
def definesEnd (definition : Json) : Bool :=
  match definition.get? "type" with
  | some (.str word) => isSpecialWord word
  | _ => false

/-- How a schema writes the node for a definition. -/
def endForm (schema : Schema) (definition : Json) : Form :=
  let t := endType schema ((definition.get? "dataType").getD (.int 2))
  match fieldOf definition "type" with
  | .str "input" => ⟨schema.operation "Root" 256,t,[],[t]⟩
  | .str "output" => ⟨schema.operation "Exit" 512,t,[t],[]⟩
  | _ => ⟨schema.operation "Constant" 257,t,[],[t]⟩

theorem word_of_definesEnd (h : definesEnd definition=true) : ∃ word, definition.get? "type" = some (.str word) ∧
    (word = "input" ∨ word = "output" ∨ word = "constant") := by
  rw [definesEnd] at h
  split at h
  · rename_i word hword
    exact ⟨word,hword,by simpa [isSpecialWord,or_assoc] using h⟩
  · cases h

/-- The two schemas write each operation in different ways. -/
theorem endForm_inj {schema' : Schema} (h : (endForm schema definition).written=(endForm schema' definition).written) :
    schema=schema' := by
  have hoperation := congrArg Prod.fst h
  unfold endForm at hoperation
  dsimp only at hoperation
  split at hoperation <;> cases schema <;> cases schema' <;> first | rfl | cases hoperation

theorem addEnd_writes {d d' : EndDraft} (hend : definesEnd definition=true) (hnodes : d.graph.get? "Nodes" = some (.arr nodes))
    (h : result (addEnd schema d definition) desk=(.ok d',desk')) : ∃ record,
      written record=(endForm schema definition).written ∧ d'.graph.get? "Nodes" = some (.arr (nodes++[record])) := by
  have hplaced {n : Node} {graph' : Json} (hform : n.form=endForm schema definition)
      (h : placeIn d.graph n.toJson d.nextY=.ok graph') : ∃ record,
        written record=(endForm schema definition).written ∧ graph'.get? "Nodes" = some (.arr (nodes++[record])) := by
    rw [placeIn,settle_toJson] at h
    obtain ⟨_,hsettled,h⟩ := bind_eq_ok.1 h
    cases hsettled
    obtain ⟨_,_,hlist,happend,h⟩ := bind_bind_eq_ok.1 h
    rw [item_of_get? hnodes] at hlist
    cases hlist
    cases happend
    cases h
    exact ⟨_,hform ▸ (Recorded.settled d.nextY).shows.written,get?_set_self _ hnodes⟩
  obtain ⟨kind,hkind,h⟩ := result_lift_bind_eq_ok.1 h
  obtain ⟨type,htype,h⟩ := result_lift_bind_eq_ok.1 h
  obtain ⟨word,hword,hcases⟩ := word_of_definesEnd hend
  obtain rfl : kind=.str word := by rw [field_eq_ok hkind,hword]; rfl
  obtain rfl := fieldOr_eq_ok htype
  rcases hcases with rfl | rfl | rfl
  · rw [if_pos (by decide)] at h
    obtain ⟨name,-,h⟩ := result_lift_bind_eq_ok.1 h
    obtain ⟨⟨entry,node⟩,desk₁,hmake,h⟩ := result_bind_eq_ok.1 h
    obtain ⟨inputs,-,h⟩ := result_lift_bind_eq_ok.1 h
    obtain ⟨graph',hplace,h⟩ := result_lift_bind_eq_ok.1 h
    cases h
    obtain ⟨-,-,draw,hnew⟩ := makeInput_isNew hmake
    exact hplaced (hnew.form.trans (by simp [endForm,fieldOf,hword])) hplace
  · rw [if_neg (by decide),if_pos (by decide)] at h
    obtain ⟨name,-,h⟩ := result_lift_bind_eq_ok.1 h
    obtain ⟨⟨entry,node⟩,desk₁,hmake,h⟩ := result_bind_eq_ok.1 h
    obtain ⟨outputs,-,h⟩ := result_lift_bind_eq_ok.1 h
    obtain ⟨graph',hplace,h⟩ := result_lift_bind_eq_ok.1 h
    cases h
    obtain ⟨-,-,draw,hnew⟩ := makeOutput_isNew hmake
    exact hplaced (hnew.form.trans (by simp [endForm,fieldOf,hword])) hplace
  · rw [if_neg (by decide),if_neg (by decide),if_pos (by decide)] at h
    obtain ⟨value,-,h⟩ := result_lift_bind_eq_ok.1 h
    obtain ⟨node,desk₁,hmake,h⟩ := result_bind_eq_ok.1 h
    obtain ⟨graph',hplace,h⟩ := result_lift_bind_eq_ok.1 h
    cases h
    obtain ⟨draw,hnew⟩ := makeConstant_isNew hmake
    exact hplaced (hnew.form.trans (by simp [endForm,fieldOf,hword])) hplace

/-- A save whose first container has a graph with these nodes, written in a style. -/
def HoldsNodes (style : Style) (nodes : List Json) (save : Json) : Prop :=
  ∃ i entry graph, inFirst "chip_graph" save=.ok (some (i,entry)) ∧ entry.get? "stringValue" = some (.str (write style graph)) ∧
    graph.get? "Nodes" = some (.arr nodes)

theorem inFirst_of_heldGraph (h : heldGraph save=.ok (⟨0,i⟩,graph)) : ∃ entry text,
    inFirst "chip_graph" save=.ok (some (i,entry)) ∧ entry.item "stringValue" = .ok text ∧ text.parseText=.ok graph := by
  obtain ⟨found,hfound,h⟩ := bind_eq_ok.1 h
  rcases found with - | ⟨slot,entry⟩
  · cases h
  · obtain ⟨text,parsed,htext,hparsed,h⟩ := bind_bind_eq_ok.1 h
    cases h
    exact ⟨entry,text,inFirst_of_findEntry hfound rfl,htext,hparsed⟩

theorem HasFirst.setText (h : HasFirst save key i) (slot : Slot) (text : String) :
    HasFirst (setText slot text save) key i :=
  h.elim fun _ h => ⟨_,inFirst_setText h slot text⟩

theorem addEnds_writes (hgraph : heldGraph desk.save=.ok (⟨0,i⟩,graph)) (hnodes : graph.get? "Nodes" = some (.arr nodes))
    (hend : definesEnd definition=true) (h : result (addEnds (.arr [definition])) desk=(.ok true,desk')) :
    ∃ named record, operationsNamed nodes=.ok named ∧ HoldsNodes .compact (nodes++[record]) desk'.save ∧
      written record=(endForm (.ofNames named) definition).written := by
  obtain ⟨-,h⟩ | ⟨⟨⟩,-⟩ := addEnds_eq_ok h
  obtain ⟨⟨inputSlot,inputEntry⟩,desk₁,hinputs,h⟩ := result_bind_eq_ok.1 h
  obtain ⟨⟨outputSlot,outputEntry⟩,desk₂,houtputs,h⟩ := result_bind_eq_ok.1 h
  obtain ⟨⟨⟨c,j⟩,graphEntry⟩,desk₃,hfound,h⟩ := result_bind_eq_ok.1 h
  -- The graph that is found is the one that the save holds.
  obtain ⟨entry,text,hentry,htext,hparsed⟩ := inFirst_of_heldGraph hgraph
  obtain ⟨rfl,hafter,hbefore⟩ := inFirst_ensureFirst hfound
  rw [inFirst_ensureFirst_ne (by decide) houtputs,inFirst_ensureFirst_ne (by decide) hinputs,hentry] at hbefore
  cases hbefore.resolve_right fun hnone => nomatch hnone.1
  iterate 4 obtain ⟨_,-,h⟩ := result_lift_bind_eq_ok.1 h
  obtain ⟨_,htext',h⟩ := result_lift_bind_eq_ok.1 h
  cases htext.symm.trans htext'
  obtain ⟨_,hparsed',h⟩ := result_lift_bind_eq_ok.1 h
  cases hparsed.symm.trans hparsed'
  obtain ⟨list,hlist,h⟩ := result_lift_bind_eq_ok.1 h
  obtain rfl : list=.arr nodes := by rw [fieldOr_eq_ok hlist,hnodes]; rfl
  rw [orElse_arr] at h
  obtain ⟨_,hitems,h⟩ := result_lift_bind_eq_ok.1 h
  cases hitems
  obtain ⟨named,hnamed,h⟩ := result_lift_bind_eq_ok.1 h
  obtain ⟨_,heach,h⟩ := result_lift_bind_eq_ok.1 h
  cases heach
  obtain ⟨d,desk₄,hdraft,h⟩ := result_bind_eq_ok.1 h
  cases h
  obtain ⟨d,desk₅,hadd,hrest⟩ := result_bind_eq_ok.1 hdraft
  cases hrest
  obtain ⟨record,hrecord,hgrown⟩ := addEnd_writes hend hnodes hadd
  have hfirst : HasFirst desk₄.save "chip_graph" j := (addEndsTo_quiet _ _).save_eq hdraft ▸ ⟨_,hafter⟩
  obtain ⟨k,entry',hentry',htext'⟩ := ((hfirst.setText _ _).setText _ _).holdsList d.graph
  exact ⟨named,record,hnamed,⟨k,entry',d.graph,hentry',htext',hgrown⟩,hrecord⟩

theorem requestTask_end {task : Option Task} (hend : definesEnd definition=true)
    (h : requestTask threshold catalogue definition=.ok task) :
    ∃ t, task=some t ∧ taskClass t≠.ok none ∧ ∀ schema nodes, formOf schema nodes t=.ok (endForm schema definition) := by
  obtain ⟨_,_,-,-,h⟩ := bind_bind_eq_ok.1 h
  obtain ⟨wish,hwish,h⟩ := bind_eq_ok.1 h
  obtain ⟨word,hword,hcases⟩ := word_of_definesEnd hend
  cases definition with
  | obj fields =>
    obtain ⟨type,-,htype,-,hwish⟩ := bind_bind_eq_ok.1 hwish
    obtain rfl : type=.str word := by rw [field_eq_ok htype,hword]; rfl
    rcases hcases with rfl | rfl | rfl
    all_goals
      obtain ⟨name,given,-,hgiven,hwish⟩ := bind_bind_eq_ok.1 hwish
      cases hwish
      cases h
      obtain rfl := fieldOr_eq_ok hgiven
      exact ⟨_,rfl,nofun,fun _ _ => by simp [formOf,endForm,fieldOf,hword]⟩
  | _ => cases hword

theorem addModules_writes (hgraph : heldGraph desk.save=.ok (⟨0,i⟩,graph))
    (hnodes : graph.get? "Nodes" = some (.arr nodes)) (hend : definesEnd definition=true)
    (h : result (addModules (.arr [definition]) catalogue threshold) desk=(.ok created,desk')) :
    ∃ named record, graphNamed nodes=.ok named ∧ HoldsNodes addedStyle (nodes++[record]) desk'.save ∧
      written record=(endForm (.ofNames named) definition).written := by
  obtain ⟨run,-⟩ := addModules_run h
  obtain ⟨hslot,hlist⟩ := run.holds hgraph (item_of_get? hnodes)
  obtain ⟨named,hnamed,hschema⟩ := schemaOf_arr.1 (hlist ▸ run.schema_eq)
  obtain ⟨task,_,hasked,hnil,htasks⟩ := forall₂_cons_left_iff.1 run.asked
  cases hnil
  obtain ⟨piece,_,hpiece,hnil,hpieces⟩ := forall₂_cons_left_iff.1 (htasks ▸ run.carried.forall₂)
  cases hnil
  obtain ⟨t,rfl,hclass,hform⟩ := requestTask_end hend hasked
  rcases hpiece with ⟨hnone,-⟩ | ⟨_,p,before,⟨⟩,rfl,hmakes⟩
  · exact absurd hnone hclass
  obtain ⟨entry,hentry,htext⟩ := run.findEntry_text
  have happend := run.carried.append_records
  rw [hpieces,hlist] at happend
  obtain ⟨_,hnew,happend⟩ := bind_eq_ok.1 happend
  cases hnew
  refine ⟨named,p.record,hnamed,⟨run.slot.index,entry,_,inFirst_of_findEntry hentry (by rw [hslot]),htext,?_⟩,?_⟩
  · rw [get?_set_self _ (item_eq_ok run.listed),← Except.ok.inj happend]
  · rw [hmakes.recorded.shows.written,Except.ok.inj (hmakes.form.symm.trans (hform _ _)),hschema]

/-- A search that ends well has found something exactly if some item passes the test. -/
theorem search_iff {search : List Json→Except Failure Bool} (test : Json→Except Failure Bool) (hnil : search []=.ok false)
    (hcons : ∀ x rest, search (x::rest)=(test x >>= fun b => if b then pure true else search rest))
    (h : search nodes=.ok named) : named=true ↔ ∃ x∈nodes, test x=.ok true := by
  induction nodes with
  | nil =>
    cases hnil.symm.trans h
    simp
  | cons x rest ih =>
    rw [hcons] at h
    obtain ⟨b,hb,h⟩ := bind_eq_ok.1 h
    rw [exists_mem_cons_iff,hb]
    cases b with
    | true =>
      cases h
      simp
    | false => simpa using ih h

theorem operationsNamed_iff (h : operationsNamed nodes=.ok named) :
    named=true ↔ ∃ node∈nodes, ∃ s, node.get? "OperationType" = some (.str s) := by
  rw [search_iff (fun node => isStr <$> node.field "OperationType") rfl (fun node rest => ?_) h]
  · refine exists_congr fun node => and_congr_right fun _ => ?_
    cases node with
    | obj fields =>
      show Except.ok ((lookup "OperationType" fields).getD .null).isStr=_ ↔ ∃ s, lookup "OperationType" fields=_
      rcases lookup "OperationType" fields with - | v
      · exact ⟨nofun,nofun⟩
      · cases v <;> simp [isStr,asStr?]
    | _ => exact ⟨nofun,nofun⟩
  · rw [operationsNamed]
    cases node.field "OperationType" <;> rfl

theorem graphNamed_iff (h : graphNamed nodes=.ok named) :
    named=true ↔ ∃ node∈nodes, isVariableNode node=.ok false ∧ nodeNamed node=.ok true := by
  rw [search_iff (fun node => isVariableNode node >>= fun b => if b then pure false else nodeNamed node) rfl
    (fun node rest => ?_) h]
  · refine exists_congr fun node => and_congr_right fun _ => ?_
    rcases isVariableNode node with f | _ | _
    · exact ⟨nofun,nofun⟩
    · exact ⟨fun h => ⟨rfl,h⟩,And.right⟩
    · exact ⟨nofun,nofun⟩
  · rw [graphNamed]
    rcases isVariableNode node with f | _ | _ <;> rfl

/-- Both ways of adding an end or a constant write it alike exactly if their tests for names agree on the graph: some node
writes its operation by name just if some node that is no variable writes a name at all. -/
theorem addEnds_alike_iff {desk₁ desk₂ : Desk} (hgraph : heldGraph desk.save = .ok (⟨0, i⟩, graph))
    (hnodes : graph.get? "Nodes" = some (.arr nodes)) (hend : definesEnd definition = true)
    (hadd : result (addEnds (.arr [definition])) desk = (.ok true, desk₁))
    (hmodules : result (addModules (.arr [definition]) catalogue threshold) desk = (.ok created, desk₂)) :
    ∃ record record', HoldsNodes .compact (nodes ++ [record]) desk₁.save ∧
      HoldsNodes addedStyle (nodes ++ [record']) desk₂.save ∧
      (written record = written record' ↔
        ((∃ node ∈ nodes, ∃ s, node.get? "OperationType" = some (.str s)) ↔
          ∃ node ∈ nodes, isVariableNode node = .ok false ∧ nodeNamed node = .ok true)) := by
  obtain ⟨named,record,hnamed,hholds,hrecord⟩ := addEnds_writes hgraph hnodes hend hadd
  obtain ⟨named',record',hnamed',hholds',hrecord'⟩ := addModules_writes hgraph hnodes hend hmodules
  refine ⟨record,record',hholds,hholds',?_⟩
  rw [← operationsNamed_iff hnamed,← graphNamed_iff hnamed',hrecord,hrecord',← Bool.eq_iff_iff]
  constructor
  · intro h
    have hschema := endForm_inj h
    cases named <;> cases named' <;> first | rfl | cases hschema
  · rintro rfl
    rfl

def variableRecord : Json := .obj [("OperationType",.str "Variable")]

/-- A graph with a variable alone. -/
def variableGraph : Desk :=
  twoBoxes [.obj [("key",.str "chip_graph"),("stringValue",.str "\x7b\"Nodes\": [\x7b\"OperationType\": \"Variable\"\x7d]\x7d")]] []

theorem heldGraph_variable : heldGraph variableGraph.save=.ok (⟨0,0⟩,.obj [("Nodes",.arr [variableRecord])]) := by cbv

theorem added_variableGraph : ∃ desk₁ desk₂ created,
    result (addEnds (.arr [.obj [("type",.str "input")]])) variableGraph=(.ok true,desk₁) ∧
    result (addModules (.arr [.obj [("type",.str "input")]]) (.obj []) none) variableGraph=(.ok created,desk₂) := by
  have hids : ((result (addModules (.arr [.obj [("type",.str "input")]]) (.obj []) none) variableGraph).1.toOption.map
      fun created => created.map (·.id))=some ["RootNodeViewModel : 1"] := by decide +kernel
  obtain ⟨created,desk₂,hmodules,-⟩ := result_of_ids hids
  exact ⟨_,desk₂,created,result_eq_ok (by decide +kernel),hmodules⟩

theorem addEnds_alike_variable : ∃ (desk₁ desk₂ : Desk) (record record' : Json),
    HoldsNodes .compact [variableRecord, record] desk₁.save ∧ HoldsNodes addedStyle [variableRecord, record'] desk₂.save ∧
    written record ≠ written record' := by
  obtain ⟨desk₁,desk₂,created,hadd,hmodules⟩ := added_variableGraph
  obtain ⟨record,record',hholds,hholds',hiff⟩ :=
    addEnds_alike_iff heldGraph_variable rfl (by decide) hadd hmodules
  refine ⟨desk₁,desk₂,record,record',hholds,hholds',fun h => ?_⟩
  obtain ⟨node,hnode,hother,-⟩ := (hiff.1 h).1 ⟨variableRecord,mem_singleton.2 rfl,"Variable",rfl⟩
  rw [mem_singleton.1 hnode] at hother
  exact absurd (congrArg Except.toOption hother) (by decide +kernel)

/-- Beside a variable, one way of adding an input names its operation and the other numbers it. -/
theorem addEnds_unlike : ∃ desk₁ desk₂ created record record',
    result (addEnds (.arr [.obj [("type", .str "input")]])) variableGraph = (.ok true, desk₁) ∧
    result (addModules (.arr [.obj [("type", .str "input")]]) (.obj []) none) variableGraph = (.ok created, desk₂) ∧
    HoldsNodes .compact [variableRecord, record] desk₁.save ∧ HoldsNodes addedStyle [variableRecord, record'] desk₂.save ∧
    record.get? "OperationType" = some (.str "Root") ∧ record'.get? "OperationType" = some (.int 256) := by
  obtain ⟨desk₁,desk₂,created,hadd,hmodules⟩ := added_variableGraph
  obtain ⟨named,record,hnamed,hholds,hrecord⟩ := addEnds_writes heldGraph_variable rfl (by decide) hadd
  obtain ⟨named',record',hnamed',hholds',hrecord'⟩ := addModules_writes heldGraph_variable rfl (by decide) hmodules
  cases hnamed
  cases hnamed'
  exact ⟨desk₁,desk₂,created,record,record',hadd,hmodules,hholds,hholds',congrArg Prod.fst hrecord,
    congrArg Prod.fst hrecord'⟩

end ChipForge.Save
