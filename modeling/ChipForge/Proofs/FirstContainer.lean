import ChipForge.Proofs.Entries

/-! An entry that is found in the first container stays where it is when other entries change, and the graph of the save
is found there exactly if the first graph of all containers is. -/
namespace ChipForge.Save
open Json Wiring
open List hiding lookup insert

variable {key other : String} {save entry : Json} {slot : Slot} {i : Nat} {entries : List Json} {desk desk' : Desk}
  {list save' : Json}

/-- The first entry of a name in the first container, with its number there. -/
def inFirst (key : String) (save : Json) : Except Failure (Option (Nat×Json)) := do
  findInList key 0 (← (← firstEntries save).each)

theorem firstEntries_iff : firstEntries save=.ok list ↔ entriesAt save 0=some list := by
  refine ⟨firstEntries_eq_ok,fun h => ?_⟩
  obtain ⟨container,hcontainer,h⟩ := Option.bind_eq_some_iff.1 h
  obtain ⟨objects,hobjects,hlist⟩ := Option.bind_eq_some_iff.1 h
  cases hget : save.get? "saveObjectContainers" with
  | none => simp [itemsOf,hget] at hcontainer
  | some containers =>
    cases containers with
    | arr items =>
      rw [itemsOf,hget] at hcontainer
      rw [firstEntries,item_of_get? hget]
      have hfirst : (Json.arr items).itemAt 0=.ok container := by simp [itemAt,hcontainer]
      refine bind_eq_ok.2 ⟨_,rfl,bind_eq_ok.2 ⟨container,hfirst,?_⟩⟩
      exact bind_eq_ok.2 ⟨objects,item_of_get? hobjects,item_of_get? hlist⟩
    | _ => simp [itemsOf,hget] at hcontainer

theorem inFirst_eq (h : entriesAt save 0=some (.arr entries)) (key : String) :
    inFirst key save=findInList key 0 entries := by
  rw [inFirst,firstEntries_iff.2 h]
  rfl

theorem eq_arr_of_findInList (h : list.each=.ok entries) (hfound : findInList key 0 entries=.ok (some (i,entry))) :
    list=.arr entries := by
  obtain ⟨hentry,hnamed⟩ := findInList_zero hfound
  obtain ⟨value,hvalue⟩ := exists_key_of_isNamed hnamed
  exact eq_arr_of_each h hentry hvalue

theorem inFirst_iff : inFirst key save=.ok (some (i,entry)) ↔
    ∃ entries, entriesAt save 0=some (.arr entries) ∧ findInList key 0 entries=.ok (some (i,entry)) := by
  constructor
  · intro h
    obtain ⟨list,entries,hlist,hentries,h⟩ := bind_bind_eq_ok.1 h
    obtain rfl := eq_arr_of_findInList hentries h
    exact ⟨entries,firstEntries_iff.1 hlist,h⟩
  · rintro ⟨entries,hentries,h⟩
    rw [inFirst_eq hentries,h]

theorem entryAt_of_inFirst (h : inFirst key save=.ok (some (i,entry))) :
    entryAt save ⟨0,i⟩=some entry ∧ isNamed key entry=.ok true := by
  obtain ⟨entries,hentries,h⟩ := inFirst_iff.1 h
  exact entryAt_of_findInList hentries h

theorem findInList_of_numberIn (h : numberIn key 0 entries=.ok (some i)) (hentry : entries[i]?=some entry) :
    findInList key 0 entries=.ok (some (i,entry)) := by
  obtain ⟨found,hfound,h⟩ := bind_eq_ok.1 h
  obtain ⟨⟨j,entry'⟩,rfl,rfl⟩ := Option.map_eq_some_iff.1 (Except.ok.inj h)
  cases hentry.symm.trans (findInList_zero hfound).1
  exact hfound

theorem numberIn_of_findInList (h : findInList key 0 entries=.ok (some (i,entry))) :
    numberIn key 0 entries=.ok (some i) := by
  rw [numberIn,h]
  rfl

theorem inFirst_setText (h : inFirst key save=.ok (some (i,entry))) (slot : Slot) (text : String) :
    inFirst key (setText slot text save) =
      .ok (some (i,if slot=⟨0,i⟩ then entry.set "stringValue" (.str text) else entry)) := by
  obtain ⟨entries,hentries,h⟩ := inFirst_iff.1 h
  obtain ⟨c,j⟩ := slot
  by_cases hc : c=0
  · subst hc
    refine inFirst_iff.2 ⟨entries.modify j fun e => e.set "stringValue" (.str text),?_,findInList_of_numberIn ?_ ?_⟩
    · rw [setText,entriesAt_updateEntries,if_pos rfl,hentries]
      rfl
    · rw [numberIn_modify,numberIn_of_findInList h]
    · rw [getElem?_modify,(findInList_zero h).1]
      by_cases hj : j=i <;> simp [hj]
  · refine inFirst_iff.2 ⟨entries,?_,?_⟩
    · rw [setText,entriesAt_updateEntries,if_neg hc,hentries]
    · rw [h,if_neg (fun heq => hc (Slot.mk.inj heq).1)]

theorem isNamed_ne (h : isNamed other entry=.ok true) (hother : other≠key) : isNamed key entry=.ok false := by
  obtain ⟨value,hvalue⟩ := exists_key_of_isNamed h
  cases entry with
  | obj fields =>
    have hvalue : lookup "key" fields=some value := hvalue
    simp only [isNamed,field,field?,hvalue,Except.map,Option.getD_some,bind,Except.bind,pure,Except.pure,
      Except.ok.injEq] at h ⊢
    cases value with
    | str s =>
      have hs : s=other := by simpa [same] using h
      simp [same,hs,hother]
    | _ => cases h
  | _ => cases hvalue

theorem ne_of_isNamed {slot' : Slot} {entry' : Json} (hkey : key≠other) (h : entryAt save slot=some entry)
    (hnamed : isNamed key entry=.ok true) (h' : entryAt save slot'=some entry') (hnamed' : isNamed other entry'=.ok true) :
    slot≠slot' := by
  rintro rfl
  rw [h] at h'
  cases h'
  rw [isNamed_ne hnamed' hkey.symm] at hnamed
  cases hnamed

/-- What the first container has under a name, it still has. -/
def Spares (key : String) (save save' : Json) : Prop := ∀ found, inFirst key save=.ok found → inFirst key save'=.ok found

theorem Spares.trans {save₁ save₂ : Json} (h : Spares key save save₁) (h' : Spares key save₁ save₂) : Spares key save save₂ :=
  fun found hfound => h' found (h found hfound)

theorem Spares.of_eq (h : inFirst key save'=inFirst key save) : Spares key save save' :=
  fun _ hfound => h.trans hfound

theorem findInList_modify {j : Nat} (hentry : entries[j]?=some entry) (hnamed : isNamed key entry=.ok false)
    (text : Json) (i : Nat) :
    findInList key i (entries.modify j fun e => e.set "stringValue" text)=findInList key i entries := by
  induction entries generalizing i j with
  | nil => rw [modify_nil]
  | cons first rest ih =>
    cases j with
    | zero =>
      cases hentry
      rw [modify_zero_cons,findInList,findInList,isNamed_set,hnamed]
      rfl
    | succ j => rw [modify_succ_cons,findInList,findInList,ih hentry]

theorem spares_setText (hentry : entryAt save slot=some entry) (hnamed : isNamed other entry=.ok true)
    (hother : other≠key) (text : String) : Spares key save (setText slot text save) := by
  intro found hfound
  obtain ⟨list,hlist,hfind⟩ := bind_eq_ok.1 hfound
  have hat := firstEntries_iff.1 hlist
  obtain ⟨c,j⟩ := slot
  by_cases hc : c=0
  · subst hc
    rw [entryAt,hat] at hentry
    cases list with
    | arr entries =>
      have hat' : entriesAt (setText ⟨0,j⟩ text save) 0 =
          some (.arr (entries.modify j fun e => e.set "stringValue" (.str text))) := by
        rw [setText,entriesAt_updateEntries,if_pos rfl,hat]
        rfl
      rw [inFirst_eq hat',findInList_modify hentry (isNamed_ne hnamed hother),← inFirst_eq hat,hfound]
    | _ => cases hentry
  · refine bind_eq_ok.2 ⟨list,firstEntries_iff.2 ?_,hfind⟩
    rw [setText,entriesAt_updateEntries,if_neg hc,hat]

theorem findInList_append (entries more : List Json) (i : Nat) : findInList key i (entries++more) =
    (findInList key i entries >>= fun found =>
      found.elim (findInList key (i+entries.length) more) fun found => .ok (some found)) := by
  induction entries generalizing i with
  | nil => rfl
  | cons first rest ih =>
    rw [cons_append,findInList,findInList,ih,length_cons,← Nat.add_assoc,Nat.add_right_comm]
    cases isNamed key first with
    | error f => rfl
    | ok named => cases named <;> rfl

theorem entriesAt_replaced (h : entriesAt save 0=some list) (list' : Json) :
    entriesAt (updateEntries save 0 fun _ => list') 0=some list' := by
  rw [entriesAt_updateEntries,if_pos rfl,h]
  rfl

/-- An entry of a name with nothing in it. -/
def newEntry (key : String) : Json := .obj [("key",.str key),("stringValue",.str (emptyText key))]

/-- Making sure of an entry leaves the entries as they are, or adds one of the name where there was none. -/
theorem ensureFirst_eq_ok (h : result (ensureFirst key) desk=(.ok (slot,entry),desk')) :
    ∃ entries added, entriesAt desk.save 0=some (.arr entries) ∧ slot.container=0 ∧
      desk'={ desk with save := updateEntries desk.save 0 fun _ => .arr (entries++added) } ∧
      (∀ e∈added, e=newEntry key) ∧ (findInList key 0 entries=.ok (some (slot.index,entry)) ∧ added=[] ∨
        findInList key 0 entries=.ok none ∧ slot.index=entries.length ∧ entry=newEntry key ∧ added=[newEntry key]) := by
  obtain ⟨save,desk₁,hsave,h⟩ := result_bind_eq_ok.1 h
  cases hsave
  obtain ⟨list,hlist,h⟩ := result_lift_bind_eq_ok.1 h
  obtain ⟨⟨i,found,list'⟩,hensure,h⟩ := result_lift_bind_eq_ok.1 h
  cases h
  obtain ⟨entries,place,hentries,hplace,hensure⟩ := bind_bind_eq_ok.1 hensure
  have hat := firstEntries_iff.1 hlist
  cases place with
  | some place =>
    cases hensure
    obtain rfl := eq_arr_of_findInList hentries hplace
    exact ⟨entries,[],hat,rfl,by rw [append_nil],nofun,.inl ⟨hplace,rfl⟩⟩
  | none =>
    obtain ⟨grown,hgrown,hensure⟩ := bind_eq_ok.1 hensure
    cases hensure
    cases list with
    | arr items =>
      cases hentries
      cases hgrown
      exact ⟨entries,_,hat,rfl,rfl,fun e => mem_singleton.1,.inr ⟨hplace,rfl,rfl,rfl⟩⟩
    | _ => cases hgrown

theorem isNamed_newEntry (key other : String) : isNamed key (newEntry other)=.ok (other == key) := by
  simp [isNamed,newEntry,field,field?,lookup,same,bind,Except.bind,Except.map,pure,Except.pure]

/-- The entry is there afterwards; either it was there before, or there was none and it is a new one. -/
theorem inFirst_ensureFirst (h : result (ensureFirst key) desk=(.ok (slot,entry),desk')) :
    slot.container=0 ∧ inFirst key desk'.save=.ok (some (slot.index,entry)) ∧
      (inFirst key desk.save=.ok (some (slot.index,entry)) ∨ inFirst key desk.save=.ok none ∧ entry=newEntry key) := by
  obtain ⟨entries,added,hat,hslot,rfl,-,hfound⟩ := ensureFirst_eq_ok h
  rw [inFirst_eq hat,inFirst_eq (entriesAt_replaced hat _)]
  rcases hfound with ⟨hfound,rfl⟩ | ⟨hnone,hindex,rfl,rfl⟩
  · exact ⟨hslot,by rw [append_nil,hfound],.inl hfound⟩
  · refine ⟨hslot,?_,.inr ⟨hnone,rfl⟩⟩
    rw [findInList_append,hnone,hindex,← Nat.zero_add entries.length]
    simp [findInList,isNamed_newEntry,bind,Except.bind,pure,Except.pure]

theorem findInList_eq_none (h : ∀ entry∈entries, isNamed key entry=.ok false) (i : Nat) :
    findInList key i entries=.ok none := by
  induction entries generalizing i with
  | nil => rfl
  | cons first rest ih =>
    rw [findInList,h first mem_cons_self]
    exact ih (fun entry hentry => h entry (mem_cons_of_mem _ hentry)) _

theorem findInList_append_of_ne {more : List Json} (h : ∀ entry∈more, isNamed key entry=.ok false) (i : Nat) :
    findInList key i (entries++more)=findInList key i entries := by
  rw [findInList_append,findInList_eq_none h]
  rcases findInList key i entries with f | found
  · rfl
  · cases found <;> rfl

theorem findInList_ensureFirst {found : Slot×Json} (hother : other≠key)
    (h : result (ensureFirst other) desk=(.ok found,desk')) : ∃ entries added, entriesAt desk.save 0=some (.arr entries) ∧
      desk'={ desk with save := updateEntries desk.save 0 fun _ => .arr (entries++added) } ∧
      findInList key 0 (entries++added)=findInList key 0 entries := by
  obtain ⟨entries,added,hat,-,hdesk,hadded,-⟩ := ensureFirst_eq_ok h
  refine ⟨entries,added,hat,hdesk,findInList_append_of_ne (fun entry hentry => ?_) 0⟩
  rw [hadded entry hentry,isNamed_newEntry,beq_false_of_ne hother]

theorem inFirst_ensureFirst_ne {found : Slot×Json} (hother : other≠key)
    (h : result (ensureFirst other) desk=(.ok found,desk')) : inFirst key desk'.save=inFirst key desk.save := by
  obtain ⟨entries,added,hat,rfl,hfound⟩ := findInList_ensureFirst hother h
  rw [inFirst_eq (entriesAt_replaced hat _),inFirst_eq hat,hfound]

/-- Number of the entry that the first container has under a name. -/
def HasFirst (save : Json) (key : String) (i : Nat) : Prop := ∃ entry, inFirst key save=.ok (some (i,entry))

/-- The first container has a list under a name. -/
def HoldsList (save : Json) (key : String) (list : Json) : Prop :=
  ∃ i entry, inFirst key save=.ok (some (i,entry)) ∧ entry.get? "stringValue" = some (.str (write Style.compact list))

theorem HoldsList.of_spares (h : HoldsList save key list) (hspares : Spares key save save') :
    HoldsList save' key list := by
  obtain ⟨i,entry,hentry,htext⟩ := h
  exact ⟨i,entry,hspares _ hentry,htext⟩

theorem HasFirst.holdsList (h : HasFirst save key i) (list : Json) :
    HoldsList (Save.setText ⟨0,i⟩ (write Style.compact list) save) key list := by
  obtain ⟨entry,h⟩ := h
  obtain ⟨value,hvalue⟩ := exists_key_of_isNamed (entryAt_of_inFirst h).2
  refine ⟨i,_,inFirst_setText h _ _,?_⟩
  rw [if_pos rfl]
  exact get?_set_self _ hvalue

/-- The first entry of a name in a save is that of the first container, if it stands there. -/
theorem inFirst_of_findEntry (h : findEntry key save=.ok (some (slot,entry))) (hslot : slot.container=0) :
    inFirst key save=.ok (some (slot.index,entry)) :=
  inFirst_iff.2 (hslot ▸ findEntry_eq_ok h)

theorem inFirst_eq_none {found : Option (Nat×Json)} (h : findEntry key save=.ok (some (slot,entry)))
    (hslot : slot.container≠0) (hfound : inFirst key save=.ok found) : found=none := by
  cases found with
  | none => rfl
  | some found =>
    obtain ⟨entries,hentries,hfound⟩ := inFirst_iff.1 hfound
    obtain ⟨container,hcontainer,hentries⟩ := Option.bind_eq_some_iff.1 hentries
    obtain ⟨list,containers,hlist,hcontainers,h⟩ := bind_bind_eq_ok.1 h
    have hitems : containers[0]?=some container := by
      have hget := fieldOr_eq_ok hlist
      rw [itemsOf] at hcontainer
      split at hcontainer
      · rename_i items hitems
        rw [hitems] at hget
        cases hget
        cases hcontainers
        exact hcontainer
      · cases hcontainer
    cases containers with
    | nil => cases hitems
    | cons first rest =>
      cases hitems
      rw [findInContainers,listedEntries_of_entriesOf? hentries] at h
      obtain ⟨listed,hlisted,h⟩ := bind_eq_ok.1 h
      cases hlisted
      rw [hfound] at h
      cases h
      exact absurd rfl hslot

end ChipForge.Save
