import ChipForge.Proofs.EditRuns
import ChipForge.Proofs.Fields
import ChipForge.Proofs.Ports
import ChipForge.Save.Entry

/-! An entry of a save is found by its name alone. Changing the text of some entry, and adding an entry under another
name, leave every entry of the name in its place. -/
namespace ChipForge.Save
open Json Wiring
open List hiding lookup insert

variable {key : String} {entries entries' : List Json} {save : Json} {slot : Slot} {entry container list value : Json}
  {f : Json→Json} {i : Nat} {containers items : List Json} {record : Json} {k : String}

def numberIn (key : String) (i : Nat) (entries : List Json) : Except Failure (Option Nat) := do
  pure ((← findInList key i entries).map (·.1))

theorem numberIn_cons (i : Nat) (entry : Json) (rest : List Json) : numberIn key i (entry::rest) =
    (isNamed key entry >>= fun named => if named then .ok (some i) else numberIn key (i+1) rest) := by
  unfold numberIn
  rw [findInList]
  cases isNamed key entry with
  | error f => rfl
  | ok named => cases named <;> rfl

theorem numberIn_congr (h : entries.map (isNamed key)=entries'.map (isNamed key)) (i : Nat) :
    numberIn key i entries=numberIn key i entries' := by
  induction entries generalizing entries' i with
  | nil =>
    cases entries' with
    | nil => rfl
    | cons entry' rest' => cases h
  | cons entry rest ih =>
    cases entries' with
    | nil => cases h
    | cons entry' rest' =>
      obtain ⟨hentry,hrest⟩ := List.cons.inj h
      rw [numberIn_cons,numberIn_cons,hentry,ih hrest]

theorem isNamed_set (entry text : Json) : isNamed key (entry.set "stringValue" text)=isNamed key entry := by
  cases entry <;> simp [isNamed,Json.set,field,field?]

theorem numberIn_modify (i j : Nat) (text : Json) :
    numberIn key i (entries.modify j fun entry => entry.set "stringValue" text)=numberIn key i entries := by
  refine numberIn_congr (ext_getElem? fun k => ?_) i
  rw [getElem?_map,getElem?_map,getElem?_modify]
  cases entries[k]? with
  | none => rfl
  | some entry => by_cases hk : j=k <;> simp [hk,isNamed_set]

def numberAmong (key : String) (list : Json) : Except Failure (Option Nat) := do numberIn key 0 (← list.each)

def numberOf (key : String) (container : Json) : Except Failure (Option Nat) := do
  numberIn key 0 (← listedEntries container)

def placeAmong (key : String) (i : Nat) (containers : List Json) : Except Failure (Option Slot) := do
  pure ((← findInContainers key i containers).map (·.1))

def placeOf (key : String) (save : Json) : Except Failure (Option Slot) := do
  pure ((← findEntry key save).map (·.1))

/-- What stands in the place of the entries of a container. -/
def entriesOf? (container : Json) : Option Json := (container.get? "saveObjects").bind (·.get? "saveMetaDatas")

def changeEntries (f : Json→Json) (container : Json) : Json :=
  container.update "saveObjects" fun objects => objects.update "saveMetaDatas" f

theorem listedEntries_of_entriesOf? (h : entriesOf? container=some list) : listedEntries container=list.each := by
  obtain ⟨objects,hobjects,hlist⟩ := Option.bind_eq_some_iff.1 h
  cases container with
  | obj fields =>
    cases objects with
    | obj inner =>
      have hobjects : lookup "saveObjects" fields=some (.obj inner) := hobjects
      have hlist : lookup "saveMetaDatas" inner=some list := hlist
      simp [listedEntries,fieldOr,field?,hobjects,hlist,bind,Except.bind,Except.map]
    | _ => cases hlist
  | _ => cases hobjects

theorem numberOf_eq (h : entriesOf? container=some list) : numberOf key container=numberAmong key list := by
  rw [numberOf,listedEntries_of_entriesOf? h,numberAmong]

theorem entriesOf?_changeEntries (container : Json) (f : Json→Json) :
    entriesOf? (changeEntries f container)=(entriesOf? container).map f := by
  unfold entriesOf? changeEntries
  rw [get?_update,if_pos rfl]
  cases container.get? "saveObjects" with
  | none => rfl
  | some objects => simp

theorem fieldOr_update (v default : Json) (k : String) (f : Json→Json) :
    (v.update k f).fieldOr k default=(v.field? k).map fun x => (x.map f).getD default := by
  cases v with
  | obj fields =>
    have hget := get?_update (.obj fields) k k f
    rw [if_pos rfl] at hget
    exact congrArg (fun x => Except.ok (x.getD default)) hget
  | _ => rfl

theorem listedEntries_changeEntries (h : entriesOf? container=none) :
    listedEntries (changeEntries f container)=listedEntries container := by
  rw [listedEntries,listedEntries,changeEntries,fieldOr_update]
  cases container with
  | obj fields =>
    cases hobjects : lookup "saveObjects" fields with
    | none => simp [field?,fieldOr,hobjects,Except.map]
    | some objects =>
      cases objects with
      | obj inner =>
        have hlist : lookup "saveMetaDatas" inner=none := by simpa [entriesOf?,get?,hobjects] using h
        have hsame := fieldOr_update (.obj inner) (.arr []) "saveMetaDatas" f
        simp only [field?,hobjects,fieldOr,hlist,Except.map,Option.map_some,Option.getD_some,bind,
          Except.bind] at hsame ⊢
        rw [hsame]
        rfl
      | _ => simp [field?,fieldOr,hobjects,Except.map,update]
  | _ => rfl

theorem numberOf_changeEntries
    (h : ∀ list, entriesOf? container=some list → numberAmong key (f list)=numberAmong key list) :
    numberOf key (changeEntries f container)=numberOf key container := by
  cases hlist : entriesOf? container with
  | none => rw [numberOf,listedEntries_changeEntries hlist,numberOf]
  | some list =>
    have hchanged : entriesOf? (changeEntries f container)=some (f list) := by
      rw [entriesOf?_changeEntries,hlist]
      rfl
    rw [numberOf_eq hlist,numberOf_eq hchanged,h list hlist]

theorem placeAmong_cons (i : Nat) (container : Json) (rest : List Json) : placeAmong key i (container::rest) =
    (numberOf key container >>= fun
      | some j => .ok (some ⟨i,j⟩)
      | none => placeAmong key (i+1) rest) := by
  unfold placeAmong numberOf numberIn
  rw [findInContainers]
  cases listedEntries container with
  | error f => rfl
  | ok listed =>
    cases hfound : findInList key 0 listed with
    | error f => simp [hfound,bind,Except.bind]
    | ok found =>
      cases found with
      | none => simp [hfound,bind,Except.bind,pure,Except.pure]
      | some found => simp [hfound,bind,Except.bind,pure,Except.pure]

theorem placeAmong_modify {c : Nat} {g : Json→Json}
    (h : ∀ container, containers[c]?=some container → numberOf key (g container)=numberOf key container) (i : Nat) :
    placeAmong key i (containers.modify c g)=placeAmong key i containers := by
  induction containers generalizing c i with
  | nil => rw [modify_nil]
  | cons container rest ih =>
    cases c with
    | zero => rw [modify_zero_cons,placeAmong_cons,placeAmong_cons,h container rfl]
    | succ c =>
      rw [modify_succ_cons,placeAmong_cons,placeAmong_cons]
      exact congrArg _ (funext fun found => by
        cases found with
        | none => exact ih h (i+1)
        | some j => rfl)

def entriesAt (save : Json) (container : Nat) : Option Json :=
  (itemsOf "saveObjectContainers" save)[container]?.bind entriesOf?

theorem placeOf_eq (save : Json) :
    placeOf key save=(save.fieldOr "saveObjectContainers" (.arr []) >>= each >>= placeAmong key 0) := by
  simp only [placeOf,findEntry,bind_assoc]
  rfl

/-- Entries stay in their places if they do so in the container that is changed. -/
theorem placeOf_updateEntries {container : Nat}
    (h : ∀ list, entriesAt save container=some list → numberAmong key (f list)=numberAmong key list) :
    placeOf key (updateEntries save container f)=placeOf key save := by
  have hplace : ∀ containers : List Json, itemsOf "saveObjectContainers" save=containers →
      placeAmong key 0 (containers.modify container (changeEntries f))=placeAmong key 0 containers := by
    rintro containers rfl
    refine placeAmong_modify (fun c hc => numberOf_changeEntries fun list hlist => h list ?_) 0
    rw [entriesAt,hc]
    exact hlist
  rw [placeOf_eq,placeOf_eq,updateEntries,fieldOr_update]
  cases save with
  | obj fields =>
    cases hlist : lookup "saveObjectContainers" fields with
    | none => simp [field?,fieldOr,hlist,Except.map]
    | some list =>
      cases list with
      | arr containers =>
        have hitems : itemsOf "saveObjectContainers" (.obj fields)=containers := by simp [itemsOf,get?,hlist]
        simp only [field?,fieldOr,hlist,Except.map,bind,Except.bind,each,updateAt,Option.map_some,Option.getD_some]
        exact hplace containers hitems
      | _ => simp [field?,fieldOr,hlist,Except.map,updateAt]
  | _ => rfl

theorem placeOf_setText (text : String) : placeOf key (setText slot text save)=placeOf key save := by
  refine placeOf_updateEntries fun list _ => ?_
  cases list with
  | arr entries => exact numberIn_modify 0 slot.index (.str text)
  | _ => rfl

def entryAt (save : Json) (slot : Slot) : Option Json := ((entriesAt save slot.container).bind asArr?).bind (·[slot.index]?)

theorem exists_key_of_isNamed (h : isNamed key entry=.ok true) : ∃ value, entry.get? "key" = some value := by
  cases entry with
  | obj fields =>
    cases hvalue : lookup "key" fields with
    | none =>
      simp only [isNamed,field,field?,hvalue] at h
      cases h
    | some value => exact ⟨value,hvalue⟩
  | _ => cases h

theorem findInList_eq_ok {j : Nat} (h : findInList key i entries=.ok (some (j,entry))) :
    ∃ k, j=i+k ∧ entries[k]?=some entry ∧ isNamed key entry=.ok true := by
  induction entries generalizing i with
  | nil => cases h
  | cons first rest ih =>
    obtain ⟨named,hnamed,h⟩ := bind_eq_ok.1 h
    cases named with
    | true =>
      cases h
      exact ⟨0,rfl,rfl,hnamed⟩
    | false =>
      obtain ⟨k,rfl,hentry⟩ := ih h
      exact ⟨k+1,by omega,hentry⟩

theorem findInList_zero (h : findInList key 0 entries=.ok (some (i,entry))) :
    entries[i]?=some entry ∧ isNamed key entry=.ok true := by
  obtain ⟨k,rfl,hentry⟩ := findInList_eq_ok h
  rwa [Nat.zero_add]

theorem eq_arr_of_each (h : list.each=.ok items) (hrecord : items[i]?=some record) (hvalue : record.get? k=some value) :
    list=.arr items := by
  have hmem := mem_of_getElem? hrecord
  cases list with
  | arr listed =>
    cases h
    rfl
  | obj fields =>
    cases h
    obtain ⟨field,-,rfl⟩ := mem_map.1 hmem
    cases hvalue
  | str s =>
    cases h
    obtain ⟨c,-,rfl⟩ := mem_map.1 hmem
    cases hvalue
  | _ => cases h

theorem fieldOr_each_eq_ok {v : Json} {field : String} (h : (v.fieldOr field (.arr []) >>= each)=.ok items)
    (hrecord : items[i]?=some record) (hvalue : record.get? k=some value) : v.get? field=some (.arr items) := by
  obtain ⟨list,hlist,h⟩ := bind_eq_ok.1 h
  obtain rfl := eq_arr_of_each h hrecord hvalue
  refine get?_of_fieldOr hlist ?_
  rintro ⟨⟩
  cases hrecord

theorem entriesOf?_of_listed (h : listedEntries container=.ok entries) (hentry : entries[i]?=some entry)
    (hvalue : entry.get? k=some value) : entriesOf? container=some (.arr entries) := by
  obtain ⟨objects,hobjects,h⟩ := bind_eq_ok.1 h
  have hlist := fieldOr_each_eq_ok h hentry hvalue
  have hobjects := get?_of_fieldOr hobjects (by rintro rfl; cases hlist)
  rw [entriesOf?,hobjects]
  exact hlist

theorem findInContainers_eq_ok (h : findInContainers key i containers=.ok (some (slot,entry))) :
    ∃ k container listed, slot.container=i+k ∧ containers[k]?=some container ∧ listedEntries container=.ok listed ∧
      findInList key 0 listed=.ok (some (slot.index,entry)) := by
  induction containers generalizing i with
  | nil => cases h
  | cons container rest ih =>
    obtain ⟨listed,found,hlisted,hfound,h⟩ := bind_bind_eq_ok.1 h
    cases found with
    | some found =>
      cases h
      exact ⟨0,container,listed,rfl,rfl,hlisted,hfound⟩
    | none =>
      obtain ⟨k,c,listed,hk,hrest⟩ := ih h
      exact ⟨k+1,c,listed,by omega,hrest⟩

theorem findEntry_eq_ok (h : findEntry key save=.ok (some (slot,entry))) :
    ∃ entries, entriesAt save slot.container=some (.arr entries) ∧
      findInList key 0 entries=.ok (some (slot.index,entry)) := by
  obtain ⟨containers,items,hcontainers,hitems,h⟩ := bind_bind_eq_ok.1 h
  obtain ⟨k,container,listed,hk,hcontainer,hlisted,hfound⟩ := findInContainers_eq_ok h
  rw [Nat.zero_add] at hk
  obtain ⟨hentry,hnamed⟩ := findInList_zero hfound
  obtain ⟨value,hvalue⟩ := exists_key_of_isNamed hnamed
  have hentries := entriesOf?_of_listed hlisted hentry hvalue
  obtain ⟨objects,hobjects,-⟩ := Option.bind_eq_some_iff.1 hentries
  have hget := fieldOr_each_eq_ok (bind_eq_ok.2 ⟨containers,hcontainers,hitems⟩) hcontainer hobjects
  exact ⟨listed,by simp only [entriesAt,itemsOf,hget,hk,hcontainer,Option.bind_some,hentries],hfound⟩

theorem entryAt_of_findInList (hentries : entriesAt save slot.container=some (.arr entries))
    (h : findInList key 0 entries=.ok (some (slot.index,entry))) :
    entryAt save slot=some entry ∧ isNamed key entry=.ok true := by
  obtain ⟨hentry,hnamed⟩ := findInList_zero h
  exact ⟨by simp only [entryAt,hentries,Option.bind_some,asArr?,hentry],hnamed⟩

theorem entryAt_of_findEntry (h : findEntry key save=.ok (some (slot,entry))) :
    entryAt save slot=some entry ∧ isNamed key entry=.ok true := by
  obtain ⟨entries,hentries,h⟩ := findEntry_eq_ok h
  exact entryAt_of_findInList hentries h

theorem exists_findEntry (h : placeOf key save=.ok (some slot)) : ∃ entry, findEntry key save=.ok (some (slot,entry)) := by
  obtain ⟨found,hfound,h⟩ := bind_eq_ok.1 h
  obtain ⟨⟨_,entry⟩,rfl,rfl⟩ := Option.map_eq_some_iff.1 (Except.ok.inj h)
  exact ⟨entry,hfound⟩

theorem placeOf_eq_ok (h : findEntry key save=.ok (some (slot,entry))) : placeOf key save=.ok (some slot) := by
  rw [placeOf,h]
  rfl

theorem entriesAt_updateEntries (container c : Nat) (f : Json→Json) :
    entriesAt (updateEntries save container f) c=if container=c then (entriesAt save c).map f else entriesAt save c := by
  rw [entriesAt,entriesAt,updateEntries,itemsOf_update,if_pos rfl,getElem?_modify]
  cases (itemsOf "saveObjectContainers" save)[c]? with
  | none => simp
  | some found =>
    by_cases hc : container=c
    · simp only [hc,if_true]
      exact entriesOf?_changeEntries found f
    · simp only [hc,if_false]
      rfl

theorem entryAt_setText (text : String) :
    entryAt (setText slot text save) slot=(entryAt save slot).map (·.set "stringValue" (.str text)) := by
  rw [entryAt,setText,entriesAt_updateEntries,if_pos rfl,entryAt]
  cases entriesAt save slot.container with
  | none => rfl
  | some list =>
    cases list with
    | arr items => simp [updateAt,asArr?]
    | _ => rfl

theorem findEntry_setText (h : placeOf key save=.ok (some slot)) (text : String) :
    ∃ entry, findEntry key (setText slot text save)=.ok (some (slot,entry)) ∧
      entry.get? "stringValue" = some (.str text) := by
  obtain ⟨entry,hentry⟩ := exists_findEntry ((placeOf_setText text).trans h)
  obtain ⟨old,hold⟩ := exists_findEntry h
  obtain ⟨hat,hnamed⟩ := entryAt_of_findEntry hold
  obtain ⟨value,hvalue⟩ := exists_key_of_isNamed hnamed
  refine ⟨entry,hentry,?_⟩
  have hnew := (entryAt_of_findEntry hentry).1
  rw [entryAt_setText,hat] at hnew
  cases hnew
  exact get?_set_self _ hvalue

theorem entriesAt_zero {containers : Json} (h : save.get? "saveObjectContainers" = some containers)
    (hcontainer : containers.itemAt 0=.ok container) (hentries : entriesOf? container=some list) :
    entriesAt save 0=some list := by
  cases containers with
  | arr items =>
    have hitems : itemsOf "saveObjectContainers" save=items := by rw [itemsOf,h]
    cases items with
    | nil => cases hcontainer
    | cons first rest =>
      cases hcontainer
      rw [entriesAt,hitems]
      exact hentries
  | str s =>
    -- A character has no entries.
    rw [itemAt] at hcontainer
    cases hc : s.toList[0]? with
    | none =>
      rw [hc] at hcontainer
      cases hcontainer
    | some c =>
      rw [hc] at hcontainer
      cases hcontainer
      cases hentries
  | _ => cases hcontainer

theorem firstEntries_eq_ok (h : firstEntries save=.ok list) : entriesAt save 0=some list := by
  obtain ⟨containers,container,hcontainers,hcontainer,h⟩ := bind_bind_eq_ok.1 h
  obtain ⟨objects,hobjects,h⟩ := bind_eq_ok.1 h
  refine entriesAt_zero (item_eq_ok hcontainers) hcontainer ?_
  rw [entriesOf?,item_eq_ok hobjects]
  exact item_eq_ok h

end ChipForge.Save
