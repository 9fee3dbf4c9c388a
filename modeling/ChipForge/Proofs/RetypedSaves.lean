import ChipForge.Proofs.EditRuns
import ChipForge.Proofs.RetypedNodes

/-! In each container the nodes of the graph are retyped, and the entries of the ends of the chip follow those whose
keys were noted so far, in this container or an earlier one. -/
namespace ChipForge.Save
open Json Revise Wiring
open List hiding lookup insert

variable {rules modules v w : Json} {steps : List Json} {changes : Changes} {key list : String} {form : EndForm}
  {entry c : Json}

section Parts

variable {R S : Json→Json→Prop} {L M : List Json→List Json→Prop} {missing : Json} {style : Json.Style}

/-- Only a field is changed. -/
def Within (key : String) (missing : Json) (R : Json→Json→Prop) (v w : Json) : Prop :=
  ∃ x, R ((v.get? key).getD missing) x ∧ w=v.replace key x

theorem Within.imp (h : Within key missing R v w) (hRS : ∀ {x}, R ((v.get? key).getD missing) x→S ((v.get? key).getD missing) x) :
    Within key missing S v w := by
  obtain ⟨x,hx,hw⟩ := h
  exact ⟨x,hRS hx,hw⟩

/-- Only items are changed. -/
def Relisted (L : List Json→List Json→Prop) (v w : Json) : Prop := ∃ items, L v.listed items ∧ w=v.withItems items

theorem Relisted.imp (h : Relisted L v w) (hLM : ∀ {items}, L v.listed items→M v.listed items) : Relisted M v w := by
  obtain ⟨items,hitems,hw⟩ := h
  exact ⟨items,hLM hitems,hw⟩

/-- Only the value that a field holds as text is changed. -/
def Rewritten (key : String) (style : Json.Style) (R : Json→Json→Prop) (v w : Json) : Prop :=
  if (fieldOf v key).truthy then
    ∃ x y, (fieldOf v key).parseText=.ok x ∧ R x y ∧ (w=v ∧ y=x ∨ w=v.set key (.str (Json.write style y)))
  else w=v

theorem Rewritten.imp (h : Rewritten key style R v w) (hRS : ∀ {x y}, (fieldOf v key).parseText=.ok x→R x y→S x y) :
    Rewritten key style S v w := by
  unfold Rewritten at h ⊢
  split at h
  · rw [if_pos ‹_›]
    obtain ⟨x,y,hx,hR,hw⟩ := h
    exact ⟨x,y,hx,hRS hx hR,hw⟩
  · rwa [if_neg ‹_›]

end Parts

/-- An entry follows the latest type noted under its key. -/
def Follows (ends : List (Json×Json)) (form : EndForm) (item item' : Json) : Prop :=
  match ends.find? fun e => e.1.same (fieldOf item "Key") with
  | none => item'=item
  | some e => ∃ written data, typeLike (fieldOf item form.typeField) e.2=.ok written ∧ form.setting e.2=.ok data ∧
      item'=(item.set form.typeField written).set form.settingField data

theorem followEnd_ensures {changed : Bool} {item : Json} :
    Ensures (followEnd changes list form changed) item fun changed' item' =>
      Follows changes.ends form item item' ∧ (changed'=false → changed=false ∧ item'=item) := by
  simp only [followEnd,ensures_bind,ensures_here,ensures_lift]
  intro key hkey found hfound
  obtain rfl : key=fieldOf item "Key" := field_eq_ok hkey
  obtain ⟨_,-,hfound⟩ := bind_eq_ok.1 hfound
  cases hfound
  unfold Follows
  cases changes.ends.find? fun e => e.1.same (fieldOf item "Key") with
  | none => simp
  | some e =>
    simp only [Option.map_some,ensures_bind,ensures_lift,ensures_tell,ensures_assign,ensures_pure]
    intro _ _ old hold written hwritten _ data hdata _
    obtain rfl := field_eq_ok hold
    exact ⟨⟨written,data,hwritten,hdata,rfl⟩,by simp⟩

theorem followEnds_ensures {style : Json.Style} :
    Ensures (inText key style id (inItems (fun _ => followEnd changes list form) false)) v fun _ w =>
      Rewritten key style (Relisted (Aligned fun _ => Follows changes.ends form)) v w := by
  refine ensures_inText (fun hempty => ?_) fun x htruthy hx => (ensures_inItems (I := fun changed done done' =>
    Aligned (fun _ => Follows changes.ends form) done done' ∧ (changed=false → done'=done)) ?_ ?_).imp ?_
  · simp [Rewritten,hempty]
  · exact ⟨.nil,fun _ => rfl⟩
  · intro changed done done' item h
    refine followEnd_ensures.imp fun hitem => ⟨h.1.concat hitem.1,fun hsame => ?_⟩
    rw [h.2 (hitem.2 hsame).1,(hitem.2 hsame).2]
  · rintro changed y ⟨items,⟨hitems,hsame⟩,rfl⟩
    rw [Rewritten,if_pos htruthy]
    refine ⟨x,_,hx,⟨items,hitems,rfl⟩,?_⟩
    cases changed with
    | false => exact .inl ⟨rfl,by rw [hsame rfl,withItems_listed]⟩
    | true => exact .inr rfl

/-- Does an entry hold ends of the chip? -/
def holdsEnds (entry : Json) : Bool :=
  (fieldOf entry "key").same (.str "chip_inputs") || (fieldOf entry "key").same (.str "chip_outputs")

theorem followList_ensures : Ensures (followList changes) entry fun _ entry' =>
    if holdsEnds entry then
      Rewritten "stringValue" (.indented 2) (Relisted (Aligned fun _ => Follows changes.ends editorForm)) entry entry'
    else entry'=entry := by
  simp only [followList,ensures_bind,ensures_here,ensures_lift]
  intro key hkey
  obtain rfl : key=fieldOf entry "key" := field_eq_ok hkey
  unfold holdsEnds
  split
  · exact ensures_bind.2 (followEnds_ensures.imp fun h => ensures_pure.2 h)
  · exact ensures_pure.2 rfl

theorem followMechanic_ensures {mechanic : Json} : Ensures (followMechanic changes) mechanic fun _ mechanic' =>
    Rewritten "mechanicSerializedInputs" .spaced (Relisted (Aligned fun _ => Follows changes.ends runningForm))
      mechanic mechanic' :=
  ensures_bind.2 (followEnds_ensures.imp fun h => ensures_pure.2 h)

def isGraph (entry : Json) : Bool := (fieldOf entry "key").same (.str "chip_graph") && (fieldOf entry "stringValue").truthy

def nodesOf (graph : Json) : List Json := ((graph.get? "Nodes").getD (.arr [])).listed

/-- Faces of the nodes of the graph that an entry holds. -/
def facesOf (entry : Json) : List Face := (nodesOf ((fieldOf entry "stringValue").parseText.toOption.getD .null)).map faceOf

def Regraphed (N : List Json→List Json→Prop) : Json→Json→Prop :=
  Rewritten "stringValue" .compact (Within "Nodes" (.arr []) (Relisted N))

/-- Only the first entry with a graph is retyped. -/
theorem retypeGraph_ensures {found : Bool} :
    Ensures (retypeGraph (.arr steps) rules modules found changes) entry fun r entry' =>
      if found=false ∧ isGraph entry=true then
        Regraphed (Retyped modules steps) entry entry' ∧ r.1=true ∧
          r.2.ends=(steps.filterMap (noting modules (facesOf entry))).reverse++changes.ends
      else entry'=entry ∧ r=(found,changes) := by
  unfold retypeGraph
  cases found with
  | true => simp
  | false =>
    simp only [Bool.false_eq_true,if_false,true_and,ensures_bind,ensures_here,ensures_lift]
    intro named hnamed
    obtain ⟨key,hkey,hnamed⟩ := bind_eq_ok.1 hnamed
    cases hnamed
    obtain rfl : key=fieldOf entry "key" := field_eq_ok hkey
    unfold isGraph
    split
    · refine ensures_bind.2 (ensures_inText (fun hempty => ?_) fun graph htruthy hgraph => ?_)
      · simp [hempty]
      · simp only [ensures_inField,ensures_bind,ensures_lift]
        rintro _ _ ⟨⟩
        refine (retypeNodes_ensures _).imp fun {changes' w} h => ensures_pure.2 ?_
        rw [if_pos (by simp_all)]
        refine ⟨?_,rfl,?_⟩
        · rw [Regraphed,Rewritten,if_pos htruthy]
          exact ⟨graph,_,hgraph,⟨w,h.1,rfl⟩,.inr rfl⟩
        · rw [facesOf,hgraph]
          exact h.2
    · rename_i hother
      simp [Bool.eq_false_iff.2 hother]

/-- The first entry with a graph is retyped. -/
def RegraphedFirst (N : List Json→List Json→Prop) : List Json→List Json→Prop :=
  Aligned fun before e e' => if before.any isGraph=false ∧ isGraph e=true then Regraphed N e e' else e'=e

def graphFaces (entries : List Json) : List Face := (entries.find? isGraph).elim [] facesOf

theorem retypeGraphs_ensures :
    Ensures (inItems (fun _ r => retypeGraph (.arr steps) rules modules r.1 r.2) (false,changes)) v fun r w =>
      Relisted (RegraphedFirst (Retyped modules steps)) v w ∧
        r.2.ends=(steps.filterMap (noting modules (graphFaces v.listed))).reverse++changes.ends := by
  refine (ensures_inItems (I := fun r done done' => r.1=done.any isGraph ∧ RegraphedFirst (Retyped modules steps) done done' ∧
    r.2.ends=(steps.filterMap (noting modules (graphFaces done))).reverse++changes.ends) ?_ ?_).imp ?_
  · exact ⟨rfl,.nil,by simp [noting,reached,graphFaces]⟩
  · rintro ⟨found,changes₁⟩ done done' entry ⟨rfl,hdone,hends⟩
    refine retypeGraph_ensures.imp fun {r entry'} h => ?_
    split at h
    · rename_i hfirst
      obtain ⟨hentry,hfound,hends'⟩ := h
      have hnone : done.find? isGraph=none := by simpa using hfirst.1
      refine ⟨by simp [hfound,hfirst.2],hdone.concat (by rwa [if_pos hfirst]),?_⟩
      rw [hends',hends]
      simp [graphFaces,find?_append,hnone,hfirst.2,noting,reached]
    · rename_i hother
      obtain ⟨rfl,rfl⟩ := h
      refine ⟨?_,hdone.concat (by rw [if_neg hother]),?_⟩
      · cases hany : done.any isGraph <;> simp_all
      · have hsame : graphFaces (done++[entry'])=graphFaces done := by
          rw [graphFaces,graphFaces,find?_append]
          cases hfind : done.find? isGraph with
          | some => rfl
          | none =>
            have hentry : isGraph entry'=false := by simp_all
            simp [hentry]
        rw [hends,hsame]
  · rintro r w ⟨entries,⟨-,hentries,hends⟩,hw⟩
    exact ⟨⟨entries,hentries,hw⟩,hends⟩

theorem eachItem_ensures {m : Revise Unit} {R : Json→Json→Prop} (hm : ∀ x, Ensures m x fun _ y => R x y) :
    Ensures (inItems (fun _ _ => m) ()) v fun _ w => Relisted (Aligned fun _ => R) v w :=
  ensures_inItems (I := fun _ => Aligned fun _ => R) .nil fun h => (hm _).imp fun hR => h.concat hR

def entriesOf (objects : Json) : Json := (objects.get? "saveMetaDatas").getD (.arr [])

/-- How the parts of a container are changed: the nodes of its graph as `N` says, the entries of its ends as `I` says. -/
def Reworked (N : List Json→List Json→Prop) (I : EndForm→Json→Json→Prop) : Json→Json→Prop :=
  Within "saveObjects" (.obj []) fun o o' =>
    if (entriesOf o).truthy then
      ∃ o₁ o₂, Within "saveMetaDatas" (.arr []) (Relisted (RegraphedFirst N)) o o₁ ∧
        Within "saveMetaDatas" (.arr []) (Relisted (Aligned fun _ e e' => if holdsEnds e then
          Rewritten "stringValue" (.indented 2) (Relisted (Aligned fun _ => I editorForm)) e e' else e'=e)) o₁ o₂ ∧
        Within "mechanicData" (.arr []) (Relisted (Aligned fun _ =>
          Rewritten "mechanicSerializedInputs" .spaced (Relisted (Aligned fun _ => I runningForm)))) o₂ o'
    else o'=o

def facesIn (c : Json) : List Face := graphFaces (entriesOf ((c.get? "saveObjects").getD (.obj []))).listed

/-- What the instructions note of a container. -/
def notedIn (modules : Json) (steps : List Json) (c : Json) : List (Json×Json) := steps.filterMap (noting modules (facesIn c))

theorem listed_of_not_truthy (h : v.truthy=false) : v.listed=[] := by
  cases v with
  | arr items => simpa [truthy] using h
  | obj fields => simpa [truthy,listed,each,Except.toOption] using h
  | str s => simpa [truthy,listed,each,Except.toOption] using h
  | _ => rfl

theorem retypeContainer_ensures :
    Ensures (retypeContainer (.arr steps) rules modules changes) c fun changes' c' =>
      changes'.ends=(notedIn modules steps c).reverse++changes.ends ∧
        Reworked (Retyped modules steps) (Follows changes'.ends) c c' := by
  simp only [retypeContainer,ensures_inField,ensures_bind,ensures_here,ensures_lift]
  intro _ entries hentries
  unfold Reworked notedIn facesIn
  generalize hobjects : (c.get? "saveObjects").getD (.obj [])=objects at hentries ⊢
  obtain rfl : entries=entriesOf objects := fieldOr_eq_ok hentries
  split
  · simp only [ensures_bind,ensures_tell,ensures_inField]
    refine fun _ => retypeGraphs_ensures.imp fun {r w} hgraph => ?_
    have htell : Ensures (tellUnfollowed r.2) (objects.replace "saveMetaDatas" w) fun _ o =>
        o=objects.replace "saveMetaDatas" w := by
      unfold tellUnfollowed
      split <;> simp
    refine htell.imp fun {_ o} ho _ => (eachItem_ensures fun _ => followList_ensures).imp fun {_ w₁} hlists => ?_
    refine fun _ => (eachItem_ensures fun _ => followMechanic_ensures).imp fun {_ w₂} hmechanics => ensures_pure.2 ?_
    refine ⟨hgraph.2,_,?_,rfl⟩
    rw [hobjects]
    dsimp only
    rw [if_pos ‹_›]
    exact ⟨o,_,⟨w,hgraph.1,ho⟩,⟨w₁,hlists,rfl⟩,⟨w₂,hmechanics,rfl⟩⟩
  · rename_i hfalse
    refine ensures_pure.2 ⟨?_,objects,?_,rfl⟩
    · rw [show (entriesOf objects).listed=[] from listed_of_not_truthy (Bool.eq_false_iff.2 hfalse)]
      simp [noting,reached,graphFaces]
    · rw [hobjects]
      dsimp only
      rw [if_neg hfalse]

theorem Reworked.imp {N N' : List Json→List Json→Prop} {I I' : EndForm→Json→Json→Prop} {c' : Json}
    (h : Reworked N I c c') (hN : ∀ {nodes nodes'}, nodes.map faceOf=facesIn c→N nodes nodes'→N' nodes nodes')
    (hI : ∀ {form item item'}, I form item item' → I' form item item') : Reworked N' I' c c' := by
  refine Within.imp h fun {o'} h => ?_
  split at h
  · rw [if_pos ‹_›]
    obtain ⟨o₁,o₂,hgraph,hlists,hmechanics⟩ := h
    refine ⟨o₁,o₂,hgraph.imp fun h => h.imp fun h => h.imp fun {before e rest e'} hentries he => ?_,
      hlists.imp fun h => h.imp fun h => h.imp fun _ he => ?_,
      hmechanics.imp fun h => h.imp fun h => h.imp fun _ h => h.imp fun _ h => h.imp fun h => h.imp fun _ => hI⟩
    · split at he
      · rename_i hfirst
        rw [if_pos hfirst]
        refine Rewritten.imp he fun {graph _} hgraph h => h.imp fun h => h.imp (hN ?_)
        have hnone : before.find? isGraph=none := by simpa using hfirst.1
        rw [facesIn,entriesOf,hentries,graphFaces,find?_append,hnone,find?_cons_of_pos hfirst.2]
        simp [facesOf,hgraph,nodesOf,Except.toOption]
      · rwa [if_neg ‹_›]
    · split at he
      · rw [if_pos ‹_›]
        exact he.imp fun _ h => h.imp fun h => h.imp fun _ => hI
      · rwa [if_neg ‹_›]
  · rwa [if_neg ‹_›]

def containersOf (save : Json) : List Json := ((save.get? "saveObjectContainers").getD (.arr [])).listed

/-- How the containers of a save are changed. -/
def Refitted (R : List Json→Json→Json→Prop) : Json→Json→Prop :=
  Within "saveObjectContainers" (.arr []) (Relisted (Aligned R))

theorem Refitted.imp {R S : List Json→Json→Json→Prop} (h : Refitted R v w)
    (hRS : ∀ {before c rest c'}, containersOf v=before++c::rest→R before c c'→S before c c') : Refitted S v w :=
  Within.imp h fun h => h.imp fun h => h.imp hRS

/-- How instructions change a container, with what they noted in it and in those before. -/
def RetypedAfter (modules : Json) (steps before : List Json) (c : Json) : Json→Prop :=
  Reworked (Retyped modules steps) (Follows ((before++[c]).flatMap (notedIn modules steps)).reverse) c

theorem retypeContainers_ensures {save : Json} : Ensures (retypeContainers (.arr steps) rules modules) save fun _ =>
    Refitted (RetypedAfter modules steps) save := by
  refine ensures_inField.2 fun _ => (ensures_inItems (I := fun changes done done' =>
    changes.ends=(done.flatMap (notedIn modules steps)).reverse ∧ Aligned (RetypedAfter modules steps) done done') ?_ ?_).imp ?_
  · exact ⟨rfl,.nil⟩
  · rintro changes done done' c ⟨hends,hdone⟩
    refine retypeContainer_ensures.imp fun {changes' c'} h => ?_
    have hends' : changes'.ends=((done++[c]).flatMap (notedIn modules steps)).reverse := by
      rw [h.1,hends,flatMap_append,reverse_append,flatMap_singleton]
    exact ⟨hends',hdone.concat (by rw [RetypedAfter,← hends']; exact h.2)⟩
  · rintro _ w ⟨containers,⟨-,h⟩,rfl⟩
    exact ⟨_,⟨containers,h,rfl⟩,rfl⟩

/-- Everything that retyping changes in a save. -/
theorem retypeAll_refits {desk desk' : Desk} {r : Unit}
    (h : result (retypeAll (.arr steps) rules modules) desk=(.ok r,desk')) :
    Refitted (RetypedAfter modules steps) desk.save desk'.save := by
  obtain ⟨changes,desk₁,hperform,h⟩ := result_bind_eq_ok.1 h
  obtain ⟨hout,rfl⟩ := Prod.mk.inj hperform
  have hcontainers := retypeContainers_ensures changes hout
  split at h <;> cases h <;> exact hcontainers

end ChipForge.Save
