import ChipForge.Proofs.Revisions
import ChipForge.Proofs.SharedGraph

/-! An instruction for a constant either works on the whole or leaves the save alone, so of a list of instructions only
those that work count. It changes the first node whose id has the given one as a part. -/
namespace ChipForge.Text

theorem findFrom_isSome_iff (part cs : List Char) (n : Nat) : (findFrom part n cs).isSome ↔ part <:+: cs := by
  induction cs generalizing n with
  | nil => cases part <;> simp [findFrom]
  | cons c rest ih =>
    rw [findFrom, List.infix_cons_iff,← ih (n+1)]
    by_cases h : part.isPrefixOf (c::rest)
    · simp [h,List.isPrefixOf_iff_prefix.1 h]
    · rw [if_neg h,or_iff_right fun h' => h ( List.isPrefixOf_iff_prefix.2 h')]

theorem contains_iff {s part : String} : contains s part=true ↔ part.toList <:+: s.toList := findFrom_isSome_iff _ _ _

end ChipForge.Text

namespace ChipForge.Save
open Json Wiring
open List hiding lookup insert

variable {desk desk' : Desk} {save entry graph value form : Json} {nodes : List Json} {id text : String} {i j : Nat}
  {node node' : Json} {instructions : List Json}

/-- The edit that an instruction asks for. -/
def setBy (instruction : Json) : Edit Bool :=
  applyConstant (fieldOf instruction "node_id") (fieldOf instruction "new_value") (fieldOf instruction "value_type")

def isComplete (instruction : Json) : Bool :=
  (instruction.get? "value_type").isSome && (instruction.get? "new_value").isSome

/-- The instructions that work when their turn comes. -/
def working : Desk→List Json→List Json
  | _, [] => []
  | desk, instruction::rest =>
    match result (setBy instruction) desk with
    | (.ok true,desk') => instruction::working desk' rest
    | (_,desk') => working desk' rest

/-- The save that an instruction leaves if it works. -/
def saved (save instruction : Json) : Option Json :=
  savedBy (setConstant save (fieldOf instruction "node_id") (fieldOf instruction "new_value")
    (fieldOf instruction "value_type"))

def savedAll (save : Json) (instructions : List Json) : Json := instructions.foldl (fun s x => (saved s x).getD s) save

theorem result_setBy (desk : Desk) (instruction : Json) : ∃ desk', desk'.save=(saved desk.save instruction).getD desk.save ∧
    result (setBy instruction) desk=(.ok (saved desk.save instruction).isSome,desk') := by
  obtain ⟨hworked,hsave⟩ := result_applyConstant (fieldOf instruction "node_id") (fieldOf instruction "new_value")
    (fieldOf instruction "value_type") desk
  exact ⟨_,hsave,Prod.ext hworked rfl⟩

theorem working_congr (h : desk.save=desk'.save) (instructions : List Json) :
    working desk instructions=working desk' instructions := by
  induction instructions generalizing desk desk' with
  | nil => rfl
  | cons x rest ih =>
    obtain ⟨d,hd,hx⟩ := result_setBy desk x
    obtain ⟨d',hd',hx'⟩ := result_setBy desk' x
    rw [h] at hx hd
    rw [working,working,hx,hx']
    cases saved desk'.save x <;> simp only [Option.isSome,ih (hd.trans hd'.symm)]

/-- Only instructions that work count, and they work without the others. -/
theorem savedAll_working (desk : Desk) (instructions : List Json) :
    savedAll desk.save (working desk instructions)=savedAll desk.save instructions ∧
      working desk (working desk instructions)=working desk instructions := by
  induction instructions generalizing desk with
  | nil => exact ⟨rfl,rfl⟩
  | cons x rest ih =>
    obtain ⟨d,hd,hx⟩ := result_setBy desk x
    obtain ⟨hsaved,htwice⟩ := ih d
    cases hx' : saved desk.save x with
    | none =>
      rw [hx'] at hd hx
      replace hd : d.save=desk.save := hd
      have hworking : working desk (x::rest)=working d rest := by rw [working,hx]; rfl
      have hall : savedAll desk.save (x::rest)=savedAll desk.save rest := by rw [savedAll,foldl_cons,hx']; rfl
      rw [hworking,hall,working_congr hd.symm,← hd]
      exact ⟨hsaved,htwice⟩
    | some next =>
      rw [hx'] at hd hx
      have hworking : ∀ more, working desk (x::more)=x::working d more := fun more => by rw [working,hx]; rfl
      have hall : ∀ more, savedAll desk.save (x::more)=savedAll d.save more := fun more => by
        rw [savedAll,foldl_cons,hx',hd]
        rfl
      rw [hworking,hall,hall,hworking,htwice]
      exact ⟨hsaved,rfl⟩

/-- Instructions are carried out up to the first that lacks its value or its form. -/
theorem result_applyConstantsFrom (hids : ∀ x∈instructions, ∃ id, x.get? "node_id" = some (.str id)) (count : Nat)
    (desk : Desk) :
    (result (applyConstantsFrom count instructions) desk).2.save=savedAll desk.save (instructions.takeWhile isComplete) ∧
      ((∃ n, (result (applyConstantsFrom count instructions) desk).1=.ok n) ↔ ∀ x∈instructions, isComplete x=true) := by
  induction instructions generalizing count desk with
  | nil => exact ⟨rfl,by simp [applyConstantsFrom]⟩
  | cons x rest ih =>
    obtain ⟨id,hid⟩ := hids x mem_cons_self
    replace ih := ih fun y hy => hids y (mem_cons_of_mem _ hy)
    have hstart : idStart (.str id)=.ok (.str (Text.take id 8)) := rfl
    rw [applyConstantsFrom,item_of_get? hid,result_ok_bind,hstart,
      result_ok_bind]
    cases hform : x.get? "value_type" with
    | none =>
      have hlacks : isComplete x=false := by rw [isComplete,hform]; rfl
      obtain ⟨f,hf⟩ := item_of_get?_none hform
      rw [hf,result_lift_bind]
      simp [hlacks,savedAll]
    | some form =>
      rw [item_of_get? hform,result_ok_bind]
      cases hvalue : x.get? "new_value" with
      | none =>
        have hlacks : isComplete x=false := by rw [isComplete,hform,hvalue]; rfl
        obtain ⟨f,hf⟩ := item_of_get?_none hvalue
        rw [hf,result_lift_bind]
        simp [hlacks,savedAll]
      | some value =>
        have hcomplete : isComplete x=true := by rw [isComplete,hform,hvalue]; rfl
        have hedit : applyConstant (.str id) value form=setBy x := by simp only [setBy,fieldOf,hid,hform,hvalue,Option.getD]
        rw [item_of_get? hvalue,result_ok_bind,result_say_bind,hedit]
        obtain ⟨d,hd,hx⟩ := result_setBy { desk with said := desk.said++[_] } x
        rw [result_bind_ok hx]
        obtain ⟨hsave,hends⟩ := ih (if (saved desk.save x).isSome then count+1 else count) d
        rw [takeWhile_cons_of_pos hcomplete,forall_mem_cons]
        exact ⟨by rw [hsave,hd]; rfl,by rw [hends]; simp [hcomplete]⟩

theorem result_applyConstants (hids : ∀ x∈instructions, ∃ id, x.get? "node_id" = some (.str id)) (desk : Desk) :
    (result (applyConstants (.arr instructions)) desk).2.save=savedAll desk.save (instructions.takeWhile isComplete) ∧
      ((result (applyConstants (.arr instructions)) desk).1=.ok () ↔ ∀ x∈instructions, isComplete x=true) := by
  obtain ⟨hsave,hends⟩ := result_applyConstantsFrom hids 0 desk
  have heach : (Json.arr instructions).each=.ok instructions := rfl
  rw [applyConstants,heach,result_ok_bind]
  rcases hrun : result (applyConstantsFrom 0 instructions) desk with ⟨f | n,d⟩ <;> rw [hrun] at hsave hends
  · rw [result_bind,hrun]
    exact ⟨hsave,⟨nofun,fun h => nomatch (hends.2 h).choose_spec⟩⟩
  · rw [result_bind_ok hrun]
    exact ⟨hsave,fun _ => hends.1 ⟨n,rfl⟩,fun _ => rfl⟩

theorem working_cons {desk : Desk} {x : Json} {rest : List Json} {b : Bool}
    (h : (result (setBy x) desk).1.toOption=some b) :
    working desk (x::rest)=(if b then [x] else [])++working (result (setBy x) desk).2 rest := by
  rw [working,result_eq_ok h]
  cases b <;> rfl

theorem working_subset (desk : Desk) (instructions : List Json) : working desk instructions ⊆ instructions := by
  induction instructions generalizing desk with
  | nil => exact List.Subset.refl _
  | cons x rest ih =>
    rw [working]
    split
    · exact cons_subset_cons x (ih _)
    · exact Subset.trans (ih _) (subset_cons_self x rest)

/-- An edit that fails leaves the save as it is. A list of instructions for nodes by text ends well exactly if all of them have a
value and a form, and up to the first that has not it does what those do that work by themselves. -/
theorem applyConstants_atomic (desk : Desk) :
    (∀ nodeId value form, (result (applyConstant nodeId value form) desk).1 = .ok false →
      (result (applyConstant nodeId value form) desk).2.save = desk.save) ∧
    ∀ instructions : List Json, (∀ x ∈ instructions, ∃ id, x.get? "node_id" = some (.str id)) →
      ((result (applyConstants (.arr instructions)) desk).1 = .ok () ↔ ∀ x ∈ instructions, isComplete x = true) ∧
      ∃ kept, kept = working desk (instructions.takeWhile isComplete) ∧ working desk kept = kept ∧
        (result (applyConstants (.arr kept)) desk).1 = .ok () ∧
        (result (applyConstants (.arr instructions)) desk).2.save = (result (applyConstants (.arr kept)) desk).2.save := by
  refine ⟨fun nodeId value form h => ?_,fun instructions hids => ?_⟩
  · obtain ⟨hworked,hsave⟩ := result_applyConstant nodeId value form desk
    rw [hworked,Except.ok.injEq,Option.isSome_eq_false_iff,Option.isNone_iff_eq_none] at h
    rw [hsave,h]
    rfl
  · obtain ⟨hsave,hends⟩ := result_applyConstants hids desk
    obtain ⟨hsaved,htwice⟩ := savedAll_working desk (instructions.takeWhile isComplete)
    have hsub := working_subset desk (instructions.takeWhile isComplete)
    have hkept : ∀ x ∈ working desk (instructions.takeWhile isComplete), isComplete x = true := fun x hx =>
      mem_takeWhile_imp (hsub hx)
    obtain ⟨hsave',hends'⟩ := result_applyConstants
      (fun x hx => hids x ((takeWhile_sublist _).subset (hsub hx))) desk
    rw [takeWhile_eq_self_iff.2 hkept,hsaved] at hsave'
    exact ⟨hends,_,rfl,htwice,hends'.2 hkept,hsave.trans hsave'.symm⟩

/-- A graph with two nodes, the id of the second being a part of that of the first. -/
def nestedIds : Desk :=
  twoBoxes [.obj [("key",.str "chip_graph"),
    ("stringValue",.str "\x7b\"Nodes\": [\x7b\"Id\": \"AB\"\x7d, \x7b\"Id\": \"A\"\x7d]\x7d")]] []

def instructionFor (id : String) (form value : Json) : Json :=
  .obj [("node_id",.str id),("value_type",form),("new_value",value)]

def threeInstructions : List Json :=
  [instructionFor "C" (.str "string") (.str "x"),instructionFor "A" (.str "string") (.str "y"),
    instructionFor "A" (.str "vector") (.arr [.int 1])]

theorem working_threeInstructions : working nestedIds (threeInstructions.takeWhile isComplete) =
    [instructionFor "A" (.str "string") (.str "y")] := by
  have hcomplete : threeInstructions.takeWhile isComplete=threeInstructions := takeWhile_eq_self_iff.2 (by decide)
  rw [hcomplete,threeInstructions,working_cons (b := false) (by decide +kernel),working_cons (b := true) (by decide +kernel),
    working_cons (b := false) (by decide +kernel)]
  rfl

theorem applyConstants_atomic_three :
    (result (applyConstants (.arr threeInstructions)) nestedIds).1 = .ok () ∧
    (result (applyConstants (.arr threeInstructions)) nestedIds).2.save =
      (result (applyConstants (.arr [instructionFor "A" (.str "string") (.str "y")])) nestedIds).2.save := by
  obtain ⟨hends,kept,hkept,-,-,hsave⟩ := (applyConstants_atomic nestedIds).2 threeInstructions (by
    simp [threeInstructions,instructionFor,get?,lookup])
  rw [hkept,working_threeInstructions] at hsave
  exact ⟨hends.2 (by simp [threeInstructions,instructionFor,isComplete,get?,lookup]),hsave⟩

/-- The id of a node has a text as a part. -/
def HasPart (id : String) (node : Json) : Prop :=
  match (node.get? "Id").getD (.str "") with
  | .str s => id.toList <:+: s.toList
  | .arr items => items.any (·.same (.str id))
  | .obj fields => (lookup id fields).isSome
  | _ => False

theorem hasPart_iff {whole : Json} {part : Bool} (hwhole : node.fieldOr "Id" (.str "")=.ok whole)
    (h : isPartOf (.str id) whole=.ok part) : HasPart id node ↔ part=true := by
  rw [HasPart,← fieldOr_eq_ok hwhole]
  cases whole with
  | str s =>
    cases h
    exact Text.contains_iff.symm
  | arr items =>
    cases h
    exact Iff.rfl
  | obj fields =>
    cases h
    exact Iff.rfl
  | _ => cases h

/-- The node that an id leads to: the first whose own id has it as a part. -/
structure LeadsTo (id : String) (nodes : List Json) (j : Nat) (node : Json) : Prop where
  here : nodes[j]?=some node
  part : HasPart id node
  first : ∀ k < j, ∀ other, nodes[k]?=some other→¬HasPart id other

theorem leadsTo_of_findByPart (h : findByPart (.str id) i nodes=.ok (some (j,node))) :
    ∃ k, j=i+k ∧ LeadsTo id nodes k node := by
  induction nodes generalizing i with
  | nil => cases h
  | cons n rest ih =>
    obtain ⟨whole,hwhole,h⟩ := bind_eq_ok.1 h
    obtain ⟨part,hpart,h⟩ := bind_eq_ok.1 h
    have hn := hasPart_iff hwhole hpart
    cases part with
    | true =>
      cases h
      exact ⟨0,rfl,rfl,hn.2 rfl,nofun⟩
    | false =>
      obtain ⟨k,rfl,hk⟩ := ih h
      refine ⟨k+1,by omega,hk.here,hk.part,fun m hm other hother => ?_⟩
      cases m with
      | zero =>
        cases hother
        exact fun hpart => nomatch hn.1 hpart
      | succ m => exact hk.first m (Nat.lt_of_succ_lt_succ hm) other hother

/-- The id of a node leads to that node exactly if no earlier one has an id with it as a part. -/
theorem LeadsTo.eq_iff {addressed : Json} {m : Nat} (h : LeadsTo id nodes j node) (hm : nodes[m]?=some addressed)
    (hid : addressed.get? "Id" = some (.str id)) : j=m ↔ ∀ k < m, ∀ other, nodes[k]?=some other→¬HasPart id other := by
  have hpart : HasPart id addressed := by
    rw [HasPart,hid]
    exact List.infix_rfl
  constructor
  · rintro rfl
    exact h.first
  · intro hfirst
    refine Nat.le_antisymm (Nat.le_of_not_lt fun hlt => h.first m hlt addressed hm hpart) ?_
    exact Nat.le_of_not_lt fun hlt => hfirst j hlt node h.here h.part

theorem assignEach_eq_ok {v w x : Json} {key : String} (h : v.assignEach key x=.ok w) :
    w=v.withItems (v.listed.map (·.set key x)) := by
  obtain ⟨items,hitems,h⟩ := bind_eq_ok.1 h
  obtain ⟨changed,hchanged,h⟩ := bind_eq_ok.1 h
  cases h
  rw [listed,hitems,eq_map_of_mapM hchanged]
  · rfl
  · intro a _ b hab
    cases a with
    | obj fields =>
      cases hab
      rfl
    | _ => cases hab

/-- A node that was given a value: its type, the types of its outputs and its data are written anew, the rest is as before. -/
structure Reset (form value node node' : Json) : Prop where
  kept : ∀ key∉["GateDataType","Outputs","SaveData"], node'.get? key=node.get? key
  written : ∃ g named old data, formType form=.ok g ∧ typesNamed node=.ok named ∧ constantData g old value=.ok data ∧
    node'.get? "GateDataType" = some (typeIn (.ofNames named) g) ∧ node'.get? "SaveData" = some (.str (tight data)) ∧
    node'.get? "Outputs" = (node.get? "Outputs").map fun v =>
      v.withItems (v.listed.map (·.set "DataType" (typeIn (.ofNames named) g)))

theorem exists_data_of_stored {g : GateType} {changed : Json} (h : (do
      let old ← match changed.get? "SaveData" with
        | some data => if data.truthy then data.parseText else pure (.obj [])
        | none => pure (.obj [])
      pure (changed.set "SaveData" (.str (tight (← constantData g old value)))))=.ok node') :
    ∃ old data, constantData g old value=.ok data ∧ node'=changed.set "SaveData" (.str (tight data)) := by
  have hstored {old : Json} (h : (constantData g old value >>= fun data =>
      .ok (changed.set "SaveData" (.str (tight data))))=.ok node') :
      ∃ old data, constantData g old value=.ok data ∧ node'=changed.set "SaveData" (.str (tight data)) := by
    obtain ⟨data,hdata,h⟩ := bind_eq_ok.1 h
    cases h
    exact ⟨old,data,hdata,rfl⟩
  dsimp only at h
  split at h
  · split at h
    · obtain ⟨old,-,h⟩ := bind_eq_ok.1 h
      exact hstored h
    · exact hstored h
  · exact hstored h

theorem reset_of_constantNode (h : constantNode node value form=.ok node') : Reset form value node node' := by
  obtain ⟨g,hg,h⟩ := bind_eq_ok.1 h
  obtain ⟨named,hnamed,h⟩ := bind_eq_ok.1 h
  generalize ht : typeIn (.ofNames named) g=t at h
  have htyped : (node.set "GateDataType" t).get? "GateDataType" = some t := by
    cases node with
    | obj fields => simp [Json.set,get?]
    | _ => cases hnamed
  -- Whether there are outputs or not, all fields but theirs are those of the node with its new type.
  obtain ⟨changed,hfields,houtputs,old,data,hdata,rfl⟩ : ∃ changed : Json,
      (∀ key ≠ "Outputs", changed.get? key=(node.set "GateDataType" t).get? key) ∧
      changed.get? "Outputs" = ((node.set "GateDataType" t).get? "Outputs").map
        (fun v => v.withItems (v.listed.map (·.set "DataType" t))) ∧
      ∃ old data, constantData g old value=.ok data ∧ node'=changed.set "SaveData" (.str (tight data)) := by
    dsimp only at h
    split at h
    · rename_i list hlist
      obtain ⟨list',hlist',h⟩ := bind_eq_ok.1 h
      cases assignEach_eq_ok hlist'
      rw [hlist]
      exact ⟨_,fun key hkey => get?_set_ne _ _ hkey,get?_set_self _ htyped,exists_data_of_stored h⟩
    · rename_i hlist
      rw [hlist]
      exact ⟨_,fun _ _ => rfl,hlist,exists_data_of_stored h⟩
  have htype := (hfields "GateDataType" (by decide)).trans htyped
  refine ⟨fun key hkey => ?_,g,named,old,data,hg,hnamed,hdata,?_,get?_set_self _ htype,?_⟩
  · simp only [mem_cons,not_mem_nil,or_false,not_or] at hkey
    rw [get?_set_ne _ _ hkey.2.2,hfields key hkey.2.1,get?_set_ne _ _ hkey.1]
  · rw [get?_set_ne _ _ (by decide),htype,ht]
  · rw [get?_set_ne _ _ (by decide),houtputs,ht,get?_set_ne node t (by decide)]

theorem constantSet_eq_some {graph' : Json} (hgraph : parse text=.ok graph) (hnodes : graph.get? "Nodes" = some (.arr nodes))
    (h : constantSet (.str text) (.str id) value form=some graph') :
    ∃ j node node', LeadsTo id nodes j node ∧ Reset form value node node' ∧
      graph'=graph.set "Nodes" (.arr (nodes.set j node')) := by
  have hok : constantIn (.str text) (.str id) value form=.ok (some graph') := by
    rw [constantSet] at h
    cases hin : constantIn (.str text) (.str id) value form <;> rw [hin] at h
    · cases h
    · exact congrArg Except.ok h
  obtain ⟨parsed,hparsed,hok⟩ := bind_eq_ok.1 hok
  rw [parseText,hgraph] at hparsed
  cases hparsed
  obtain ⟨list,hlist,hok⟩ := bind_eq_ok.1 hok
  obtain rfl : list=.arr nodes := by rw [fieldOr_eq_ok hlist,hnodes]; rfl
  obtain ⟨items,hitems,hok⟩ := bind_eq_ok.1 hok
  cases hitems
  obtain ⟨found,hfound,hok⟩ := bind_eq_ok.1 hok
  rcases found with - | ⟨j,node⟩
  · cases hok
  · obtain ⟨k,rfl,hleads⟩ := leadsTo_of_findByPart hfound
    dsimp only at hok
    split at hok
    · cases hok
    · obtain ⟨node',hnode',hok⟩ := bind_eq_ok.1 hok
      cases hok
      exact ⟨k,node,node',hleads,reset_of_constantNode hnode',by rw [updateAt,Nat.zero_add,set_eq_modify]⟩

/-- An edit that works rewrites the first node whose id has the given one as a part, and nothing else. So it rewrites the node
with exactly that id just if no earlier node has an id with it as a part. -/
theorem applyConstant_rewrites_first (hentry : inFirst "chip_graph" desk.save = .ok (some (i, entry)))
    (htext : entry.get? "stringValue" = some (.str text)) (hgraph : parse text = .ok graph)
    (hnodes : graph.get? "Nodes" = some (.arr nodes))
    (h : result (applyConstant (.str id) value form) desk = (.ok true, desk')) :
    ∃ j node node' graph', LeadsTo id nodes j node ∧ Reset form value node node' ∧
      graph' = graph.set "Nodes" (.arr (nodes.set j node')) ∧ desk'.save = setText ⟨0, i⟩ (tight graph') desk.save ∧
      inFirst "chip_graph" desk'.save = .ok (some (i, entry.set "stringValue" (.str (tight graph')))) ∧
      ∀ m addressed, nodes[m]? = some addressed → addressed.get? "Id" = some (.str id) →
        (j = m ↔ ∀ k < m, ∀ other, nodes[k]? = some other → ¬HasPart id other) := by
  obtain ⟨hworked,hsave⟩ := setsAt_of_inFirst hentry htext (.str id) value form
  rw [h] at hworked hsave
  obtain ⟨graph',hset⟩ := Option.isSome_iff_exists.1 (Except.ok.inj hworked).symm
  obtain ⟨j,node,node',hleads,hreset,heq⟩ := constantSet_eq_some hgraph hnodes hset
  rw [hset] at hsave
  refine ⟨j,node,node',graph',hleads,hreset,heq,hsave,?_,fun m addressed => hleads.eq_iff⟩
  rw [hsave,Option.map_some,Option.getD_some,inFirst_setText hentry,if_pos rfl]

theorem parse_nestedIds : parse "\x7b\"Nodes\": [\x7b\"Id\": \"AB\"\x7d, \x7b\"Id\": \"A\"\x7d]\x7d" =
    .ok (.obj [("Nodes",.arr [.obj [("Id",.str "AB")],.obj [("Id",.str "A")]])]) := by cbv

theorem applyConstant_rewrites_longer : ∃ desk' node', result (applyConstant (.str "A") (.str "y") (.str "string"))
      nestedIds = (.ok true, desk') ∧ Reset (.str "string") (.str "y") (.obj [("Id", .str "AB")]) node' ∧
    desk'.save = setText ⟨0, 0⟩ (tight (.obj [("Nodes", .arr [node', .obj [("Id", .str "A")]])])) nestedIds.save := by
  have hrun := result_eq_ok (m := applyConstant (.str "A") (.str "y") (.str "string")) (s := nestedIds) (a := true)
    (by decide +kernel)
  have hpart : HasPart "A" (.obj [("Id",.str "AB")]) := ⟨[],['B'],rfl⟩
  obtain ⟨j,node,node',graph',hleads,hreset,rfl,hsave,-⟩ :=
    applyConstant_rewrites_first (i := 0) rfl rfl parse_nestedIds rfl hrun
  cases j with
  | zero =>
    cases hleads.here
    exact ⟨_,node',hrun,hreset,hsave⟩
  | succ j => exact absurd hpart (hleads.first 0 j.succ_pos _ rfl)

theorem constantSet_nestedIds :
    constantSet (.str "\x7b\"Nodes\": [\x7b\"Id\": \"AB\"\x7d, \x7b\"Id\": \"A\"\x7d]\x7d") (.str "A") (.str "y") (.str "string") =
      some (.obj [("Nodes",.arr [.obj [("Id",.str "AB"),("GateDataType",.int 4),
        ("SaveData",.str "\x7b\"DataValue\":\"y\"\x7d")],.obj [("Id",.str "A")]])]) := by cbv

/-- The node with the given id stays as it is, and another one gets the value. -/
theorem applyConstant_misses : ∃ desk', result (applyConstant (.str "A") (.str "y") (.str "string")) nestedIds =
      (.ok true, desk') ∧
    desk'.save = setText ⟨0, 0⟩ (tight (.obj [("Nodes", .arr [.obj [("Id", .str "AB"), ("GateDataType", .int 4),
      ("SaveData", .str "\x7b\"DataValue\":\"y\"\x7d")], .obj [("Id", .str "A")]])])) nestedIds.save := by
  have hentry : inFirst "chip_graph" nestedIds.save = .ok (some (0,_)) := rfl
  obtain ⟨hworked,hsave⟩ := setsAt_of_inFirst hentry rfl (.str "A") (.str "y") (.str "string")
  rw [constantSet_nestedIds] at hworked hsave
  -- The run itself must not be unfolded here.
  generalize result _ _ = run at hworked hsave ⊢
  exact ⟨run.2,Prod.ext hworked rfl,hsave⟩

end ChipForge.Save
