import ChipForge.Proofs.Additions
import ChipForge.Save.Retype
import Mathlib.Data.List.Nodup
import Mathlib.Data.List.DropRight

/-! The operation of a node is all that tells its module later on. It is looked up as an id first, and then as a name
whose case and outer blanks do not count; the way back leads to the module unless what was written is the id of another
one, or neither the id nor a name of its own. -/
namespace ChipForge.Text
open List

theorem trim_trim (s : String) : trim (trim s)=trim s := by
  have hfront : dropBlankEnd (s.toList.dropWhile isBlank) <+: s.toList.dropWhile isBlank := rdropWhile_prefix isBlank _
  -- What is left starts like the text without the blanks before it.
  have hself : (dropBlankEnd (s.toList.dropWhile isBlank)).dropWhile isBlank=dropBlankEnd (s.toList.dropWhile isBlank) := by
    rw [dropWhile_eq_self_iff]
    intro hpos
    rw [hfront.getElem hpos]
    exact dropWhile_eq_self_iff.1 (dropWhile_idempotent isBlank _) (hfront.length_le.trans_lt' hpos)
  rw [trim,trim,String.toList_ofList,hself]
  simp only [dropBlankEnd,reverse_reverse,dropWhile_idempotent]

theorem lower_ne_empty {s : String} (h : s ≠ "") : lower s ≠ "" := by
  intro hlower
  have hnil : lowerAfter [] s.toList=[] := by simpa [lower] using congrArg String.toList hlower
  cases hs : s.toList with
  | nil => exact h (String.toList_eq_nil_iff.1 hs)
  | cons c rest =>
    rw [hs,lowerAfter] at hnil
    have hsmall := (append_eq_nil_iff.1 hnil).1
    unfold lowerChar at hsmall
    split_ifs at hsmall
    split at hsmall <;> cases hsmall

end ChipForge.Text

namespace ChipForge.Save
open Json Text Wiring

variable {entries : List (String×Json)} {schema : Schema} {key : String} {module op : Json} {text : String}
  {name : Json} {n : Int}

/-- Ids of modules are distinct, and no two modules have a name in common, even if case and outer blanks are ignored. -/
structure NamedApart (entries : List (String×Json)) : Prop where
  ids : (entries.map (·.1)).Nodup
  names : ∀ e∈entries, ∀ e'∈entries, e.1≠e'.1→∀ word, word ≠ "" → goesBy word e.2=true → goesBy word e'.2=false

/-- An operation is the id of a module, or it is no id and one of the names of the module. -/
def LeadsBack (entries : List (String×Json)) (key : String) (module op : Json) : Prop :=
  op.plain=key ∨ ∃ text, op=.str text ∧ text∉entries.map (·.1) ∧ lower (trim text) ≠ "" ∧
    goesBy (lower (trim text)) module=true

theorem lookup_isSome_iff {name : String} {fields : List (String×Json)} :
    (lookup name fields).isSome=true ↔ name∈fields.map (·.1) := by
  induction fields with
  | nil => simp [lookup]
  | cons field rest ih =>
    by_cases h : field.1=name
    · simp [lookup,h]
    · simp [lookup,h,ih,Ne.symm h]

theorem find?_goesBy (hapart : NamedApart entries) (hmem : (key,module)∈entries) {word : String} (hword : word ≠ "")
    (h : goesBy word module=true) : entries.find? (fun (_,m) => goesBy word m)=some (key,module) := by
  cases hfind : entries.find? (fun (_,m) => goesBy word m) with
  | none => simpa [h] using List.find?_eq_none.1 hfind _ hmem
  | some found =>
    have hgoes := List.find?_some hfind
    have hfound := List.mem_of_find?_eq_some hfind
    by_cases hkey : found.1=key
    · exact congrArg some (List.inj_on_of_nodup_map hapart.ids hfound hmem hkey)
    · rw [hapart.names _ hfound _ hmem hkey word hword hgoes] at h
      cases h

theorem moduleKey?_self (hnull : op.isNull=false) (h : op.plain∈entries.map (·.1) ∨ op.isStr=false) :
    moduleKey? op (.obj entries)=.ok (some op.plain) := by
  have hname : hasName (.obj entries) op.plain=.ok (lookup op.plain entries).isSome := rfl
  rw [moduleKey?,hnull,if_neg (by decide)]
  dsimp only
  rw [hname]
  cases hfound : (lookup op.plain entries).isSome with
  | true => rfl
  | false =>
    rcases h with hmem | hstr
    · rw [lookup_isSome_iff.2 hmem] at hfound
      cases hfound
    · cases op with
      | str text => cases hstr
      | _ => rfl

theorem moduleKey?_name (h : text∉entries.map (·.1)) :
    moduleKey? (.str text) (.obj entries)=.ok (some (if lower (trim text) = "" then text else
      ((entries.find? fun (_,m) => goesBy (lower (trim text)) m).map (·.1)).getD text)) := by
  have hname : hasName (.obj entries) (Json.str text).plain=.ok (lookup text entries).isSome := rfl
  have hfound : (lookup text entries).isSome=false := Bool.eq_false_iff.2 fun hsome => h (lookup_isSome_iff.1 hsome)
  have hentries : (Json.obj entries).entries=.ok entries := rfl
  rw [moduleKey?]
  dsimp only [isNull]
  rw [hname,hfound,hentries]
  by_cases hword : lower (trim text) = ""
  · simp [hword,bind,Except.bind,pure,Except.pure,plain]
  · simp only [bind,Except.bind,pure,Except.pure,plain,String.isEmpty_iff,hword,if_false,Bool.false_eq_true]
    cases entries.find? fun (_,m) => goesBy (lower (trim text)) m <;> rfl

/-- A module is found by an operation exactly if that leads back to it. -/
theorem moduleKey?_iff (hapart : NamedApart entries) (hmem : (key,module)∈entries) (hnull : op.isNull=false) :
    moduleKey? op (.obj entries)=.ok (some key) ↔ LeadsBack entries key module op := by
  have hkey : key∈entries.map (·.1) := List.mem_map_of_mem hmem
  by_cases hself : op.plain∈entries.map (·.1) ∨ op.isStr=false
  · rw [moduleKey?_self hnull hself,Except.ok.injEq,Option.some.injEq]
    refine ⟨.inl,?_⟩
    rintro (h | ⟨text,rfl,hnot,-⟩)
    · exact h
    · rcases hself with hself | hself
      · exact absurd hself hnot
      · cases hself
  · obtain ⟨hnot,hstr⟩ := not_or.1 hself
    obtain ⟨text,rfl⟩ : ∃ text, op=.str text := by
      cases op with
      | str text => exact ⟨text,rfl⟩
      | _ => exact absurd rfl hstr
    have hnot : text∉entries.map (·.1) := hnot
    have hne : text≠key := fun h => hnot (h ▸ hkey)
    rw [moduleKey?_name hnot,Except.ok.injEq,Option.some.injEq]
    constructor
    · intro h
      split_ifs at h with hword
      · exact absurd h hne
      · refine .inr ⟨text,rfl,hnot,hword,?_⟩
        cases hfind : entries.find? fun (_,m) => goesBy (lower (trim text)) m with
        | none =>
          rw [hfind] at h
          exact absurd h hne
        | some found =>
          rw [hfind] at h
          have hgoes := List.find?_some hfind
          rwa [List.inj_on_of_nodup_map hapart.ids (List.mem_of_find?_eq_some hfind) hmem h] at hgoes
    · rintro (h | ⟨text',htext,-,hword,hgoes⟩)
      · exact absurd h hne
      · cases htext
        rw [if_neg hword,find?_goesBy hapart hmem hword hgoes]
        rfl

def originOf (module : Json) : Json := (module.get? "source_info").getD (.obj [])

def playersName (module : Json) : Json := ((originOf module).get? "chip_names_friendly_name").getD .null

def graphName (module : Json) : Json := ((originOf module).get? "datatype_map_nodename").getD .null

/-- A module is written by name if there is no other way: by its number where operations are numbers, or by its id where they
are names. -/
def ByName (schema : Schema) (key : String) : Prop :=
  match schema with
  | .numbers => allDigits (trim key)=false ∨ readInt? (trim key)=none
  | .names => allDigits (trim key)=true

/-- The way back leads to a module: from its number, from its id or from its name. -/
inductive RoundTrips (entries : List (String×Json)) (schema : Schema) (key : String) (module : Json) : Prop
  | number {n : Int} (hschema : schema=.numbers) (hdigits : allDigits (trim key)=true)
      (hn : readInt? (trim key)=some n) (hkey : toString n=key) : RoundTrips entries schema key module
  | id (hschema : schema=.names) (hword : allDigits (trim key)=false)
      (hback : LeadsBack entries key module (usualOperation (.str (trim key)))) : RoundTrips entries schema key module
  | name {name : Json} (hby : ByName schema key) (hname : operationName module (.str key)=.ok name)
      (hback : LeadsBack entries key module (usualOperation name)) : RoundTrips entries schema key module

/-- What is written for a module: its number, its id without outer blanks, or its name. -/
theorem operationOf_cases (h : operationOf schema module (.str key)=.ok op) :
    (schema=.numbers ∧ allDigits (trim key)=true ∧ ∃ n, readInt? (trim key)=some n ∧ op=.int n) ∨
    (schema=.names ∧ allDigits (trim key)=false ∧ op=usualOperation (.str (trim key))) ∨
    ByName schema key ∧ ∃ name, operationName module (.str key)=.ok name ∧ op=usualOperation name := by
  unfold operationOf at h
  dsimp only at h
  cases hdigits : allDigits (trim key) with
  | true =>
    rw [hdigits,if_pos rfl] at h
    cases schema with
    | names =>
      obtain ⟨name,hname,h⟩ := bind_eq_ok.1 h
      cases h
      exact .inr (.inr ⟨hdigits,name,hname,rfl⟩)
    | numbers =>
      cases hn : readInt? (trim key) with
      | some n =>
        rw [plain,hn] at h
        cases h
        exact .inl ⟨rfl,rfl,n,rfl,rfl⟩
      | none =>
        rw [plain,hn] at h
        obtain ⟨name,hname,h⟩ := bind_eq_ok.1 h
        cases h
        exact .inr (.inr ⟨.inr hn,name,hname,rfl⟩)
  | false =>
    rw [hdigits,if_neg Bool.false_ne_true] at h
    cases schema with
    | names => exact .inr (.inl ⟨rfl,rfl,(Except.ok.inj h).symm⟩)
    | numbers =>
      obtain ⟨name,hname,h⟩ := bind_eq_ok.1 h
      cases h
      exact .inr (.inr ⟨.inl hdigits,name,hname,rfl⟩)

theorem usualOperation_isNull (h : op.isNull=false) : (usualOperation op).isNull=false := by
  cases op with
  | str text =>
    unfold usualOperation
    dsimp only
    split_ifs <;> rfl
  | null => cases h
  | _ => rfl

/-- The name that a module is written by: its name in graphs, its name for players, or its id. -/
theorem operationName_eq_ok (h : operationName module (.str key)=.ok name) :
    name=((graphName module).orElse (playersName module)).orElse (.str key) := by
  obtain ⟨source,first,hsource,hfirst,h⟩ := bind_bind_eq_ok.1 h
  obtain ⟨second,hsecond,h⟩ := bind_eq_ok.1 h
  cases h
  rw [graphName,playersName,originOf,← fieldOr_eq_ok hsource,field_eq_ok hfirst,field_eq_ok hsecond]
  rfl

theorem orElse_isNull {v other : Json} (h : other.isNull=false) : (v.orElse other).isNull=false := by
  unfold Json.orElse
  split_ifs with htruthy
  · cases v with
    | null => cases htruthy
    | _ => rfl
  · exact h

theorem operationOf_isNull (h : operationOf schema module (.str key)=.ok op) : op.isNull=false := by
  rcases operationOf_cases h with ⟨-,-,n,-,hop⟩ | ⟨-,-,hop⟩ | ⟨-,name,hname,hop⟩
  · rw [hop]
    rfl
  · have hid : (Json.str (trim key)).isNull=false := rfl
    rw [hop]
    exact usualOperation_isNull hid
  · have hkey : (Json.str key).isNull=false := rfl
    rw [hop,operationName_eq_ok hname]
    exact usualOperation_isNull (orElse_isNull hkey)

theorem leadsBack_int_iff : LeadsBack entries key module (.int n) ↔ toString n=key := by
  refine ⟨?_,Or.inl⟩
  rintro (h | ⟨text,htext,-⟩)
  · exact h
  · cases htext

/-- A module that is written by its name has no number to be written by, -/
theorem ByName.not_number (h : ByName .numbers key) (hdigits : allDigits (trim key)=true)
    (hn : readInt? (trim key)=some n) : False := by
  rcases h with hword | hnone
  · rw [hdigits] at hword
    cases hword
  · rw [hn] at hnone
    cases hnone

/-- and no word for an id. -/
theorem ByName.not_id (h : ByName .names key) (hword : allDigits (trim key)=false) : False := by
  have hdigits : allDigits (trim key)=true := h
  rw [hword] at hdigits
  cases hdigits

/-- The way back from what is written for a module. -/
theorem leadsBack_operationOf_iff (h : operationOf schema module (.str key)=.ok op) :
    LeadsBack entries key module op ↔ RoundTrips entries schema key module := by
  rcases operationOf_cases h with ⟨rfl,hdigits,n,hn,hop⟩ | ⟨rfl,hword,hop⟩ | ⟨hby,name,hname,hop⟩ <;> rw [hop]
  · rw [leadsBack_int_iff]
    refine ⟨.number rfl hdigits hn,?_⟩
    rintro (⟨-,-,hn',hkey⟩ | ⟨⟨⟩,-,-⟩ | ⟨hby,-,-⟩)
    · rw [hn] at hn'
      cases hn'
      exact hkey
    · exact (hby.not_number hdigits hn).elim
  · refine ⟨.id rfl hword,?_⟩
    rintro (⟨⟨⟩,-,-,-⟩ | ⟨-,-,hback⟩ | ⟨hby,-,-⟩)
    · exact hback
    · exact (hby.not_id hword).elim
  · refine ⟨.name hby hname,?_⟩
    rintro (⟨rfl,hdigits,hn,-⟩ | ⟨rfl,hword,-⟩ | ⟨-,hname',hback⟩)
    · exact (hby.not_number hdigits hn).elim
    · exact (hby.not_id hword).elim
    · rw [hname] at hname'
      cases hname'
      exact hback

/-- What is written for a module is kept as it is: its id has no outer blanks, is no name that is replaced, and if it is a
number it is spelled the usual way; each of its names is a text that is not blank, not replaced, and not the id of another
module. -/
structure Kept (entries : List (String×Json)) (key : String) (module : Json) : Prop where
  trimmed : trim key=key
  usual : operationWords.lookup (lower key)=none
  numeral : ∀ n, allDigits key=true → readInt? key=some n → toString n=key
  names : ∀ name∈[graphName module,playersName module], name.truthy=true→∃ text, name=.str text ∧
    trim text ≠ "" ∧ operationWords.lookup (lower (trim text))=none ∧
    (trim text∈entries.map (·.1) → trim text=key)

theorem usualOperation_str (h : operationWords.lookup (lower (trim text))=none) (hblank : trim text ≠ "" ∨ trim text=text) :
    usualOperation (.str text)=.str (trim text) := by
  unfold usualOperation
  dsimp only
  rw [h,Option.getD_none]
  split_ifs with hempty
  · rcases hblank with hne | hsame
    · exact absurd (String.isEmpty_iff.1 hempty) hne
    · rw [hsame]
  · rfl

theorem goesBy_of_name (h : .str text∈[graphName module,playersName module]) :
    goesBy (lower (trim text)) module=true := by
  have hfield : ∀ field, ((originOf module).get? field).getD .null=.str text →
      field∈["datatype_map_nodename","chip_names_friendly_name"] → goesBy (lower (trim text)) module=true := by
    intro field hvalue hfield
    obtain ⟨v,hget,hv⟩ : ∃ v, (originOf module).get? field=some v ∧ v=.str text := by
      cases hget : (originOf module).get? field with
      | none =>
        rw [hget] at hvalue
        cases hvalue
      | some v =>
        rw [hget] at hvalue
        exact ⟨v,rfl,hvalue⟩
    subst hv
    cases hsource : module.get? "source_info" with
    | none =>
      rw [originOf,hsource] at hget
      cases hget
    | some source =>
      rw [originOf,hsource,Option.getD_some] at hget
      cases module with
      | obj fields =>
        have hsource : lookup "source_info" fields=some source := hsource
        cases source with
        | obj inner =>
          have hlookup : lookup field inner=some (.str text) := hget
          have htruthy : (Json.obj inner).truthy=true := by
            cases inner with
            | nil => cases hlookup
            | cons => rfl
          simp only [goesBy,hsource,Option.getD_some,Json.orElse,htruthy,if_true]
          exact List.any_eq_true.2 ⟨field,hfield,by rw [hlookup]; exact beq_self_eq_true _⟩
        | _ => cases hget
      | _ => cases hsource
  rcases List.mem_cons.1 h with h | h
  · exact hfield _ h.symm (by simp)
  · exact hfield _ (List.mem_singleton.1 h).symm (by simp)

theorem Kept.leadsBack_id (h : Kept entries key module) : LeadsBack entries key module (usualOperation (.str key)) := by
  rw [usualOperation_str (h.trimmed.symm ▸ h.usual) (.inr h.trimmed),h.trimmed]
  exact .inl rfl

theorem Kept.leadsBack_name (h : Kept entries key module) (hname : name∈[graphName module,playersName module])
    (htruthy : name.truthy=true) : LeadsBack entries key module (usualOperation name) := by
  obtain ⟨text,rfl,hblank,husual,hid⟩ := h.names name hname htruthy
  rw [usualOperation_str husual (.inl hblank)]
  by_cases hmem : trim text∈entries.map (·.1)
  · exact .inl (hid hmem)
  · refine .inr ⟨_,rfl,hmem,?_⟩
    rw [trim_trim]
    exact ⟨lower_ne_empty hblank,goesBy_of_name hname⟩

/-- Where all that is written is kept, the way back leads to the module. -/
theorem Kept.roundTrips (h : Kept entries key module) (hop : operationOf schema module (.str key)=.ok op) :
    RoundTrips entries schema key module := by
  rcases operationOf_cases hop with ⟨hschema,hdigits,n,hn,-⟩ | ⟨hschema,hword,-⟩ | ⟨hby,name,hname,-⟩
  · refine .number hschema hdigits hn ?_
    rw [h.trimmed] at hdigits hn
    exact h.numeral n hdigits hn
  · refine .id hschema hword ?_
    rw [h.trimmed]
    exact h.leadsBack_id
  · refine .name hby hname ?_
    rw [operationName_eq_ok hname]
    by_cases hfirst : (graphName module).truthy=true
    · simp only [Json.orElse,if_pos hfirst]
      exact h.leadsBack_name (by simp) hfirst
    by_cases hsecond : (playersName module).truthy=true
    · simp only [Json.orElse,if_neg hfirst,if_pos hsecond]
      exact h.leadsBack_name (by simp) hsecond
    · simp only [Json.orElse,if_neg hfirst,if_neg hsecond]
      exact h.leadsBack_id

/-- The operation of a new node leads back to its module exactly if it does so from the number, the id or the name of the
module, and always if what is written for the module is kept. -/
theorem moduleKey?_makeModule {name nodes : Json} {node : Save.Node} {y : Number} {desk desk' : Desk}
    (hapart : NamedApart entries) (hmem : (key, module) ∈ entries) (hid : module.get? "id" = some (.str key))
    (h : result (makeModule name module nodes) desk = (.ok (some (node, y)), desk')) :
    ∃ schema, schemaOf nodes = .ok schema ∧
      (moduleKey? node.operation (.obj entries) = .ok (some key) ↔ RoundTrips entries schema key module) ∧
      (Kept entries key module → moduleKey? node.operation (.obj entries) = .ok (some key)) := by
  obtain ⟨schema,id,hschema,hfield,-,-,hnew⟩ := makeModule_isNew h
  obtain ⟨form,draw,hform,hnode⟩ := hnew node y rfl
  have hop : operationOf schema module (.str key) = .ok node.operation := by
    obtain ⟨id',hfield',hform⟩ := bind_eq_ok.1 hform
    obtain ⟨op,hop,hform⟩ := bind_eq_ok.1 hform
    obtain ⟨inputs,-,hform⟩ := bind_eq_ok.1 hform
    obtain ⟨outputs,-,hform⟩ := bind_eq_ok.1 hform
    obtain ⟨code,-,hform⟩ := bind_eq_ok.1 hform
    obtain ⟨type,-,hform⟩ := bind_eq_ok.1 hform
    rw [field_eq_ok hfield',hid] at hop
    have hoperation := congrArg Form.operation hnode.form
    rw [← Except.ok.inj hform] at hoperation
    rw [show node.operation = op from hoperation]
    exact hop
  have hiff := (moduleKey?_iff hapart hmem (operationOf_isNull hop)).trans (leadsBack_operationOf_iff hop)
  exact ⟨schema,hschema,hiff,fun hkept => hiff.2 (hkept.roundTrips hop)⟩

def labels (graph players : String) : List (String×Json) :=
  [("datatype_map_nodename",.str graph),("chip_names_friendly_name",.str players)]

def labelled (key graph players : String) : Json :=
  .obj [("id",.str key),("source_info",.obj (labels graph players))]

def nodesByName : Json := .arr [.obj [("OperationType",.str "Add")]]

def nodesByNumber : Json := .arr [.obj [("OperationType",.int 256)]]

def wayBack (nodes modules : Json) (key : String) : Option String :=
  match modules.get? key with
  | none => none
  | some module =>
    match (result (makeModule (.str "Node") module nodes) ⟨.null,fun n => toString n,0,[]⟩).1 with
    | .ok (some (node,_)) => (moduleKey? node.operation modules).toOption.join
    | _ => none

def arithmetic : List (String×Json) := [("7",labelled "7" "Add" "Sum"),("Pick",labelled "Pick" "Choice" "Pick")]

theorem goesBy_labelled (word key graph players : String) : goesBy word (labelled key graph players) =
    (lower (trim graph) == word || lower (trim players) == word) := by
  have hsource : lookup "source_info" [("id",.str key),("source_info",.obj (labels graph players))] =
      some (.obj (labels graph players)) := rfl
  have htruthy : (Json.obj (labels graph players)).truthy=true := rfl
  have hgraph : lookup "datatype_map_nodename" (labels graph players)=some (.str graph) := rfl
  have hplayers : lookup "chip_names_friendly_name" (labels graph players)=some (.str players) := rfl
  simp only [goesBy,labelled,hsource,Option.getD_some,Json.orElse,htruthy,if_true,List.any_cons,List.any_nil,
    hgraph,hplayers,Bool.or_false]

theorem namedApart_arithmetic : NamedApart arithmetic where
  ids := by decide
  names := by
    have hadd : lower (trim "Add") = "add" := by decide +kernel
    have hsum : lower (trim "Sum") = "sum" := by decide +kernel
    have hchoice : lower (trim "Choice") = "choice" := by decide +kernel
    have hpick : lower (trim "Pick") = "pick" := by decide +kernel
    simp only [arithmetic,List.mem_cons,List.not_mem_nil,or_false]
    rintro e (rfl | rfl) e' (rfl | rfl) hne word - hword <;> simp only [goesBy_labelled] at hword ⊢
    · exact absurd rfl hne
    · simp only [hadd,hsum,hchoice,hpick,Bool.or_eq_true,beq_iff_eq] at hword ⊢
      rcases hword with rfl | rfl <;> decide
    · simp only [hadd,hsum,hchoice,hpick,Bool.or_eq_true,beq_iff_eq] at hword ⊢
      rcases hword with rfl | rfl <;> decide
    · exact absurd rfl hne

set_option maxRecDepth 4000 in
theorem makeModule_named :
    ∃ node y desk', result (makeModule (.str "Node") (labelled "7" "Add" "Sum") nodesByName)
      ⟨.null,fun n => toString n,0,[]⟩=(.ok (some (node,y)),desk') ∧ node.operation=.str "Add" :=
  ⟨_,_,_,rfl,rfl⟩

theorem moduleKey?_makeModule_named :
    ∃ node y desk', result (makeModule (.str "Node") (labelled "7" "Add" "Sum") nodesByName)
        ⟨.null, fun n => toString n, 0, []⟩ = (.ok (some (node, y)), desk') ∧
      node.operation = .str "Add" ∧ moduleKey? node.operation (.obj arithmetic) = .ok (some "7") := by
  have hkept : Kept arithmetic "7" (labelled "7" "Add" "Sum") := by
    refine ⟨by decide +kernel,by decide +kernel,fun n _ hn => ?_,fun name hname _ => ?_⟩
    · cases (show Text.readInt? "7" = some 7 by decide +kernel).symm.trans hn
      rfl
    · have hnames : [graphName (labelled "7" "Add" "Sum"),playersName (labelled "7" "Add" "Sum")] =
        [.str "Add",.str "Sum"] := rfl
      rw [hnames] at hname
      rcases List.mem_cons.1 hname with rfl | hname
      · exact ⟨"Add",rfl,by decide +kernel⟩
      · rw [List.mem_singleton.1 hname]
        exact ⟨"Sum",rfl,by decide +kernel⟩
  obtain ⟨node,y,desk',hmade,hop⟩ := makeModule_named
  obtain ⟨-,-,-,hback⟩ := moduleKey?_makeModule namedApart_arithmetic (List.mem_cons_self ..) rfl hmade
  exact ⟨node,y,desk',hmade,hop,hback hkept⟩

/-- The way back from a name that is replaced, a name that is the id of another module, a number or an id of which the
spelling is lost, a name that differs from another one in blanks alone, and a blank name. -/
theorem wayBack_misses :
    wayBack nodesByName (.obj [("2327", labelled "2327" "Remainder" "Remainder")]) "2327" = some "Mod" ∧
    wayBack nodesByName (.obj [("12", labelled "12" "Add" "Add"), ("Add", labelled "Add" "Plus" "Plus")]) "12" = some "Add" ∧
    wayBack nodesByNumber (.obj [("007", labelled "007" "Add" "Add")]) "007" = some "7" ∧
    wayBack nodesByName (.obj [(" Foo ", labelled " Foo " "Add" "Add")]) " Foo " = some "Foo" ∧
    wayBack nodesByName (.obj [("1", labelled "1" "Add" "Add"), ("2", labelled "2" " Add" " Add")]) "2" = some "1" ∧
    wayBack nodesByName (.obj [("1", labelled "1" " " "Add")]) "1" = some " " := by
  decide +kernel

end ChipForge.Save
