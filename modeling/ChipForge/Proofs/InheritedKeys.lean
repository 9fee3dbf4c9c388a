import ChipForge.Assembly.Variables
import ChipForge.Proofs.Fields
import ChipForge.Proofs.Ports
import Mathlib.Data.Finset.Card
import Mathlib.Logic.Relation

/-! A VARIABLE node without a key of its own inherits one from the VARIABLE nodes that feed it, pass by pass until a
pass changes nothing. This comes to an end on every graph, cycles included, and a node then has a key exactly if it can
be followed back to a node with a key of its own. -/
namespace ChipForge.Assembly
open Json Wiring
open List hiding lookup insert

variable {links : List Link} {keys keys' result : Table String} {id key : String}

/-- The passes without a bound on their number. -/
inductive Loop (links : List Link) : Table String→Table String→Prop
  | done {keys : Table String} (h : inheritOnce links keys=keys) : Loop links keys keys
  | again {keys result : Table String} (h : inheritOnce links keys≠keys)
      (hrest : Loop links (inheritOnce links keys) result) : Loop links keys result

theorem inheritKey_cases (keys : Table String) (link : Link) :
    (inheritKey keys link=keys ∧ (keys.find link.id=none→∀ f∈link.feeders, keys.find f=none)) ∨
      ∃ f∈link.feeders, ∃ key, keys.find link.id=none ∧ keys.find f=some key ∧
        inheritKey keys link=keys.put link.id key := by
  unfold inheritKey
  rw [Table.has_eq_isSome]
  cases hid : keys.find link.id with
  | some key => exact .inl ⟨rfl,nofun⟩
  | none =>
    cases hfound : link.feeders.findSome? keys.find with
    | none => exact .inl ⟨rfl,fun _ => findSome?_eq_none_iff.1 hfound⟩
    | some key =>
      obtain ⟨f,hf,hkey⟩ := exists_of_findSome?_eq_some hfound
      exact .inr ⟨f,hf,key,rfl,hkey,rfl⟩

theorem find_inheritKey {link : Link} (h : keys.find id=some key) : (inheritKey keys link).find id=some key := by
  rcases inheritKey_cases keys link with ⟨hsame,-⟩ | ⟨_,-,_,hnone,-,hput⟩
  · rwa [hsame]
  · have hne : id≠link.id := fun hid => by simp [← hid,h] at hnone
    rwa [hput,Table.find_put_ne _ _ hne]

theorem inheritOnce_cons (link : Link) (rest : List Link) (keys : Table String) :
    inheritOnce (link::rest) keys=inheritOnce rest (inheritKey keys link) := rfl

theorem find_inheritOnce (h : keys.find id=some key) : (inheritOnce links keys).find id=some key := by
  induction links generalizing keys with
  | nil => exact h
  | cons link rest ih => exact ih (find_inheritKey h)

theorem length_put (key : String) (h : keys.find id=none) : (keys.put id key).toList.length=keys.toList.length+1 := by
  have hkeys := congrArg List.length (keys.keys_put id key)
  rw [if_neg (by simp [← Table.find_isSome_iff,h])] at hkeys
  simpa [Table.keys] using hkeys

theorem inheritOnce_cases (links : List Link) (keys : Table String) :
    (inheritOnce links keys=keys ∧
      ∀ link∈links, keys.find link.id=none→∀ f∈link.feeders, keys.find f=none) ∨
    keys.toList.length < (inheritOnce links keys).toList.length ∧
      ∃ link∈links, keys.find link.id=none ∧ (inheritOnce links keys).find link.id≠none := by
  induction links generalizing keys with
  | nil => exact .inl ⟨rfl,by simp⟩
  | cons link rest ih =>
    rw [inheritOnce_cons]
    rcases inheritKey_cases keys link with ⟨hsame,hstable⟩ | ⟨_,-,key,hnone,-,hput⟩
    · rw [hsame]
      rcases ih keys with ⟨hrest,hall⟩ | ⟨hlonger,l,hl,hnew⟩
      · exact .inl ⟨hrest,forall_mem_cons.2 ⟨hstable,hall⟩⟩
      · exact .inr ⟨hlonger,l,mem_cons_of_mem _ hl,hnew⟩
    · rw [hput]
      have hlength := length_put key hnone
      refine .inr ⟨?_,link,mem_cons_self,hnone,?_⟩
      · rcases ih (keys.put link.id key) with ⟨hrest,-⟩ | ⟨hlonger,-⟩
        · rw [hrest]
          omega
        · omega
      · rw [find_inheritOnce (keys.find_put_self link.id key)]
        exact Option.some_ne_none key

theorem inheritOnce_sound {P : String→String→Prop}
    (hstep : ∀ link∈links, ∀ f∈link.feeders, ∀ key, P f key→P link.id key)
    (hkeys : ∀ id key, keys.find id=some key→P id key) :
    ∀ id key, (inheritOnce links keys).find id=some key→P id key := by
  induction links generalizing keys with
  | nil => exact hkeys
  | cons link rest ih =>
    refine ih (fun l hl => hstep l (mem_cons_of_mem _ hl)) fun id key hkey => ?_
    rcases inheritKey_cases keys link with ⟨hsame,-⟩ | ⟨f,hf,found,-,hfound,hput⟩
    · exact hkeys id key (hsame ▸ hkey)
    · rw [hput,Table.find_put] at hkey
      split_ifs at hkey with hid
      · cases hkey
        exact hid ▸ hstep link mem_cons_self f hf _ (hkeys f _ hfound)
      · exact hkeys id key hkey

def keyless (links : List Link) (keys : Table String) : Finset String :=
  (links.map (·.id)).toFinset.filter fun id => keys.find id=none

theorem keyless_ssubset (h : inheritOnce links keys≠keys) : keyless links (inheritOnce links keys) ⊂ keyless links keys := by
  rcases inheritOnce_cases links keys with ⟨hsame,-⟩ | ⟨-,link,hlink,hnone,hnew⟩
  · exact absurd hsame h
  · refine (Finset.ssubset_iff_of_subset fun id hid => ?_).2 ⟨link.id,?_,?_⟩
    · simp only [keyless,Finset.mem_filter] at hid ⊢
      refine ⟨hid.1,?_⟩
      cases hkey : keys.find id with
      | none => rfl
      | some key => simp [find_inheritOnce hkey] at hid
    · simpa [keyless,hnone] using ⟨link,hlink,rfl⟩
    · simp [keyless,hnew]

/-- The bound on the passes is never met. -/
theorem inherit_loop {fuel : Nat} (h : (keyless links keys).card < fuel) : Loop links keys (inherit fuel links keys) := by
  induction fuel generalizing keys with
  | zero => exact absurd h (Nat.not_lt_zero _)
  | succ fuel ih =>
    rw [inherit]
    -- A pass only adds keys, so their number tells whether it changed anything.
    split_ifs with hlength
    · rcases inheritOnce_cases links keys with ⟨hsame,-⟩ | ⟨hlonger,-⟩
      · exact .done hsame
      · exact absurd (eq_of_beq hlength) (Nat.ne_of_gt hlonger)
    · have hne : inheritOnce links keys≠keys := fun hsame => hlength (by rw [hsame]; exact beq_self_eq_true _)
      exact .again hne (ih (Nat.lt_of_lt_of_le (Finset.card_lt_card (keyless_ssubset hne)) (Nat.le_of_lt_succ h)))

namespace Loop

theorem find (h : Loop links keys result) (hkey : keys.find id=some key) : result.find id=some key := by
  induction h with
  | done => exact hkey
  | again _ _ ih => exact ih (find_inheritOnce hkey)

/-- In the end no node without key is fed by one that has a key. -/
theorem closed (h : Loop links keys result) :
    ∀ link∈links, result.find link.id=none→∀ f∈link.feeders, result.find f=none := by
  induction h with
  | done hsame =>
    rcases inheritOnce_cases links _ with ⟨-,hall⟩ | ⟨hlonger,-⟩
    · exact hall
    · rw [hsame] at hlonger
      exact absurd hlonger (Nat.lt_irrefl _)
  | again _ _ ih => exact ih

/-- What holds of the first keys and is handed on to nodes holds of all keys. -/
theorem sound {P : String→String→Prop} (h : Loop links keys result)
    (hstep : ∀ link∈links, ∀ f∈link.feeders, ∀ key, P f key→P link.id key)
    (hkeys : ∀ id key, keys.find id=some key→P id key) : ∀ id key, result.find id=some key→P id key := by
  induction h with
  | done => exact hkeys
  | again _ _ ih => exact ih (inheritOnce_sound hstep hkeys)

end Loop

variable {definitions byId : Table Json} {names : Table String} {nodes wires : List Json} {ids : List String}
  {owners : List (String×Json)} {node : Json} {source : Json} {sources : List Json} {search : KeySearch}

/-- A VARIABLE node of a graph. -/
structure VariableNode (nodes : List Json) (id : String) (node : Json) : Prop where
  mem : node∈nodes
  id : nodeId node=.ok id
  type : isOfType node "variable" = .ok true

/-- A wire from one node to the value of another. -/
def FeedsValue (wires : List Json) (source id : String) : Prop :=
  ∃ w∈wires, entersValue w id=true ∧ (sourceOf w).toFieldName=.ok source

/-- A constant that feeds the value of a node holds the key of a variable. -/
def FedText (definitions : Table Json) (nodes wires : List Json) (id key : String) : Prop :=
  ∃ source up, FeedsValue wires source id ∧ up∈nodes ∧ nodeId up=.ok source ∧ heldText? up=.ok (some key) ∧
    definitions.has key=true

/-- A VARIABLE node has a key by its name or, without one, by a constant. -/
inductive Owns (definitions : Table Json) (names : Table String) (nodes wires : List Json) (id key : String) : Prop
  | named {node : Json} (hnode : VariableNode nodes id node) (hkey : ownKey? names node=.ok (some key))
  | fed {node : Json} (hnode : VariableNode nodes id node) (hname : ownKey? names node=.ok none)
      (hkey : FedText definitions nodes wires id key)

/-- One VARIABLE node feeds the value of another. -/
def HandsOn (nodes wires : List Json) (source id : String) : Prop :=
  (∃ node, VariableNode nodes source node) ∧ (∃ node, VariableNode nodes id node) ∧ FeedsValue wires source id

theorem find_nodesById {table : Table Json} (h : nodesById table nodes=.ok byId) (hids : nodes.mapM nodeId=.ok ids)
    (hnodup : ids.Nodup) (hnew : ∀ id∈ids, table.find id=none) :
    byId.find id=some node ↔ node∈nodes ∧ nodeId node=.ok id ∨ table.find id=some node := by
  induction nodes generalizing table ids with
  | nil =>
    cases h
    simp
  | cons first rest ih =>
    obtain ⟨name,hname,h⟩ := bind_eq_ok.1 h
    rw [mapM_cons] at hids
    obtain ⟨name',others,hname',hothers,hids⟩ := bind_bind_eq_ok.1 hids
    cases hname.symm.trans hname'
    cases hids
    obtain ⟨hfresh,hnodup⟩ := nodup_cons.1 hnodup
    obtain ⟨hnone,hnew⟩ := forall_mem_cons.1 hnew
    have hput : ∀ other∈others, (table.put name first).find other=none := fun other hother => by
      rw [Table.find_put_ne _ _ (ne_of_mem_of_not_mem hother hfresh),hnew other hother]
    rw [ih h hothers hnodup hput,Table.find_put]
    split_ifs with hid
    · subst hid
      simp only [hnone,mem_cons,or_and_right]
      grind
    · have hother : nodeId first≠.ok id := fun h => hid (Except.ok.inj (h.symm.trans hname))
      grind

theorem mem_variableNodes (h : variableNodes nodes=.ok owners) : (id,node)∈owners ↔ VariableNode nodes id node := by
  induction nodes generalizing owners with
  | nil =>
    cases h
    simpa using fun h : VariableNode [] id node => nomatch h.mem
  | cons first rest ih =>
    obtain ⟨typed,htyped,h⟩ := bind_eq_ok.1 h
    cases typed with
    | false =>
      refine (ih h).trans ⟨fun hnode => ⟨mem_cons_of_mem _ hnode.mem,hnode.id,hnode.type⟩,fun hnode => ?_⟩
      rcases mem_cons.1 hnode.mem with rfl | hmem
      · cases htyped.symm.trans hnode.type
      · exact ⟨hmem,hnode.id,hnode.type⟩
    | true =>
      obtain ⟨name,others,hname,hothers,h⟩ := bind_bind_eq_ok.1 h
      cases h
      rw [mem_cons,ih hothers]
      constructor
      · rintro (hfirst | hnode)
        · cases hfirst
          exact ⟨mem_cons_self,hname,htyped⟩
        · exact ⟨mem_cons_of_mem _ hnode.mem,hnode.id,hnode.type⟩
      · rintro ⟨hmem,hid,htype⟩
        rcases mem_cons.1 hmem with rfl | hmem
        · rw [hname] at hid
          cases hid
          exact .inl rfl
        · exact .inr ⟨hmem,hid,htype⟩

theorem giveKeys_eq_ok {find? : String→Json→Except Failure (Option String)}
    (h : giveKeys find? keys owners=.ok keys') :
    (∀ owner∈owners, ∃ found, find? owner.1 owner.2=.ok found ∧ (found.isSome→(keys'.find owner.1).isSome)) ∧
      (∀ id, (keys.find id).isSome→(keys'.find id).isSome) ∧
      ∀ id key, keys'.find id=some key →
        (∃ node, (id,node)∈owners ∧ find? id node=.ok (some key)) ∨ keys.find id=some key := by
  induction owners generalizing keys with
  | nil =>
    cases h
    exact ⟨by simp,fun _ => id,fun _ _ => .inr⟩
  | cons owner rest ih =>
    obtain ⟨id,node⟩ := owner
    obtain ⟨found,hfound,h⟩ := bind_eq_ok.1 h
    cases found with
    | none =>
      obtain ⟨hall,hkept,hkeys⟩ := ih h
      refine ⟨forall_mem_cons.2 ⟨⟨none,hfound,nofun⟩,hall⟩,hkept,fun other key hkey => ?_⟩
      exact (hkeys other key hkey).imp_left fun ⟨n,hn,hn'⟩ => ⟨n,mem_cons_of_mem _ hn,hn'⟩
    | some new =>
      obtain ⟨hall,hkept,hkeys⟩ := ih h
      have hput : ∀ other, other=id ∨ (keys.find other).isSome→(keys'.find other).isSome := fun other hother =>
        hkept other (by rw [Table.find_put]; split_ifs with hid <;> simp_all)
      refine ⟨forall_mem_cons.2 ⟨⟨some new,hfound,fun _ => hput id (.inl rfl)⟩,hall⟩,
        fun other hother => hput other (.inr hother),fun other key hkey => ?_⟩
      rcases hkeys other key hkey with ⟨n,hn,hn'⟩ | hkey
      · exact .inl ⟨n,mem_cons_of_mem _ hn,hn'⟩
      · rw [Table.find_put] at hkey
        split_ifs at hkey with hid
        · cases hkey
          exact .inl ⟨node,hid ▸ mem_cons_self,hid ▸ hfound⟩
        · exact .inr hkey

theorem sourceText?_iff : sourceText? byId source=.ok (some key) ↔
    ∃ name up, source.toFieldName=.ok name ∧ byId.find name=some up ∧ heldText? up=.ok (some key) := by
  unfold sourceText?
  rw [bind_eq_ok]
  refine exists_congr fun name => ?_
  cases byId.find name with
  | none => simp [pure,Except.pure]
  | some up => simp

/-- The first constant that holds the key of a variable counts. -/
theorem constantKey?_eq_ok {found : Option String} (h : constantKey? definitions byId sources=.ok found) :
    (∀ key∈found, ∃ source∈sources, sourceText? byId source=.ok (some key) ∧ definitions.has key=true) ∧
      (found=none→∀ source∈sources, ∀ key, sourceText? byId source=.ok (some key) → definitions.has key=false) := by
  induction sources with
  | nil =>
    cases h
    exact ⟨by simp,by simp⟩
  | cons source rest ih =>
    obtain ⟨text,htext,h⟩ := bind_eq_ok.1 h
    have hrest : (∀ key∈text, definitions.has key=false) → constantKey? definitions byId rest=.ok found →
        (∀ key∈found, ∃ s∈source::rest, sourceText? byId s=.ok (some key) ∧ definitions.has key=true) ∧
          (found=none→∀ s∈source::rest, ∀ key, sourceText? byId s=.ok (some key) →
            definitions.has key=false) := by
      intro hskip hfound
      obtain ⟨hsome,hnone⟩ := ih hfound
      refine ⟨fun key hkey => ?_,fun hempty => forall_mem_cons.2 ⟨fun key hkey => ?_,hnone hempty⟩⟩
      · obtain ⟨s,hs,hheld⟩ := hsome key hkey
        exact ⟨s,mem_cons_of_mem _ hs,hheld⟩
      · exact hskip key (Except.ok.inj (htext.symm.trans hkey))
    cases text with
    | none => exact hrest (by simp) h
    | some text =>
      dsimp only at h
      split_ifs at h with hhas
      · cases h
        exact ⟨fun key hkey => ⟨source,mem_cons_self,by rw [htext,Option.some.inj hkey],Option.some.inj hkey ▸ hhas⟩,
          nofun⟩
      · exact hrest (by simpa using hhas) h

theorem mem_variableFeeders {ups : List String} (h : variableFeeders byId sources=.ok ups) :
    id∈ups ↔ (∃ source∈sources, source.toFieldName=.ok id) ∧
      ∃ up, byId.find id=some up ∧ isOfType up "variable" = .ok true := by
  induction sources generalizing ups with
  | nil =>
    cases h
    simp
  | cons source rest ih =>
    obtain ⟨name,others,hname,hothers,h⟩ := bind_bind_eq_ok.1 h
    have hsplit : (∃ s∈source::rest, s.toFieldName=.ok id) ↔ name=id ∨ ∃ s∈rest, s.toFieldName=.ok id := by
      simp [hname]
    rw [hsplit,or_and_right,← ih hothers]
    cases hup : byId.find name with
    | none =>
      rw [hup] at h
      cases h
      refine (or_iff_right ?_).symm
      rintro ⟨rfl,up,hfound,-⟩
      cases hup.symm.trans hfound
    | some up =>
      rw [hup] at h
      obtain ⟨typed,htyped,h⟩ := bind_eq_ok.1 h
      cases h
      cases typed with
      | true =>
        rw [if_pos rfl,mem_cons]
        refine or_congr_left ⟨?_,fun hid => hid.1.symm⟩
        rintro rfl
        exact ⟨rfl,up,hup,htyped⟩
      | false =>
        refine (or_iff_right ?_).symm
        rintro ⟨rfl,up',hfound,hvariable⟩
        cases hup.symm.trans hfound
        cases htyped.symm.trans hvariable

theorem mem_valueSources : source∈valueSources wires id ↔ ∃ w∈wires, entersValue w id=true ∧ sourceOf w=source := by
  simp [valueSources,and_assoc]

section
variable (hfind : ∀ id node, byId.find id=some node ↔ node∈nodes ∧ nodeId node=.ok id)
include hfind

theorem fedText_iff : FedText definitions nodes wires id key ↔
    ∃ source∈valueSources wires id, sourceText? byId source=.ok (some key) ∧ definitions.has key=true := by
  simp only [FedText,FeedsValue,mem_valueSources,sourceText?_iff,hfind]
  constructor
  · rintro ⟨name,up,⟨w,hw,henters,hname⟩,hmem,hid,hheld,hhas⟩
    exact ⟨_,⟨w,hw,henters,rfl⟩,⟨name,up,hname,⟨hmem,hid⟩,hheld⟩,hhas⟩
  · rintro ⟨_,⟨w,hw,henters,rfl⟩,⟨name,up,hname,⟨hmem,hid⟩,hheld⟩,hhas⟩
    exact ⟨name,up,⟨w,hw,henters,hname⟩,hmem,hid,hheld,hhas⟩

theorem mem_feeders_iff {source : String} {ups : List String} (h : variableFeeders byId (valueSources wires id)=.ok ups) :
    source∈ups ↔ (∃ node, VariableNode nodes source node) ∧ FeedsValue wires source id := by
  simp only [mem_variableFeeders h,mem_valueSources,hfind]
  constructor
  · rintro ⟨⟨_,⟨w,hw,henters,rfl⟩,hname⟩,up,⟨hmem,hid⟩,htype⟩
    exact ⟨⟨up,hmem,hid,htype⟩,w,hw,henters,hname⟩
  · rintro ⟨⟨up,hmem,hid,htype⟩,w,hw,henters,hname⟩
    exact ⟨⟨_,⟨w,hw,henters,rfl⟩,hname⟩,up,⟨hmem,hid⟩,htype⟩

end

/-- Keys of their own and who may inherit from whom. -/
structure KeySearch.Finds (search : KeySearch) (definitions : Table Json) (names : Table String) (nodes wires : List Json) :
    Prop where
  owns : ∀ id key, search.keys.find id=some key→Owns definitions names nodes wires id key
  found : ∀ id key, Owns definitions names nodes wires id key → search.keys.find id≠none
  handsOn : ∀ link∈search.links, ∀ source∈link.feeders, HandsOn nodes wires source link.id
  linked : ∀ source id, HandsOn nodes wires source id → search.keys.find id=none →
    ∃ link∈search.links, link.id=id ∧ source∈link.feeders

theorem mem_withoutKey {owner : String×Json} :
    owner∈withoutKey keys owners ↔ owner∈owners ∧ keys.find owner.1=none := by
  simp [withoutKey,Table.has_eq_isSome]

theorem keySearch_finds (h : keySearch definitions names nodes wires=.ok search) (hids : nodes.mapM nodeId=.ok ids)
    (hnodup : ids.Nodup) : search.Finds definitions names nodes wires := by
  obtain ⟨byId,_,hbyId,-,h⟩ := bind_bind_eq_ok.1 h
  obtain ⟨owners,named,howners,hnamed,h⟩ := bind_bind_eq_ok.1 h
  obtain ⟨keys,links,hkeys,hlinks,h⟩ := bind_bind_eq_ok.1 h
  cases h
  obtain ⟨hname,-,hnameOf⟩ := giveKeys_eq_ok hnamed
  obtain ⟨htext,hkept,htextOf⟩ := giveKeys_eq_ok hkeys
  have hfind : ∀ id node, byId.find id=some node ↔ node∈nodes ∧ nodeId node=.ok id := fun id node => by
    simpa using find_nodesById hbyId hids hnodup (by simp)
  have hunnamed : ∀ owner∈owners, named.find owner.1=none → ownKey? names owner.2=.ok none := by
    intro owner howner hnone
    obtain ⟨found,hfound,hsome⟩ := hname owner howner
    cases found with
    | none => exact hfound
    | some key => simp [hnone] at hsome
  refine ⟨fun id key hkey => ?_,fun id key howns hnone => ?_,fun link hlink source hsource => ?_,
    fun source id ⟨hsource,⟨node,hnode⟩,hfeeds⟩ hnone => ?_⟩
  · rcases htextOf id key hkey with ⟨node,hnode,hfound⟩ | hkey
    · obtain ⟨howner,hnone⟩ := mem_withoutKey.1 hnode
      exact .fed ((mem_variableNodes howners).1 howner) (hunnamed _ howner hnone)
        ((fedText_iff hfind).2 ((constantKey?_eq_ok hfound).1 key rfl))
    · obtain ⟨node,hnode,hfound⟩ := (hnameOf id key hkey).resolve_right (by simp)
      exact .named ((mem_variableNodes howners).1 hnode) hfound
  · have hunkept : named.find id=none := by
      cases hfind : named.find id with
      | none => rfl
      | some other => simpa [hnone] using hkept id (by simp [hfind])
    cases howns with
    | named hnode hown =>
      have hnone := hunnamed _ ((mem_variableNodes howners).2 hnode) hunkept
      cases hown.symm.trans hnone
    | fed hnode _ hheld =>
      obtain ⟨found,hfound,hsome⟩ := htext _ (mem_withoutKey.2 ⟨(mem_variableNodes howners).2 hnode,hunkept⟩)
      cases found with
      | none =>
        obtain ⟨source,hsource,htext,hhas⟩ := (fedText_iff hfind).1 hheld
        cases hhas.symm.trans ((constantKey?_eq_ok hfound).2 rfl source hsource key htext)
      | some other => simp [hnone] at hsome
  · obtain ⟨i,hi⟩ := mem_iff_getElem?.1 hlink
    obtain ⟨owner,howner,hlinkOf⟩ := forall₂_getElem? (forall₂_of_mapM hlinks).flip hi
    obtain ⟨ups,hups,hlinkOf⟩ := bind_eq_ok.1 hlinkOf
    cases hlinkOf
    obtain ⟨hvariable,hfeeds⟩ := (mem_feeders_iff hfind hups).1 hsource
    exact ⟨hvariable,⟨owner.2,(mem_variableNodes howners).1 (mem_withoutKey.1 (mem_of_getElem? howner)).1⟩,hfeeds⟩
  · have howner := mem_withoutKey.2 ⟨(mem_variableNodes howners).2 hnode,hnone⟩
    obtain ⟨i,hi⟩ := mem_iff_getElem?.1 howner
    obtain ⟨link,hlink,hlinkOf⟩ := forall₂_getElem? (forall₂_of_mapM hlinks) hi
    obtain ⟨ups,hups,hlinkOf⟩ := bind_eq_ok.1 hlinkOf
    cases hlinkOf
    exact ⟨_,mem_of_getElem? hlink,rfl,(mem_feeders_iff hfind hups).2 ⟨hsource,hfeeds⟩⟩

/-- Every node with a key is fed, step by step, from one that has the key of itself. -/
theorem KeySearch.Finds.find_iff (h : search.Finds definitions names nodes wires)
    (hloop : Loop search.links search.keys keys) :
    (∀ id key, keys.find id=some key→∃ source, Relation.ReflTransGen (HandsOn nodes wires) source id ∧
      Owns definitions names nodes wires source key ∧ keys.find source=some key) ∧
    ∀ source id key, Relation.ReflTransGen (HandsOn nodes wires) source id→Owns definitions names nodes wires source key →
      (keys.find id).isSome := by
  constructor
  · refine hloop.sound (fun link hlink source hsource key => ?_) fun id key hkey => ?_
    · rintro ⟨first,hreach,howns⟩
      exact ⟨first,hreach.tail (h.handsOn link hlink source hsource),howns⟩
    · exact ⟨id,.refl,h.owns id key hkey,hloop.find hkey⟩
  · intro source id key hreach howns
    -- A node on the way has a key of its own, or it stands in a link, and links are closed in the end.
    induction hreach with
    | refl =>
      obtain ⟨own,hown⟩ := Option.ne_none_iff_exists'.1 (h.found source key howns)
      simp [hloop.find hown]
    | @tail before id _ hhands ih =>
      cases hown : search.keys.find id with
      | some own => simp [hloop.find hown]
      | none =>
        obtain ⟨link,hlink,rfl,hmem⟩ := h.linked before id hhands hown
        cases hkey : keys.find link.id with
        | some key => rfl
        | none => simp [hloop.closed link hlink hkey before hmem] at ih

/-- Once nodes have the keys of their own, handing them on comes to an end. A VARIABLE node then has a key exactly if it can be
followed back through VARIABLE nodes to one with a key of its own, and it has the key of such a node. -/
theorem variableKeys_inherited {search : KeySearch} (hids : nodes.mapM nodeId = .ok ids) (hnodup : ids.Nodup)
    (h : keySearch definitions names nodes wires = .ok search) :
    ∃ keys, variableKeys definitions names nodes wires = .ok keys ∧ Loop search.links search.keys keys ∧
      ∀ id node, VariableNode nodes id node →
        ((keys.find id).isSome ↔ ∃ source key, Relation.ReflTransGen (HandsOn nodes wires) source id ∧
          Owns definitions names nodes wires source key) ∧
        ∀ key, keys.find id = some key → ∃ source, Relation.ReflTransGen (HandsOn nodes wires) source id ∧
          Owns definitions names nodes wires source key ∧ keys.find source = some key := by
  have hbound : (keyless search.links search.keys).card ≤ search.links.length := by
    refine (Finset.card_filter_le _ _).trans ((toFinset_card_le _).trans ?_)
    rw [length_map]
  have hloop := inherit_loop (Nat.lt_succ_of_le hbound)
  obtain ⟨hfrom,hsome⟩ := (keySearch_finds h hids hnodup).find_iff hloop
  refine ⟨_,bind_eq_ok.2 ⟨search,h,rfl⟩,hloop,fun id node _ => ⟨⟨fun hkey => ?_,?_⟩,hfrom id⟩⟩
  · obtain ⟨key,hkey⟩ := Option.isSome_iff_exists.1 hkey
    obtain ⟨source,hreach,howns,-⟩ := hfrom id key hkey
    exact ⟨source,key,hreach,howns⟩
  · rintro ⟨source,key,hreach,howns⟩
    exact hsome source id key hreach howns

/-- Two VARIABLE nodes that feed each other, and a third one with a name that feeds one of them. -/
def fedCircle : List Json×List Json :=
  ([("a",""),("b",""),("c","n")].map fun (id,name) =>
    .obj [("id",.str id),("type",.str "VARIABLE"),("attrs",.obj [("dsl_name",.str name)])],
  [("a","b"),("b","a"),("c","b")].map fun (source,id) =>
    .obj [("from_node",.str source),("to_node",.str id),("to_port",.str "Value")])

theorem variableKeys_inherited_fedCircle : ∃ keys,
    variableKeys Table.empty [("n", "k")] fedCircle.1 fedCircle.2 = .ok keys ∧ keys.find "a" = some "k" ∧
    ∃ source, Relation.ReflTransGen (HandsOn fedCircle.1 fedCircle.2) source "a" ∧
      Owns Table.empty [("n", "k")] fedCircle.1 fedCircle.2 source "k" := by
  have hsearch : keySearch Table.empty [("n","k")] fedCircle.1 fedCircle.2 =
      .ok ⟨[("c","k")],[⟨"a",["b"]⟩,⟨"b",["a","c"]⟩]⟩ := rfl
  have hkeys : variableKeys Table.empty [("n","k")] fedCircle.1 fedCircle.2 =
      .ok [("c","k"),("b","k"),("a","k")] := rfl
  have hids : fedCircle.1.mapM nodeId = .ok ["a","b","c"] := rfl
  obtain ⟨keys,hkeys',-,hall⟩ := variableKeys_inherited hids (by decide) hsearch
  cases hkeys.symm.trans hkeys'
  obtain ⟨source,hreach,howns,-⟩ := (hall "a" _ ⟨mem_cons_self,rfl,rfl⟩).2 "k" rfl
  exact ⟨_,hkeys,rfl,source,hreach,howns⟩

end ChipForge.Assembly
