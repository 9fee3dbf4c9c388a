import ChipForge.Assembly.Request
import ChipForge.Proofs.AgreedTypes
import ChipForge.Proofs.Fields

/-! A wire changes what is known of a node only if one of its ports follows the node. The ports of constants follow
none, so a constant has the type it starts from. -/
namespace ChipForge.Inference
open Wiring UnionFind List

variable {nodes : List Json} {named : List (String×Json)}

/-- The node is in a class of its own, of which nothing is known but what the node asserts. -/
structure StandsAside (x : String) (own : Option Fixed) (p : Progress) : Prop where
  alone : ∀ y, p.classes.rootOf y=p.classes.rootOf x → y=x
  known : p.classes.known x=own
  hints : p.hints.find x=none

section
variable {s : Setting} {p p' : Progress} {c : Clue} {x id a b : String} {own : Option Fixed} {t : GateType} {priority : Int}

theorem StandsAside.alike (h : StandsAside x own p) (hp : Ranked p.classes) (hsame : Alike p.classes p'.classes)
    (hhints : p'.hints.find x=p.hints.find x) : StandsAside x own p' where
  alone y hy := h.alone y (by rwa [hsame.roots,hsame.roots] at hy)
  known := (hsame.known hp x).trans h.known
  hints := hhints.trans h.hints

theorem StandsAside.told (h : StandsAside x own p) (htold : Told p.classes id t priority p'.classes) (hid : id≠x)
    (hhints : p'.hints.find x=p.hints.find x) : StandsAside x own p' where
  alone y hy := h.alone y (by rwa [htold.roots,htold.roots] at hy)
  known := by
    rw [htold.known,if_neg fun hroot => hid (h.alone id hroot.symm)]
    exact h.known
  hints := hhints.trans h.hints

theorem StandsAside.joined (h : StandsAside x own p) (hjoins : Joins p.classes a b p'.classes) (ha : a≠x) (hb : b≠x)
    (hhints : p'.hints.find x=p.hints.find x) : StandsAside x own p' where
  alone y hy := by
    rcases (hjoins.same y x).1 hy with hsame | ⟨-,hroot⟩ | ⟨-,hroot⟩
    · exact h.alone y hsame
    · exact absurd (h.alone b hroot.symm) hb
    · exact absurd (h.alone a hroot.symm) ha
  known := by
    rw [hjoins.others x (not_or.2 ⟨fun hroot => ha (h.alone a hroot.symm),fun hroot => hb (h.alone b hroot.symm)⟩)]
    exact h.known
  hints := hhints.trans h.hints

/-- A wire does nothing to a node that its ports do not follow. -/
theorem StandsAside.effect (h : StandsAside x own p) (hp : Ranked p.classes) (heffect : Effect c p p')
    (htouches : ¬c.Touches x) (hhints : p'.hints.find x=p.hints.find x) : StandsAside x own p' := by
  have hne : ∀ {y}, c.Touches y → y≠x := fun hy heq => htouches (heq ▸ hy)
  cases heffect with
  | silent _ _ hsame => exact hsame ▸ h
  | hinted _ hsame => exact h.alike hp (hsame.symm ▸ Alike.refl hp) hhints
  | bound htells htold => exact h.told htold (hne htells.touches) hhints
  | told htells _ htold => exact h.told htold (hne htells.touches) hhints
  | kept _ _ _ _ hsame => exact h.alike hp hsame hhints
  | passed hmeets _ _ _ htold => exact h.told htold (hne hmeets.touches.2) hhints
  | joined hmeets _ hjoins => exact h.joined hjoins (hne hmeets.touches.1) (hne hmeets.touches.2) hhints

theorem followAll_standsAside {clues : List Clue} (htouches : ∀ c∈clues, ¬c.Touches x) (hp : Ranked p.classes)
    (h : StandsAside x own p) (hrun : followAll s p clues=.ok p') : StandsAside x own p' := by
  induction clues generalizing p with
  | nil =>
    cases hrun
    exact h
  | cons c rest ih =>
    obtain ⟨q,hq,hrun⟩ := bind_eq_ok.1 hrun
    have hfirst := htouches c (by simp)
    obtain ⟨heffect,hleaves⟩ := follow_effect hp hq
    exact ih (fun c' hc' => htouches c' (mem_cons_of_mem _ hc')) (heffect.ranked hp)
      (h.effect hp heffect hfirst (hleaves.hints hfirst)) hrun

end

theorem start?_of_asserted? {o : Own} {f : Fixed} (h : o.asserted?=some f) : o.start?=some f.type := by
  unfold Own.asserted? at h
  split at h
  · rename_i t priority ht _
    cases h
    exact ht
  · cases h

theorem winner?_votesOf_singleton {p : Progress} {x : String} {t : Option GateType} (hstart : p.defaults.find x=some t)
    (hhints : p.hints.find x=none) : winner? (votesOf p [x])=t := by
  simp only [votesOf,filterMap_cons,filterMap_nil,foldl_cons,foldl_nil,hstart,hhints,
    Option.join_some,Option.getD_none]
  cases t with
  | none => rfl
  | some t => cases t <;> rfl

namespace Evidence
variable {e : Evidence} {x : String} {o : Own}

/-- A node that no port follows has the type it starts from. -/
theorem find_of_standsAside {types : Table GateType} (hids : e.ids.Nodup)
    (hread : ∀ c∈e.clues, c.Read e.setting (startsOf e.own)) (hx : (x,o)∈e.own)
    (htouches : ∀ c∈e.clues, ¬c.Touches x) (h : e.conclusion=.ok types) : types.find x=o.start? := by
  have hbegun := begun_spec hids
  have haside : StandsAside x o.asserted? e.begun :=
    ⟨fun y hy => by rwa [hbegun.roots,hbegun.roots] at hy,hbegun.own _ hx,by rw [hbegun.hints]; rfl⟩
  obtain ⟨p,hp,h⟩ := bind_eq_ok.1 h
  obtain ⟨hranked,hdefaults⟩ := followAll_invariant (fun _ q => q.defaults=startsOf e.own) []
    (fun _ _ _ _ _ _ hholds _ hkept => hkept.trans hholds) hbegun.ranked hbegun.defaults hp
  obtain ⟨p',hp',hranked',hdefaults',haside'⟩ := followItems_invariant
    (fun q => q.defaults=startsOf e.own ∧ StandsAside x o.asserted? q) e.clues (by rwa [hdefaults])
    (fun c q q' hc hq hholds hkept hhints hclasses => by
      refine ⟨hkept.trans hholds.1,?_⟩
      rcases hclasses with hsame | ⟨id,t,htarget,htold⟩
      · exact hholds.2.alike hq hsame (by rw [hhints])
      · exact hholds.2.told htold (fun heq => htouches c hc (.inr (heq ▸ htarget))) (by rw [hhints]))
    hranked ⟨hdefaults,followAll_standsAside htouches hbegun.ranked haside hp⟩
  obtain ⟨q,hq,h⟩ := bind_eq_ok.1 h
  cases hp'.symm.trans hq
  cases h
  have hmem : x∈e.ids := mem_map.2 ⟨_,hx,rfl⟩
  rw [conclude_find hranked' hmem,chosen?,haside'.known]
  cases hasserted : o.asserted? with
  | some f => exact (start?_of_asserted? hasserted).symm
  | none =>
    have hclass : e.ids.filter (fun y => p'.classes.rootOf y == p'.classes.rootOf x)=[x] := by
      have hcongr : ∀ y∈e.ids, (p'.classes.rootOf y == p'.classes.rootOf x)=(y == x) := fun y _ =>
        Bool.eq_iff_iff.2 (by simpa using ⟨haside'.alone y,fun heq => by rw [heq]⟩)
      rw [filter_congr hcongr,filter_beq,count_eq_one_of_mem hids hmem]
      rfl
    simp only [hclass]
    exact winner?_votesOf_singleton (by rw [hdefaults']; exact startsOf_find hids hx) haside'.hints

end Evidence

section
variable {s : Setting} {id : String} {role : Role}

/-- A wire touches no node whose ports cannot follow it. -/
theorem Clue.Read.not_touches {defaults : Table (Option GateType)} {c : Clue} (h : c.Read s defaults)
    (hrole : s.role id=.ok role) (hfollows : ∀ side, ¬s.Follows role side) : ¬c.Touches id := by
  have hport : ∀ {side port}, s.portType? defaults id side port≠.ok (some (.ofNode id)) := by
    intro side port hport
    rcases portType?_spec hport with ⟨-,-,role',hrole',hfollows'⟩ | ⟨u,priority,hu,-⟩
    · cases hrole.symm.trans hrole'
      exact hfollows side hfollows'
    · cases hu
  rintro (hsource | htarget)
  · obtain ⟨rfl,-⟩ := h.source_node hsource
    exact hport (h.source.trans (congrArg _ hsource))
  · obtain ⟨rfl,-⟩ := h.target_node htarget
    exact hport (h.target.trans (congrArg _ htarget))

/-- A constant starts from the type its settings ask for, or else from that of its value. -/
theorem ownOf_constant {node : Json} {attrs : List (String×Json)} {o : Own} (hattrs : node.get? "attrs" = some (.obj attrs))
    (hne : attrs≠[]) (hrole : s.role id=.ok role) (hword : role.word = "constant") (h : ownOf s id node=.ok o) :
    ∃ explicit, explicitType? (.obj attrs)=.ok explicit ∧ o.start?=explicit.or (constantType? (.obj attrs)) := by
  obtain ⟨v,hv,h⟩ := bind_eq_ok.1 h
  have hv : v=.obj attrs := by rw [Json.field_eq_ok hv,hattrs,Option.getD_some]
  have htruthy : (Json.obj attrs).truthy=true := by
    cases attrs with
    | nil => exact absurd rfl hne
    | cons => rfl
  have hsettings : (Json.obj attrs).orElse (.obj [])=.obj attrs := if_pos htruthy
  have hobj : (Json.obj attrs).isObj=true := rfl
  simp only [hv,hsettings,hobj,if_true] at h
  obtain ⟨explicit,hexplicit,h⟩ := bind_eq_ok.1 h
  refine ⟨explicit,hexplicit,?_⟩
  cases explicit with
  | some t =>
    cases h
    rfl
  | none =>
    obtain ⟨role',hrole',h⟩ := bind_eq_ok.1 h
    cases hrole.symm.trans hrole'
    simp only [hword] at h
    cases h
    rfl

end

theorem mem_namedNodes (h : namedNodes nodes=.ok named) {node : Json} {id : String} (hnode : node∈nodes)
    (hid : node.get? "id" = some (.str id)) : (id,node)∈named := by
  induction nodes generalizing named with
  | nil => cases hnode
  | cons first rest ih =>
    obtain ⟨v,hv,h⟩ := bind_eq_ok.1 h
    rcases mem_cons.1 hnode with rfl | hnode
    · have hv : v=.str id := by rw [Json.field_eq_ok hv,hid,Option.getD_some]
      subst hv
      obtain ⟨others,-,h⟩ := bind_eq_ok.1 h
      cases h
      exact mem_cons_self ..
    · cases v with
      | str other =>
        obtain ⟨others,hothers,h⟩ := bind_eq_ok.1 h
        cases h
        exact mem_cons_of_mem _ (ih hothers hnode)
      | _ => exact ih h hnode

theorem namedNodes_ids_sublist {ids : List String} (h : namedNodes nodes=.ok named)
    (hids : nodes.mapM Assembly.nodeId=.ok ids) : (named.map (·.1)).Sublist ids := by
  induction nodes generalizing named ids with
  | nil =>
    cases h
    exact nil_sublist _
  | cons first rest ih =>
    rw [mapM_cons] at hids
    obtain ⟨id,more,hid,hmore,hids⟩ := bind_bind_eq_ok.1 hids
    cases hids
    obtain ⟨v,hv,h⟩ := bind_eq_ok.1 h
    obtain ⟨v',hv',hid⟩ := bind_eq_ok.1 hid
    have hsame : v=v' := by rw [Json.field_eq_ok hv,Json.item_eq_ok hv',Option.getD_some]
    subst hsame
    cases v with
    | str other =>
      obtain ⟨others,hothers,h⟩ := bind_eq_ok.1 h
      cases h
      cases hid
      exact (ih hothers hmore).cons_cons _
    | _ => exact (ih h hmore).cons _

section
variable {graph placements index rules modules : Json} {nodes : List Json}

/-- What the nodes of a graph say of their own types is read from all nodes that have texts for ids. -/
theorem evidence_own {e : Evidence} (h : evidence graph placements index rules modules=.ok e)
    (hnodes : (((graph.get? "nodes").getD .null).orElse (.arr [])).each=.ok nodes) :
    ∃ named, namedNodes nodes=.ok named ∧ e.ids=named.map (·.1) ∧
      e.setting.placements=placements ∧ e.setting.rules=rules ∧ e.setting.modules=modules ∧
      ∀ pair∈named, ∃ o, (pair.1,o)∈e.own ∧ ownOf e.setting pair.1 pair.2=.ok o := by
  obtain ⟨v,items,hv,hitems,h⟩ := bind_bind_eq_ok.1 h
  rw [Json.field_eq_ok hv,hnodes] at hitems
  cases hitems
  obtain ⟨named,own,hnamed,hown,h⟩ := bind_bind_eq_ok.1 h
  obtain ⟨edges,records,-,-,h⟩ := bind_bind_eq_ok.1 h
  obtain ⟨clues,-,h⟩ := bind_eq_ok.1 h
  cases h
  refine ⟨named,hnamed,ids_of_mapM hown,rfl,rfl,rfl,fun pair hpair => ?_⟩
  obtain ⟨i,hi⟩ := mem_iff_getElem?.1 hpair
  obtain ⟨said,hsaid,hread⟩ := forall₂_getElem? (forall₂_of_mapM hown) hi
  obtain ⟨o,ho,hpairs⟩ := bind_eq_ok.1 hread
  cases hpairs
  exact ⟨o,mem_of_getElem? hsaid,ho⟩

/-- Inference gives a constant the type its settings ask for, and else that of its value. -/
theorem infer_constant {types : Table GateType} {ids : List String} {node : Json} {id : String}
    {attrs : List (String×Json)} (h : infer graph placements index rules modules=.ok types)
    (hnodes : (((graph.get? "nodes").getD .null).orElse (.arr [])).each=.ok nodes)
    (hids : nodes.mapM Assembly.nodeId=.ok ids) (hnodup : ids.Nodup) (hnode : node∈nodes)
    (hid : node.get? "id" = some (.str id)) (hattrs : node.get? "attrs" = some (.obj attrs)) (hne : attrs≠[])
    (hrole : ∀ s : Setting, s.placements=placements→∃ role, s.role id=.ok role ∧ role.word = "constant") :
    ∃ explicit, explicitType? (.obj attrs)=.ok explicit ∧ types.find id=explicit.or (constantType? (.obj attrs)) := by
  obtain ⟨e,he⟩ := evidence_of_infer h
  obtain ⟨named,hnamed,hnames,hplacements,-,-,hown⟩ := evidence_own he hnodes
  have hnodup : e.ids.Nodup := hnames ▸ hnodup.sublist (namedNodes_ids_sublist hnamed hids)
  obtain ⟨role,hrole,hword⟩ := hrole e.setting hplacements
  obtain ⟨o,ho,hread⟩ := hown _ (mem_namedNodes hnamed hnode hid)
  obtain ⟨explicit,hexplicit,hstart⟩ := ownOf_constant hattrs hne hrole hword hread
  refine ⟨explicit,hexplicit,?_⟩
  rw [← hstart]
  exact Evidence.find_of_standsAside hnodup (evidence_read he) ho
    (fun c hc => (evidence_read he c hc).not_touches hrole fun side => by simp [Setting.Follows,hword])
    (infer_eq he hnodup ▸ h)

end

end ChipForge.Inference
