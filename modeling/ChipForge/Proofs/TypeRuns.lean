import ChipForge.Proofs.TypeEvidence

/-! Inference is a run over the wires of a graph: classes only grow, what every wire keeps the whole run keeps, and each
node gets the type known of its class, or the one most of its class starts from. -/
namespace ChipForge.Inference
open Wiring UnionFind List Table

section
variable {p : Progress} {own : List (String×Own)} {x : String}

theorem start_defaults (p : Progress) (id : String) (t : Option GateType) (priority : Option Int) :
    (p.start id t priority).defaults=p.defaults.put id t := by
  unfold Progress.start
  split <;> rfl

theorem start_hints (p : Progress) (id : String) (t : Option GateType) (priority : Option Int) :
    (p.start id t priority).hints=p.hints := by
  unfold Progress.start
  split <;> rfl

theorem begin_defaults (own : List (String×Own)) (p : Progress) :
    (begin own p).defaults=own.foldl (fun t o => t.put o.1 o.2.start?) p.defaults := by
  induction own generalizing p with
  | nil => rfl
  | cons o rest ih =>
    rw [foldl_cons,← start_defaults p o.1 o.2.start? o.2.priority?]
    exact ih _

theorem begin_hints (own : List (String×Own)) (p : Progress) : (begin own p).hints=p.hints := by
  induction own generalizing p with
  | nil => rfl
  | cons o rest ih => exact (ih _).trans (start_hints p _ _ _)

theorem start_classes (hp : Ranked p.classes) (id : String) (o : Own) :
    (∃ f, o.asserted?=some f ∧ Told p.classes id f.type f.priority (p.start id o.start? o.priority?).classes) ∨
      (o.asserted?=none ∧ (p.start id o.start? o.priority?).classes=p.classes) := by
  cases ht : o.start? with
  | none => exact .inr ⟨by simp only [Own.asserted?,ht],rfl⟩
  | some t =>
    cases hpriority : o.priority? with
    | none => exact .inr ⟨by simp only [Own.asserted?,ht,hpriority],rfl⟩
    | some priority =>
      exact .inl ⟨⟨priority,t⟩,by simp only [Own.asserted?,ht,hpriority],hp.assert_told id t priority⟩

/-- Each node asserts its own type, in a class of its own. -/
theorem begin_classes (hp : Ranked p.classes) (hroots : ∀ y, p.classes.rootOf y=y) (hown : (own.map (·.1)).Nodup)
    (hknown : ∀ o∈own, p.classes.known o.1=none) :
    Ranked (begin own p).classes ∧ (∀ y, (begin own p).classes.rootOf y=y) ∧
      (begin own p).classes.rank=p.classes.rank ∧
      (∀ o∈own, (begin own p).classes.known o.1=o.2.asserted?) ∧
      ∀ y, y∉own.map (·.1)→(begin own p).classes.known y=p.classes.known y := by
  induction own generalizing p with
  | nil => exact ⟨hp,hroots,rfl,by simp,fun _ _ => rfl⟩
  | cons o rest ih =>
    obtain ⟨hfresh,hrest⟩ := nodup_cons.1 hown
    have hne : ∀ o'∈rest, o'.1≠o.1 := fun o' ho' heq => hfresh (mem_map.2 ⟨o',ho',heq⟩)
    -- what the first node does to the classes: only its own changes
    have hfirst : Ranked (p.start o.1 o.2.start? o.2.priority?).classes ∧
        (∀ y, (p.start o.1 o.2.start? o.2.priority?).classes.rootOf y=y) ∧
        (p.start o.1 o.2.start? o.2.priority?).classes.rank=p.classes.rank ∧
        (p.start o.1 o.2.start? o.2.priority?).classes.known o.1=o.2.asserted? ∧
        ∀ y, y≠o.1→(p.start o.1 o.2.start? o.2.priority?).classes.known y=p.classes.known y := by
      rcases start_classes hp o.1 o.2 with ⟨f,hf,htold⟩ | ⟨hnone,hsame⟩
      · refine ⟨htold.ranked,fun y => (htold.roots y).trans (hroots y),htold.rank,?_,fun y hy => ?_⟩
        · rw [htold.known,if_pos rfl,hknown o (by simp),hf]
          rfl
        · rw [htold.known,hroots,hroots,if_neg hy]
      · rw [hsame,hnone]
        exact ⟨hp,hroots,rfl,hknown o (by simp),fun _ _ => rfl⟩
    obtain ⟨hranked,hroots',hrank,hown',hothers⟩ := hfirst
    obtain ⟨ihranked,ihroots,ihrank,ihown,ihothers⟩ := ih hranked hroots' hrest fun o' ho' => by
      rw [hothers _ (hne o' ho')]
      exact hknown o' (mem_cons_of_mem _ ho')
    refine ⟨ihranked,ihroots,ihrank.trans hrank,fun o' ho' => ?_,fun y hy => ?_⟩
    · rcases mem_cons.1 ho' with rfl | ho'
      · exact (ihothers _ hfresh).trans hown'
      · exact ihown o' ho'
    · rw [map_cons,mem_cons,not_or] at hy
      exact (ihothers y hy.2).trans (hothers y hy.1)

end

def Evidence.begun (e : Evidence) : Progress := begin e.own ⟨ofItems e.ids,empty,empty⟩

/-- Before wires are followed, every node is in a class of its own of which it asserts the type. -/
structure Evidence.Begun (e : Evidence) (p : Progress) : Prop where
  ranked : Ranked p.classes
  roots : ∀ x, p.classes.rootOf x=x
  own : ∀ o∈e.own, p.classes.known o.1=o.2.asserted?
  others : ∀ x, x∉e.ids → p.classes.known x=none
  items : ∀ x, (p.classes.rank.find x).isSome ↔ x∈e.ids
  defaults : p.defaults=startsOf e.own
  hints : p.hints=empty

theorem Evidence.begun_spec {e : Evidence} (h : e.ids.Nodup) : e.Begun e.begun := by
  obtain ⟨hranked,hroots,hknown,hitems⟩ := ranked_ofItems e.ids
  obtain ⟨hranked',hroots',hrank,hown,hothers⟩ :=
    begin_classes (p := ⟨ofItems e.ids,empty,empty⟩) hranked hroots h fun o _ => hknown o.1
  exact {
    ranked := hranked'
    roots := hroots'
    own := hown
    others := fun x hx => (hothers x hx).trans (hknown x)
    items := fun x => by rw [Evidence.begun,hrank,hitems]
    defaults := begin_defaults e.own _
    hints := begin_hints e.own _ }

section
variable {s : Setting} {defaults : Table (Option GateType)} {p p' : Progress} {c : Clue} {clues : List Clue}

theorem Effect.items (h : Effect c p p') (x : String) :
    (p'.classes.rank.find x).isSome=(p.classes.rank.find x).isSome := by
  cases h with
  | silent _ _ hsame => rw [hsame]
  | hinted _ hsame => rw [hsame]
  | bound _ htold => rw [htold.rank]
  | told _ _ htold _ => rw [htold.rank]
  | kept _ _ _ _ hsame => rw [hsame.rank]
  | passed _ _ _ _ htold _ => rw [htold.rank]
  | joined _ _ hjoins _ => exact hjoins.items x

theorem Effect.roots (h : Effect c p p') {x y : String} (hxy : p.classes.rootOf x=p.classes.rootOf y) :
    p'.classes.rootOf x=p'.classes.rootOf y := by
  cases h with
  | silent _ _ hsame => rw [hsame,hxy]
  | hinted _ hsame => rw [hsame,hxy]
  | bound _ htold => rw [htold.roots,htold.roots,hxy]
  | told _ _ htold _ => rw [htold.roots,htold.roots,hxy]
  | kept _ _ _ _ hsame => rw [hsame.roots,hsame.roots,hxy]
  | passed _ _ _ _ htold _ => rw [htold.roots,htold.roots,hxy]
  | joined _ _ hjoins _ => exact (hjoins.same x y).2 (.inl hxy)

/-- What holds of the wires followed so far and is kept by each wire, holds after all wires. -/
theorem followAll_invariant (Holds : List Clue→Progress→Prop) (done : List Clue)
    (hstep : ∀ (done : List Clue) (c : Clue) (p p' : Progress), c∈clues→Ranked p.classes→Holds done p→Effect c p p' → p'.defaults=p.defaults→Holds (done++[c]) p')
    (hp : Ranked p.classes) (hstart : Holds done p) (h : followAll s p clues=.ok p') :
    Ranked p'.classes ∧ Holds (done++clues) p' := by
  induction clues generalizing done p with
  | nil =>
    cases h
    exact ⟨hp,by rwa [append_nil]⟩
  | cons c rest ih =>
    obtain ⟨q,hq,h⟩ := bind_eq_ok.1 h
    obtain ⟨heffect,hleaves⟩ := follow_effect hp hq
    have hnext := hstep done c p q (by simp) hp hstart heffect hleaves.defaults
    have hall := ih (done++[c]) (fun done c p p' hc => hstep done c p p' (mem_cons_of_mem _ hc)) (heffect.ranked hp) hnext h
    rwa [append_assoc,singleton_append] at hall

/-- Wires between nodes of the graph can all be followed. -/
theorem followAll_ok (hread : ∀ c∈clues, c.Read s defaults)
    (hitems : ∀ c∈clues, ∀ a b, c.Meets a b→(p.classes.rank.find a).isSome) (hp : Ranked p.classes) :
    ∃ p', followAll s p clues=.ok p' := by
  induction clues generalizing p with
  | nil => exact ⟨p,rfl⟩
  | cons c rest ih =>
    have hc := hread c (by simp)
    obtain ⟨q,hq⟩ := follow_ok hp (fun a ha => (hc.source_node ha).2) (fun b hb => (hc.target_node hb).2)
      (hitems c (by simp))
    have heffect := (follow_effect hp hq).1
    obtain ⟨p',hp'⟩ := ih (p := q) (fun c' hc' => hread c' (mem_cons_of_mem _ hc'))
      (fun c' hc' a b hab => (heffect.items a).trans (hitems c' (mem_cons_of_mem _ hc') a b hab))
      (heffect.ranked hp)
    exact ⟨p',bind_eq_ok.2 ⟨q,hq,hp'⟩⟩

/-- What no look-up and no assertion of low priority changes, is kept while items are followed, which always ends well. -/
theorem followItems_invariant (Holds : Progress→Prop) (clues : List Clue) (hread : ∀ c∈clues, c.Read s p.defaults)
    (hstep : ∀ (c : Clue) (p p' : Progress), c∈clues→Ranked p.classes→Holds p → p'.defaults=p.defaults → p'.hints=p.hints→(Alike p.classes p'.classes ∨ ∃ id t, c.target=some (.ofNode id) ∧ Told p.classes id t 50 p'.classes)→Holds p')
    (hp : Ranked p.classes) (hstart : Holds p) :
    ∃ p', followItems s p (clues.map (·.wire))=.ok p' ∧ Ranked p'.classes ∧ Holds p' := by
  induction clues generalizing p with
  | nil => exact ⟨p,rfl,hp,hstart⟩
  | cons c rest ih =>
    obtain ⟨q,hq,hdefaults,hhints,hclasses⟩ := (hread c (by simp)).followItem_ok hp rfl
    have hranked : Ranked q.classes := by
      rcases hclasses with hsame | ⟨id,t,-,htold⟩
      · exact hsame.ranked
      · exact htold.ranked
    obtain ⟨p',hp',hend⟩ := ih (p := q) (fun c' hc' => by rw [hdefaults]; exact hread c' (mem_cons_of_mem _ hc'))
      (fun c' q q' hc' => hstep c' q q' (mem_cons_of_mem _ hc')) hranked
      (hstep c p q (by simp) hp hstart hdefaults hhints hclasses)
    exact ⟨p',bind_eq_ok.2 ⟨q,hq,hp'⟩,hend⟩

/-- Where no wire leaves a list of which items are taken, there are no items to follow. -/
theorem followItems_of_none (h : ∀ c∈clues, isItem s c.wire=.ok false) (p : Progress) :
    followItems s p (clues.map (·.wire))=.ok p := by
  induction clues with
  | nil => rfl
  | cons c rest ih =>
    have hitem : followItem s p c.wire=.ok p := by
      unfold followItem
      rw [h c (by simp)]
      rfl
    rw [map_cons,followItems,hitem]
    exact ih fun c' hc' => h c' (mem_cons_of_mem _ hc')

end

/-- The type most of some nodes start from, with the hints for a vector. -/
def chosen? (p : Progress) (ids : List String) (id : String) : Option GateType :=
  match p.classes.known id with
  | some f => some f.type
  | none => winner? (votesOf p (ids.filter fun y => p.classes.rootOf y == p.classes.rootOf id))

section
variable {p : Progress} {ids : List String}

theorem members_of_root (classes : UnionFind) (ids : List String) (root : String) :
    ((ids.map fun y => (y,(classes.find y).1)).filter fun (_,r) => r == root).map (·.1) =
      ids.filter fun y => classes.rootOf y == root := by
  rw [filter_map,map_map]
  exact map_id _

theorem classType?_rootOf (hp : Ranked p.classes) (id : String) :
    classType? p (ids.map fun y => (y,(p.classes.find y).1)) (p.classes.rootOf id)=chosen? p ids id := by
  have hroot : p.classes.known (p.classes.rootOf id)=p.classes.known id :=
    hp.known_congr (rootOf_of_root (hp.above_rootOf id))
  unfold classType? chosen?
  rw [members_of_root,← hroot]
  rfl

theorem find_foldl_putNew {α : Type} (f : String→α) (rooted : List (String×String)) (t : Table α) (root : String) :
    (rooted.foldl (fun table (_,root) => table.putNew root (f root)) t).find root =
      (t.find root).or (if root∈rooted.map (·.2) then some (f root) else none) := by
  induction rooted generalizing t with
  | nil => simp
  | cons first rest ih =>
    rw [foldl_cons,ih,find_putNew]
    by_cases hroot : root=first.2
    · subst hroot
      cases t.find first.2 <;> simp
    · have hmem : root∈(first::rest).map (·.2) ↔ root∈rest.map (·.2) := by
        rw [map_cons,mem_cons,or_iff_right hroot]
      rw [if_neg hroot,if_congr hmem rfl rfl]

def choices (choose : String→Option GateType) (ids : List String) : Table GateType :=
  ids.foldl (fun out id =>
    match choose id with
    | some t => out.put id t
    | none => out) empty

theorem choices_congr {f g : String→Option GateType} (h : ∀ id∈ids, f id=g id) : choices f ids=choices g ids :=
  foldl_ext _ _ _ fun out id hid => by rw [h id hid]

theorem find_foldl_choose (f : String→Option GateType) (ids : List String) (t : Table GateType) (x : String) :
    (ids.foldl (fun out id =>
      match f id with
      | some v => out.put id v
      | none => out) t).find x=if x∈ids then (f x).or (t.find x) else t.find x := by
  induction ids generalizing t with
  | nil => simp
  | cons id rest ih =>
    rw [foldl_cons,ih]
    cases hid : f id with
    | none =>
      by_cases hx : x=id
      · subst hx
        simp [hid]
      · simp [hx]
    | some v =>
      simp only [find_put]
      by_cases hx : x=id
      · subst hx
        simp [hid]
      · simp [hx]

theorem choices_find (f : String→Option GateType) {x : String} (hx : x∈ids) : (choices f ids).find x=f x := by
  refine (find_foldl_choose f ids empty x).trans ?_
  rw [if_pos hx,find_empty,Option.or_none]

/-- Every node gets the type that is chosen for it. -/
theorem conclude_eq (hp : Ranked p.classes) (ids : List String) : conclude p ids=choices (chosen? p ids) ids := by
  have htypes : ∀ id∈ids, (classTypes p (ids.map fun y => (y,(p.classes.find y).1))).find (p.classes.rootOf id) =
      some (chosen? p ids id) := by
    intro id hid
    refine (find_foldl_putNew _ _ _ _).trans ?_
    rw [find_empty,Option.none_or,if_pos,classType?_rootOf hp]
    rw [map_map]
    exact mem_map.2 ⟨id,hid,rfl⟩
  unfold conclude
  simp only [foldl_map]
  refine foldl_ext _ _ _ fun out id hid => ?_
  have hfound := htypes id hid
  unfold rootOf at hfound
  rw [hfound]
  rfl

theorem conclude_find (hp : Ranked p.classes) {id : String} (hid : id∈ids) :
    (conclude p ids).find id=chosen? p ids id := by
  rw [conclude_eq hp,choices_find _ hid]

/-- Nodes of one class get one type. -/
theorem chosen?_congr (hp : Ranked p.classes) {a b : String} (hab : p.classes.rootOf a=p.classes.rootOf b) :
    chosen? p ids a=chosen? p ids b := by
  unfold chosen?
  rw [hp.known_congr hab,hab]

end

section
variable {graph placements index rules modules : Json} {e : Evidence} {types : Table GateType} {s : Setting}
  {nodes : List (String×Json)} {p p' : Progress}

/-- Types follow from evidence: its wires are followed, then those that carry items, and types are chosen. -/
def Evidence.conclusion (e : Evidence) : Except Failure (Table GateType) := do
  let p ← followAll e.setting e.begun e.clues
  let p ← followItems e.setting p (e.clues.map (·.wire))
  pure (conclude p e.ids)

/-- Inference succeeds where all wires are between nodes of the graph. -/
theorem Evidence.conclusion_ok (e : Evidence) (hids : e.ids.Nodup)
    (hread : ∀ c∈e.clues, c.Read e.setting (startsOf e.own))
    (hends : ∀ c∈e.clues, c.wire.source∈e.ids ∧ c.wire.target∈e.ids) : ∃ types, e.conclusion=.ok types := by
  have hbegun := begun_spec hids
  obtain ⟨p,hp⟩ := followAll_ok (p := e.begun) hread (fun c hc a b hab => (hbegun.items a).2 (by
    rcases (hread c hc).meets hab with ⟨rfl,-⟩ | ⟨rfl,-⟩
    · exact (hends c hc).1
    · exact (hends c hc).2)) hbegun.ranked
  obtain ⟨hranked,hdefaults⟩ := followAll_invariant (fun _ q => q.defaults=startsOf e.own) []
    (fun _ _ _ _ _ _ hholds _ hkept => hkept.trans hholds) hbegun.ranked hbegun.defaults hp
  obtain ⟨p',hp',-⟩ := followItems_invariant (s := e.setting) (p := p) (fun _ => True) e.clues
    (by rwa [hdefaults]) (fun _ _ _ _ _ _ _ _ _ => trivial) hranked trivial
  exact ⟨_,bind_eq_ok.2 ⟨p,hp,bind_eq_ok.2 ⟨p',hp',rfl⟩⟩⟩

theorem ids_of_mapM {own : List (String×Own)} (h : nodes.mapM (fun (id,n) => do pure (id,← ownOf s id n))=.ok own) :
    own.map (·.1)=nodes.map (·.1) := by
  have hids : Forall₂ (fun node o => node.1=o.1) nodes own := (forall₂_of_mapM h).imp fun node o ho => by
    obtain ⟨_,-,hpair⟩ := bind_eq_ok.1 ho
    exact congrArg Prod.fst (Except.ok.inj hpair)
  have hmaps := List.forall₂_map_left_iff.2 (List.forall₂_map_right_iff.2 hids)
  rw [List.forall₂_eq_eq_eq] at hmaps
  exact hmaps.symm

theorem evidence_read (h : evidence graph placements index rules modules=.ok e) :
    ∀ c∈e.clues, c.Read e.setting (startsOf e.own) := by
  obtain ⟨nodes,items,-,-,h⟩ := bind_bind_eq_ok.1 h
  obtain ⟨named,own,-,-,h⟩ := bind_bind_eq_ok.1 h
  obtain ⟨edges,records,-,-,h⟩ := bind_bind_eq_ok.1 h
  obtain ⟨clues,hclues,h⟩ := bind_eq_ok.1 h
  cases h
  exact (wires_of_mapM hclues).2

/-- Where the evidence can be read, inference concludes from it. -/
theorem infer_eq (h : evidence graph placements index rules modules=.ok e) (hids : e.ids.Nodup) :
    infer graph placements index rules modules=e.conclusion := by
  obtain ⟨nodes,items,hnodes,hitems,h⟩ := bind_bind_eq_ok.1 h
  obtain ⟨named,own,hnamed,hown,h⟩ := bind_bind_eq_ok.1 h
  obtain ⟨edges,records,hedges,hrecords,h⟩ := bind_bind_eq_ok.1 h
  obtain ⟨clues,hclues,h⟩ := bind_eq_ok.1 h
  cases h
  have hbegun := Evidence.begun_spec hids
  have hfollow := followWires_eq hclues hbegun.ranked hbegun.defaults
  simp only [Evidence.begun,Evidence.ids] at hfollow
  unfold infer Evidence.conclusion
  simp only [hnodes,hitems,hnamed,hedges,hrecords,bind,Except.bind]
  rw [startNodes_eq _ hown,← ids_of_mapM hown]
  simp only [(wires_of_mapM hclues).1,Evidence.begun,Evidence.ids,hfollow]

theorem begin_ranked (hp : Ranked p.classes) (own : List (String×Own)) : Ranked (begin own p).classes := by
  induction own generalizing p with
  | nil => exact hp
  | cons o rest ih =>
    refine ih (p := p.start o.1 o.2.start? o.2.priority?) ?_
    rcases start_classes hp o.1 o.2 with ⟨f,-,htold⟩ | ⟨-,hsame⟩
    · exact htold.ranked
    · rwa [hsame]

theorem own_of_startNodes (h : startNodes s p nodes=.ok p') :
    ∃ own, nodes.mapM (fun (id,n) => do pure (id,← ownOf s id n))=.ok own := by
  induction nodes generalizing p with
  | nil => exact ⟨[],rfl⟩
  | cons node rest ih =>
    obtain ⟨q,hq,h⟩ := bind_eq_ok.1 h
    obtain ⟨o,ho,-⟩ := map_eq_ok_iff.1 ((startNode_eq s p node.1 node.2).symm.trans hq)
    obtain ⟨own,hown⟩ := ih h
    refine ⟨(node.1,o)::own,?_⟩
    rw [mapM_cons]
    exact bind_eq_ok.2 ⟨_,bind_eq_ok.2 ⟨o,ho,rfl⟩,bind_eq_ok.2 ⟨own,hown,rfl⟩⟩

theorem clues_of_followWires {wires : List Wire} (hp : Ranked p.classes) (h : followWires s p wires=.ok p') :
    ∃ clues, wires.mapM (clueOf s p.defaults)=.ok clues := by
  induction wires generalizing p with
  | nil => exact ⟨[],rfl⟩
  | cons w rest ih =>
    obtain ⟨q,hq,h⟩ := bind_eq_ok.1 h
    obtain ⟨left,hleft,hpass⟩ := bind_eq_ok.1 hq
    obtain ⟨right,hright,-⟩ := bind_eq_ok.1 hpass
    have hread : Clue.Read s p.defaults ⟨w,left,right⟩ := ⟨hleft,hright⟩
    obtain ⟨heffect,hleaves⟩ := follow_effect hp ((followWire_eq hread rfl).symm.trans hq)
    obtain ⟨clues,hclues⟩ := ih (heffect.ranked hp) h
    rw [hleaves.defaults] at hclues
    refine ⟨⟨w,left,right⟩::clues,?_⟩
    rw [mapM_cons]
    exact bind_eq_ok.2 ⟨_,hread.clueOf_eq,bind_eq_ok.2 ⟨clues,hclues,rfl⟩⟩

/-- Inference succeeds on no graph whose evidence cannot be read. -/
theorem evidence_of_infer (h : infer graph placements index rules modules=.ok types) :
    ∃ e, evidence graph placements index rules modules=.ok e := by
  obtain ⟨nodes,items,hnodes,hitems,h⟩ := bind_bind_eq_ok.1 h
  obtain ⟨named,p,hnamed,hstart,h⟩ := bind_bind_eq_ok.1 h
  obtain ⟨edges,records,hedges,hrecords,h⟩ := bind_bind_eq_ok.1 h
  obtain ⟨q,hq,-⟩ := bind_eq_ok.1 h
  obtain ⟨own,hown⟩ := own_of_startNodes hstart
  cases (startNodes_eq _ hown).symm.trans hstart
  obtain ⟨clues,hclues⟩ := clues_of_followWires (begin_ranked (ranked_ofItems _).1 own) hq
  rw [begin_defaults] at hclues
  exact ⟨_,bind_eq_ok.2 ⟨nodes,hnodes,bind_eq_ok.2 ⟨items,hitems,bind_eq_ok.2 ⟨named,hnamed,
    bind_eq_ok.2 ⟨own,hown,bind_eq_ok.2 ⟨edges,hedges,bind_eq_ok.2 ⟨records,hrecords,
    bind_eq_ok.2 ⟨clues,hclues,rfl⟩⟩⟩⟩⟩⟩⟩⟩

end

end ChipForge.Inference
