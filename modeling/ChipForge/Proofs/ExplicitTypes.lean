import ChipForge.Proofs.TypeRuns
import Mathlib.Logic.Relation

/-! A node may ask for its type in its settings. A vector is always granted. Any other type is lost only to the type
that another node asks for, and then the two nodes are linked by wires between ports that follow their nodes. -/
namespace ChipForge.Inference
open Wiring UnionFind List

namespace UnionFind
variable {uf uf' : UnionFind} {x y : String} {t : GateType} {priority : Int} {f : Fixed}

theorem Told.known_iff (h : Told uf x t priority uf') (hf : priority < f.priority) :
    uf'.known y=some f ↔ uf.known y=some f := by
  rcases h.cases y with hsame | ⟨-,hnew,hlt⟩
  · rw [hsame]
  · constructor
    · intro hknown
      cases hnew.symm.trans hknown
      exact absurd hf (Int.lt_irrefl _)
    · intro hknown
      have hlt := hlt f hknown
      omega

end UnionFind

namespace Evidence
variable {e : Evidence}

/-- The settings of the node ask for the type. -/
def Asks (e : Evidence) (id : String) (t : GateType) : Prop := (id,Own.explicit t)∈e.own

theorem Asks.mem_ids {id : String} {t : GateType} (h : e.Asks id t) : id∈e.ids := mem_map.2 ⟨_,h,rfl⟩

/-- There is a wire between ports that follow the two nodes, of which none asks for a vector. -/
def Touches (e : Evidence) (a b : String) : Prop :=
  (∃ c∈e.clues, c.Meets a b) ∧ ¬e.Asks a .vector ∧ ¬e.Asks b .vector

/-- Nodes that can pass types other than vectors to each other over any number of wires. -/
def Linked (e : Evidence) : String→String→Prop := Relation.EqvGen e.Touches

/-- Nodes have what they ask for, or what a linked node asks for. -/
structure Honours (e : Evidence) (p : Progress) : Prop where
  asked : ∀ x t, e.Asks x t→∃ f, p.classes.known x=some f ∧ f.priority=100 ∧ (f.type=.vector ↔ t=.vector)
  sources : ∀ x f, p.classes.known x=some f → f.type≠.vector → f.priority=100 →
    ∃ y, e.Asks y f.type ∧ e.Linked x y

/-- What holds while wires are followed. -/
structure Upholds (e : Evidence) (p : Progress) : Prop extends e.Honours p where
  priority : ∀ x f, p.classes.known x=some f → f.priority≤100
  vectors : ∀ x f, p.classes.known x=some f → f.type=.vector→90 ≤ f.priority
  classes : ∀ x y, p.classes.rootOf x=p.classes.rootOf y→(∀ f, p.classes.known x=some f → f.type≠.vector) →
    e.Linked x y

section
variable {p p' : Progress} {c : Clue} {id x : String} {t : GateType} {priority : Int} {a b : String} {f : Fixed}

theorem Honours.told (h : e.Honours p) (htold : Told p.classes id t priority p'.classes) (hlow : priority < 100) :
    e.Honours p' where
  asked x u hx := by
    obtain ⟨f,hf,hpriority,htype⟩ := h.asked x u hx
    exact ⟨f,(htold.known_iff (by omega)).2 hf,hpriority,htype⟩
  sources x f hf htype hpriority := h.sources x f ((htold.known_iff (by omega)).1 hf) htype hpriority

theorem Upholds.not_asks (h : e.Upholds p) (hx : ∀ f, p.classes.known x=some f → f.type≠.vector) :
    ¬e.Asks x .vector := by
  intro hasks
  obtain ⟨f,hf,-,htype⟩ := h.asked x .vector hasks
  exact hx f hf (htype.2 rfl)

theorem Upholds.told (h : e.Upholds p) (htold : Told p.classes id t priority p'.classes) (hlow : priority < 100)
    (hvector : t=.vector→90 ≤ priority) (hother : t≠.vector → priority≤90) : e.Upholds p' where
  toHonours := h.toHonours.told htold hlow
  priority x f hf := by
    rcases htold.cases x with hsame | ⟨-,hnew,-⟩
    · exact h.priority x f (hsame.symm.trans hf)
    · cases hnew.symm.trans hf
      exact Int.le_of_lt hlow
  vectors x f hf htype := by
    rcases htold.cases x with hsame | ⟨-,hnew,-⟩
    · exact h.vectors x f (hsame.symm.trans hf) htype
    · cases hnew.symm.trans hf
      exact hvector htype
  classes x y hxy htypes := by
    rw [htold.roots,htold.roots] at hxy
    refine h.classes x y hxy fun f hf htype => ?_
    -- a vector that is known is not given up for an assertion of another type
    rcases htold.cases x with hsame | ⟨-,hnew,hlt⟩
    · exact htypes f (hsame.trans hf) htype
    · have hnot : t≠.vector := htypes _ hnew
      have hhigh := h.vectors x f hf htype
      have hbeaten := hlt f hf
      have hle := hother hnot
      omega

theorem Upholds.passed (h : e.Upholds p) (hp : Ranked p.classes) (hc : c∈e.clues) (hmeets : c.Meets a b)
    (hknown : p.classes.known a=some f) (hnone : p.classes.known b=none)
    (hpriority : priority=f.priority ∨ f.type=.vector ∧ priority=max f.priority 95)
    (htold : Told p.classes b f.type priority p'.classes) : e.Upholds p' := by
  have hf := h.priority a f hknown
  -- what is known after the wire was known, or is what the class without type was told
  have hcases : ∀ y g, p'.classes.known y=some g → p.classes.known y=some g ∨
      (p.classes.rootOf y=p.classes.rootOf b ∧ g=⟨priority,f.type⟩) := by
    intro y g hg
    rcases htold.cases y with hsame | ⟨hy,hnew,-⟩
    · exact .inl (hsame.symm.trans hg)
    · exact .inr ⟨hy,Option.some.inj (hg.symm.trans hnew)⟩
  have hstays : ∀ y g, p.classes.known y=some g → p'.classes.known y=some g := by
    intro y g hg
    rw [htold.known,if_neg,hg]
    intro hy
    rw [hp.known_congr hy,hnone] at hg
    cases hg
  refine ⟨⟨fun x u hx => ?_,fun x g hg htype h100 => ?_⟩,fun x g hg => ?_,fun x g hg htype => ?_,
    fun x y hxy htypes => ?_⟩
  · obtain ⟨g,hg,h100,htype⟩ := h.asked x u hx
    exact ⟨g,hstays x g hg,h100,htype⟩
  · rcases hcases x g hg with hold | ⟨hx,rfl⟩
    · exact h.sources x g hold htype h100
    · have hsame : priority=f.priority := hpriority.resolve_right fun hvector => htype hvector.1
      obtain ⟨y,hy,hlinked⟩ := h.sources a f hknown htype (hsame ▸ h100)
      refine ⟨y,hy,.trans _ _ _ (h.classes x b hx fun k hk => ?_) (.trans _ _ _ (.rel _ _ ⟨⟨c,hc,hmeets.symm⟩,
        h.not_asks fun k hk => ?_,h.not_asks fun k hk => ?_⟩) hlinked)⟩
      · rw [hp.known_congr hx,hnone] at hk
        cases hk
      · rw [hnone] at hk
        cases hk
      · cases hknown.symm.trans hk
        exact htype
  · rcases hcases x g hg with hold | ⟨-,rfl⟩
    · exact h.priority x g hold
    · rcases hpriority with hsame | ⟨-,hmax⟩ <;> simp only <;> omega
  · rcases hcases x g hg with hold | ⟨-,rfl⟩
    · exact h.vectors x g hold htype
    · have hhigh := h.vectors a f hknown htype
      rcases hpriority with hsame | ⟨-,hmax⟩ <;> simp only <;> omega
  · rw [htold.roots,htold.roots] at hxy
    exact h.classes x y hxy fun g hg => htypes g (hstays x g hg)

theorem Upholds.joined (h : e.Upholds p) (hp : Ranked p.classes) (hc : c∈e.clues) (hmeets : c.Meets a b)
    (hknown : p.classes.Fit a b)
    (hjoins : Joins p.classes a b p'.classes) : e.Upholds p' := by
  have hmember := fun y hy => hjoins.known_member (y := y) hp hknown hy
  -- where the joined class is no vector, neither end was, and all its members are linked to both ends
  have hlinked : ∀ y, p.classes.OfEither a b y →
      (∀ k, p'.classes.known y=some k → k.type≠.vector) → e.Linked y a ∧ e.Linked y b := by
    intro y hy htypes
    have hbefore : ∀ z, p.classes.OfEither a b z →
        ∀ m, p.classes.known z=some m → m.type≠.vector := by
      intro z hz m hm
      rcases hmember z hz with ⟨hnone,-⟩ | ⟨m',k,-,hm',hk,-,-,-,hkind⟩
      · rw [hnone] at hm
        cases hm
      · cases hm.symm.trans hm'
        rw [Ne,← hkind]
        exact htypes k ((hjoins.ranked.known_congr ((hjoins.same_joined hz y).2 hy)).trans hk)
    have htouch : e.Linked a b :=
      .rel _ _ ⟨⟨c,hc,hmeets⟩,h.not_asks (hbefore a (.inl rfl)),h.not_asks (hbefore b (.inr rfl))⟩
    rcases hy with hya | hyb
    · have hlink := h.classes y a hya (hbefore y (.inl hya))
      exact ⟨hlink,.trans _ _ _ hlink htouch⟩
    · have hlink := h.classes y b hyb (hbefore y (.inr hyb))
      exact ⟨.trans _ _ _ hlink (.symm _ _ htouch),hlink⟩
  -- outside the two classes nothing changes, inside everything known was known of one of the ends
  have hcases : ∀ y k, p'.classes.known y=some k → p.classes.known y=some k ∨
      ∃ z, p.classes.known z=some k ∧ (k.type≠.vector → e.Linked y z) := by
    intro y k hk
    by_cases hy : p.classes.OfEither a b y
    · rcases hmember y hy with ⟨-,hnone⟩ | ⟨m,k',z,-,hk',hz,hknownz,-,-⟩
      · rw [hnone] at hk
        cases hk
      · cases hk.symm.trans hk'
        refine .inr ⟨z,hknownz,fun htype => ?_⟩
        have hlink := hlinked y hy fun k' hk' => by
          cases hk.symm.trans hk'
          exact htype
        rcases hz with rfl | rfl
        · exact hlink.1
        · exact hlink.2
    · exact .inl ((hjoins.others y hy).symm.trans hk)
  refine ⟨⟨fun x u hx => ?_,fun x k hk htype h100 => ?_⟩,fun x k hk => ?_,fun x k hk htype => ?_,
    fun x y hxy htypes => ?_⟩
  · obtain ⟨m,hm,h100,htype⟩ := h.asked x u hx
    by_cases hin : p.classes.OfEither a b x
    · rcases hmember x hin with ⟨hnone,-⟩ | ⟨m',k,z,hm',hk,-,hknownz,hle,hkind⟩
      · rw [hnone] at hm
        cases hm
      · cases hm.symm.trans hm'
        have hhigh := h.priority z k hknownz
        exact ⟨k,hk,by omega,hkind.trans htype⟩
    · exact ⟨m,(hjoins.others x hin).trans hm,h100,htype⟩
  · rcases hcases x k hk with hold | ⟨z,hz,hlink⟩
    · exact h.sources x k hold htype h100
    · obtain ⟨y,hy,hzy⟩ := h.sources z k hz htype h100
      exact ⟨y,hy,.trans _ _ _ (hlink htype) hzy⟩
  · rcases hcases x k hk with hold | ⟨z,hz,-⟩
    · exact h.priority x k hold
    · exact h.priority z k hz
  · rcases hcases x k hk with hold | ⟨z,hz,-⟩
    · exact h.vectors x k hold htype
    · exact h.vectors z k hz htype
  · by_cases hin : p.classes.OfEither a b x
    · have hlink := hlinked x hin htypes
      have hlink' := hlinked y ((hjoins.same_joined hin y).1 hxy.symm) fun k hk => htypes k ((hjoins.ranked.known_congr hxy).trans hk)
      exact .trans _ _ _ hlink.1 (.symm _ _ hlink'.1)
    · rcases (hjoins.same x y).1 hxy with hsame | ⟨hx,-⟩ | ⟨hx,-⟩
      · refine h.classes x y hsame fun k hk => htypes k ?_
        exact (hjoins.others x hin).trans hk
      · exact absurd (.inl hx) hin
      · exact absurd (.inr hx) hin

theorem Upholds.effect (h : e.Upholds p) (hp : Ranked p.classes) (hc : c∈e.clues)
    (hread : c.Read e.setting (startsOf e.own)) (heffect : Effect c p p') : e.Upholds p' := by
  have hsame : ∀ {q : Progress}, (∀ x, q.classes.rootOf x=p.classes.rootOf x) →
      (∀ x, q.classes.known x=p.classes.known x) → e.Upholds q := by
    intro q hroots hknown
    refine ⟨⟨fun x u hx => ?_,fun x g hg => ?_⟩,fun x g hg => ?_,fun x g hg => ?_,fun x y hxy htypes => ?_⟩
    · rw [hknown]
      exact h.asked x u hx
    · exact h.sources x g (hknown x ▸ hg)
    · exact h.priority x g (hknown x ▸ hg)
    · exact h.vectors x g (hknown x ▸ hg)
    · rw [hroots,hroots] at hxy
      exact h.classes x y hxy fun g hg => htypes g ((hknown x).trans hg)
  cases heffect with
  | silent _ _ heq => exact heq ▸ h
  | hinted _ heq => exact hsame (fun x => by rw [heq]) (fun x => by rw [heq])
  | bound _ htold => exact h.told htold (by omega) (fun _ => by omega) (fun hne => absurd rfl hne)
  | told htells ht htold _ =>
    have hlow := hread.priority_le htells
    exact h.told htold (by omega) (fun hvector => absurd hvector ht) (fun _ => hlow)
  | kept _ _ _ _ halike => exact hsame halike.roots (halike.known hp)
  | passed hmeets hknown hnone hpriority htold _ => exact h.passed hp hc hmeets hknown hnone hpriority htold
  | joined hmeets hknown hjoins _ => exact h.joined hp hc hmeets hknown hjoins

/-- What a node asserts of itself: with top priority only the type its settings ask for. -/
theorem asserted?_spec {o : Own} (h : o.asserted?=some f) :
    (o=.explicit f.type ∧ f.priority=100) ∨ f.priority=90 ∨ f.priority=95 := by
  cases o with
  | explicit t =>
    cases h
    exact .inl ⟨rfl,rfl⟩
  | held t =>
    cases t with
    | none => cases h
    | some t =>
      cases h
      exact .inr (.inl rfl)
  | module t must =>
    cases t with
    | none => cases h
    | some t =>
      cases must with
      | false => cases h
      | true =>
        cases h
        exact .inr (.inr rfl)

theorem Begun.upholds (h : e.Begun p) : e.Upholds p := by
  have hown : ∀ x f, p.classes.known x=some f→∃ o, (x,o)∈e.own ∧ o.asserted?=some f := by
    intro x f hf
    by_cases hx : x∈e.ids
    · obtain ⟨o,ho,rfl⟩ := mem_map.1 hx
      exact ⟨o.2,ho,(h.own o ho).symm.trans hf⟩
    · rw [h.others x hx] at hf
      cases hf
  refine ⟨⟨fun x t hx => ?_,fun x f hf _ h100 => ?_⟩,fun x f hf => ?_,fun x f hf _ => ?_,fun x y hxy _ => ?_⟩
  · exact ⟨_,h.own _ hx,rfl,Iff.rfl⟩
  · obtain ⟨o,ho,hasserted⟩ := hown x f hf
    rcases asserted?_spec hasserted with ⟨rfl,-⟩ | hlow | hlow
    · exact ⟨x,ho,.refl x⟩
    · omega
    · omega
  · obtain ⟨o,-,hasserted⟩ := hown x f hf
    rcases asserted?_spec hasserted with ⟨-,hhigh⟩ | hlow | hlow <;> omega
  · obtain ⟨o,-,hasserted⟩ := hown x f hf
    rcases asserted?_spec hasserted with ⟨-,hhigh⟩ | hlow | hlow <;> omega
  · rw [h.roots,h.roots] at hxy
    exact hxy ▸ .refl x

/-- A wire between two nodes that ask for types, none of them a vector, joins their classes. -/
theorem Upholds.joins_asked (h : e.Upholds p) (heffect : Effect c p p') {u : GateType} (hmeets : c.Meets a b)
    (ha : e.Asks a t) (hb : e.Asks b u) (ht : t≠.vector) (hu : u≠.vector) :
    p'.classes.rootOf a=p'.classes.rootOf b := by
  obtain ⟨f,hf,-,hft⟩ := h.asked a t ha
  obtain ⟨g,hg,-,hgu⟩ := h.asked b u hb
  -- both ends of the wire have a type that is no vector
  have hends : ∀ {x y k}, c.Meets x y → p.classes.known x=some k → k.type≠.vector := by
    intro x y k hxy hk
    rcases hmeets.unique hxy with ⟨rfl,-⟩ | ⟨rfl,-⟩
    · cases hf.symm.trans hk
      rwa [Ne,hft]
    · cases hg.symm.trans hk
      rwa [Ne,hgu]
  cases heffect with
  | silent _ hnone _ => exact absurd hmeets (hnone a b)
  | hinted htells _ => exact absurd htells (hmeets.not_tells _ _ _)
  | bound htells _ => exact absurd htells (hmeets.not_tells _ _ _)
  | told htells _ _ _ => exact absurd htells (hmeets.not_tells _ _ _)
  | kept hxy hk hvector _ _ => exact absurd hvector (hends hxy hk)
  | passed hxy _ hnone _ _ _ =>
    rcases hmeets.unique hxy with ⟨-,rfl⟩ | ⟨-,rfl⟩
    · rw [hnone] at hg
      cases hg
    · rw [hnone] at hf
      cases hf
  | joined hxy _ hjoins _ =>
    rcases hmeets.unique hxy with ⟨rfl,rfl⟩ | ⟨rfl,rfl⟩
    · exact (hjoins.same _ _).2 (.inr (.inl ⟨rfl,rfl⟩))
    · exact (hjoins.same _ _).2 (.inr (.inr ⟨rfl,rfl⟩))

def Unites (e : Evidence) (clues : List Clue) (p : Progress) : Prop :=
  ∀ c∈clues, ∀ a b t u, c.Meets a b → e.Asks a t → e.Asks b u → t≠.vector → u≠.vector →
    p.classes.rootOf a=p.classes.rootOf b

/-- After all wires and all items, what nodes ask for is honoured. -/
theorem conclusion_honours {types : Table GateType} (hids : e.ids.Nodup)
    (hread : ∀ c∈e.clues, c.Read e.setting (startsOf e.own)) (h : e.conclusion=.ok types) :
    ∃ p, Ranked p.classes ∧ e.Honours p ∧ e.Unites e.clues p ∧ types=conclude p e.ids := by
  have hbegun := begun_spec hids
  obtain ⟨p,hp,h⟩ := bind_eq_ok.1 h
  obtain ⟨hranked,hupholds,hunites,hdefaults⟩ := followAll_invariant
    (fun done p => e.Upholds p ∧ e.Unites done p ∧ p.defaults=startsOf e.own) []
    (fun done c q q' hc hq hholds heffect hkept => by
      obtain ⟨hupholds,hunites,hdefaults⟩ := hholds
      refine ⟨hupholds.effect hq hc (hread c hc) heffect,fun c' hc' a b t u hmeets ha hb ht hu => ?_,
        hkept.trans hdefaults⟩
      rcases mem_append.1 hc' with hc' | hc'
      · exact heffect.roots (hunites c' hc' a b t u hmeets ha hb ht hu)
      · cases mem_singleton.1 hc'
        exact hupholds.joins_asked heffect hmeets ha hb ht hu)
    hbegun.ranked ⟨hbegun.upholds,fun c hc => absurd hc not_mem_nil,hbegun.defaults⟩ hp
  obtain ⟨p',hp',hranked',hhonours,hunites'⟩ := followItems_invariant
    (fun q => e.Honours q ∧ e.Unites e.clues q) e.clues (by rwa [hdefaults])
    (fun _ q q' _ hq hholds _ _ hclasses => by
      obtain ⟨hhonours,hunites⟩ := hholds
      rcases hclasses with hsame | ⟨id,t,-,htold⟩
      · refine ⟨⟨fun x u hx => ?_,fun x f hf => ?_⟩,fun c' hc' a b t u hmeets ha hb ht hu => ?_⟩
        · rw [hsame.known hq]
          exact hhonours.asked x u hx
        · exact hhonours.sources x f (hsame.known hq x ▸ hf)
        · rw [hsame.roots,hsame.roots]
          exact hunites c' hc' a b t u hmeets ha hb ht hu
      · refine ⟨hhonours.told htold (by omega),fun c' hc' a b t u hmeets ha hb ht hu => ?_⟩
        rw [htold.roots,htold.roots]
        exact hunites c' hc' a b t u hmeets ha hb ht hu)
    hranked ⟨hupholds.toHonours,hunites⟩
  obtain ⟨q,hq,h⟩ := bind_eq_ok.1 h
  cases hp'.symm.trans hq
  cases h
  exact ⟨p',hranked',hhonours,hunites',rfl⟩

end

end Evidence

/-- Inference grants every vector that a node asks for. A node that asks for another type gets a type that is no vector and
that is asked for by a node linked to it, so that it can lose its type only to such a node, in whatever order the wires are
followed; and it does where one wire joins two nodes that ask for different types, both of which then have one type. -/
theorem infer_explicit (graph placements index rules modules : Json) :
    (∀ types, infer graph placements index rules modules = .ok types →
      ∃ e, evidence graph placements index rules modules = .ok e) ∧
    ∀ e, evidence graph placements index rules modules = .ok e → e.ids.Nodup →
      ((∀ c ∈ e.clues, c.wire.source ∈ e.ids ∧ c.wire.target ∈ e.ids) →
        ∃ types, infer graph placements index rules modules = .ok types) ∧
      ∀ types, infer graph placements index rules modules = .ok types →
        (∀ id, e.Asks id .vector → types.find id = some .vector) ∧
        (∀ id t, e.Asks id t → t ≠ .vector →
          ∃ other u, types.find id = some u ∧ u ≠ .vector ∧ e.Asks other u ∧ e.Linked id other) ∧
        ∀ c ∈ e.clues, ∀ a b t u, c.Meets a b → e.Asks a t → e.Asks b u → t ≠ .vector → u ≠ .vector →
          types.find a = types.find b := by
  refine ⟨fun types => evidence_of_infer,fun e he hids => ?_⟩
  have hread := evidence_read he
  rw [infer_eq he hids]
  refine ⟨fun hends => e.conclusion_ok hids hread hends,fun types htypes => ?_⟩
  obtain ⟨p,hp,hhonours,hunites,rfl⟩ := Evidence.conclusion_honours hids hread htypes
  have hasked : ∀ {id t}, e.Asks id t → ∃ f, (conclude p e.ids).find id = some f.type ∧
      p.classes.known id = some f ∧ f.priority = 100 ∧ (f.type = .vector ↔ t = .vector) := by
    intro id t hid
    obtain ⟨f,hf,h100,htype⟩ := hhonours.asked id t hid
    refine ⟨f,?_,hf,h100,htype⟩
    rw [conclude_find hp hid.mem_ids,chosen?,hf]
  refine ⟨fun id hid => ?_,fun id t hid ht => ?_,fun c hc a b t u hmeets ha hb ht hu => ?_⟩
  · obtain ⟨f,hfind,-,-,htype⟩ := hasked hid
    rw [hfind,htype.2 rfl]
  · obtain ⟨f,hfind,hknown,h100,htype⟩ := hasked hid
    have hne : f.type ≠ .vector := fun heq => ht (htype.1 heq)
    obtain ⟨other,hother,hlinked⟩ := hhonours.sources id f hknown hne h100
    exact ⟨other,f.type,hfind,hne,hother,hlinked⟩
  · rw [conclude_find hp ha.mem_ids,conclude_find hp hb.mem_ids]
    exact chosen?_congr hp (hunites c hc a b t u hmeets ha hb ht hu)

def askingNode (id : String) (code : Int) : Json :=
  .obj [("id",.str id),("attrs",.obj [("data_type",.int code)])]

def valueWire (a b : String) : Json :=
  .obj [("from_node",.str a),("from_port",.str "Value"),("to_node",.str b),("to_port",.str "Value")]

def endsIndex : Json :=
  .obj [("input",.obj [("inputs",.arr []),("outputs",.arr [.str "Value"])]),
    ("output",.obj [("inputs",.arr [.str "Value"]),("outputs",.arr [])])]

def endsPlacements : Json :=
  .obj [("a",.obj [("friendly_name",.str "Input")]),("b",.obj [("friendly_name",.str "Output")]),
    ("v",.obj [("friendly_name",.str "Input")])]

def mixedEnds : Json :=
  .obj [("nodes",.arr [askingNode "a" 2,askingNode "b" 4,askingNode "v" 8]),
    ("edges",.arr [valueWire "a" "b",valueWire "v" "b"])]

def mixedEvidence : Evidence where
  setting := ⟨endsPlacements,endsIndex,.obj [],.obj [],
    [("a",askingNode "a" 2),("b",askingNode "b" 4),("v",askingNode "v" 8)]⟩
  own := [("a",.explicit .number),("b",.explicit .string),("v",.explicit .vector)]
  clues := [⟨⟨"a","Value","b","Value"⟩,some (.ofNode "a"),some (.ofNode "b")⟩,
    ⟨⟨"v","Value","b","Value"⟩,some (.ofNode "v"),some (.ofNode "b")⟩]

theorem infer_explicit_mixedEnds :
    evidence mixedEnds endsPlacements endsIndex (.obj []) (.obj []) = .ok mixedEvidence ∧ mixedEvidence.ids.Nodup ∧
      ∃ types, infer mixedEnds endsPlacements endsIndex (.obj []) (.obj []) = .ok types ∧
        types.find "v" = some .vector ∧ types.find "a" = types.find "b" ∧
        ∃ other u, types.find "b" = some u ∧ u ≠ .vector ∧ mixedEvidence.Asks other u ∧
          mixedEvidence.Linked "b" other := by
  have hread : evidence mixedEnds endsPlacements endsIndex (.obj []) (.obj []) = .ok mixedEvidence := rfl
  have hids : mixedEvidence.ids.Nodup := by decide
  obtain ⟨hok,htypes⟩ := (infer_explicit mixedEnds endsPlacements endsIndex (.obj []) (.obj [])).2 mixedEvidence hread hids
  obtain ⟨types,hinfer⟩ := hok (by simp [mixedEvidence,Evidence.ids])
  obtain ⟨hvector,hother,hwires⟩ := htypes types hinfer
  have ha : mixedEvidence.Asks "a" .number := by simp [Evidence.Asks,mixedEvidence]
  have hb : mixedEvidence.Asks "b" .string := by simp [Evidence.Asks,mixedEvidence]
  refine ⟨hread,hids,types,hinfer,hvector "v" (by simp [Evidence.Asks,mixedEvidence]),?_,
    hother "b" .string hb (by decide)⟩
  exact hwires _ mem_cons_self "a" "b" .number .string (.inl ⟨rfl,rfl⟩) ha hb (by decide) (by decide)

/-- A type that is asked for can be lost: a number that feeds a text makes it a number. -/
theorem infer_explicit_lost :
    infer (.obj [("nodes", .arr [askingNode "a" 2, askingNode "b" 4]), ("edges", .arr [valueWire "a" "b"])])
      endsPlacements endsIndex (.obj []) (.obj []) = .ok [("a", .number), ("b", .number)] ∧
    explicitType? (.obj [("data_type", .int 4)]) = .ok (some .string) := ⟨rfl, rfl⟩

end ChipForge.Inference
