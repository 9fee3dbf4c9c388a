import ChipForge.Proofs.TypeRuns
import ChipForge.Proofs.Votes
import Mathlib.Logic.Relation

/-! Wires between ports that follow their nodes split a graph into components. Where one type is asserted within a
component, all its nodes get that type, however the wires are ordered; where none is, they get the one that most of them
start from. -/
namespace ChipForge.Inference
open Wiring UnionFind List

namespace Evidence
variable {e : Evidence}

/-- There is a wire between ports that follow the two nodes. -/
def Meets (e : Evidence) (a b : String) : Prop := ∃ c∈e.clues, c.Meets a b

/-- Nodes of one component. -/
def Together (e : Evidence) : String→String→Prop := Relation.EqvGen e.Meets

/-- A type is asserted of a node, by the node itself or by a port of fixed type at the other end of a wire. -/
def Asserts (e : Evidence) (id : String) (t : GateType) : Prop :=
  (∃ o f, (id,o)∈e.own ∧ o.asserted?=some f ∧ f.type=t) ∨ ∃ c∈e.clues, ∃ priority, c.Tells id t priority

/-- A graph without conflicts: no two types are asserted within a component, no vector is, and no items are taken out of
lists. -/
structure Agrees (e : Evidence) : Prop where
  ids : e.ids.Nodup
  ends : ∀ c∈e.clues, c.wire.source∈e.ids ∧ c.wire.target∈e.ids
  items : ∀ c∈e.clues, ∀ role, e.setting.role c.wire.source=.ok role → role.word ≠ "arraysget"
  vectors : ∀ id t, e.Asserts id t → t≠.vector
  types : ∀ a b t u, e.Together a b → e.Asserts a t → e.Asserts b u → t=u

open Classical in
noncomputable def defaultsOf (e : Evidence) (id : String) : List GateType :=
  e.own.filterMap fun o => if e.Together id o.1 then o.2.start? else none

/-- The type of a node as its component says: what is asserted, or else what most nodes start from. -/
def Settles (e : Evidence) (id : String) (t : Option GateType) : Prop :=
  (∀ other u, e.Together id other → e.Asserts other u → t=some u) ∧
    ((∀ other u, e.Together id other→¬e.Asserts other u)→MostFrequent (e.defaultsOf id) t)

theorem Settles.unique {id : String} {t t' : Option GateType} (h : e.Settles id t) (h' : e.Settles id t') : t=t' := by
  by_cases hasserted : ∃ other u, e.Together id other ∧ e.Asserts other u
  · obtain ⟨other,u,hother,hu⟩ := hasserted
    rw [h.1 other u hother hu,h'.1 other u hother hu]
  · have hnone : ∀ other u, e.Together id other→¬e.Asserts other u :=
      fun other u hother hu => hasserted ⟨other,u,hother,hu⟩
    exact (h.2 hnone).unique (h'.2 hnone)

/-- What holds when some of the wires were followed. -/
structure Follows (e : Evidence) (done : List Clue) (p : Progress) : Prop where
  classes : ∀ x y, p.classes.rootOf x=p.classes.rootOf y → e.Together x y
  types : ∀ x f, p.classes.known x=some f→∃ y, e.Together x y ∧ e.Asserts y f.type
  own : ∀ o∈e.own, o.2.asserted?.isSome→(p.classes.known o.1).isSome
  told : ∀ c∈done, ∀ id t priority, c.Tells id t priority→(p.classes.known id).isSome
  met : ∀ c∈done, ∀ a b, c.Meets a b →
    p.classes.rootOf a=p.classes.rootOf b ∨ ((p.classes.known a).isSome ∧ (p.classes.known b).isSome)
  hints : p.hints=Table.empty
  defaults : p.defaults=startsOf e.own

end Evidence

section
variable {e : Evidence} {c : Clue} {p p' : Progress} {done : List Clue}

theorem Effect.known_isSome (h : Effect c p p') (hp : Ranked p.classes) {x : String} (hx : (p.classes.known x).isSome) :
    (p'.classes.known x).isSome := by
  have htold : ∀ {id t priority}, Told p.classes id t priority p'.classes→(p'.classes.known x).isSome := by
    intro id t priority htold
    rcases htold.cases x with hsame | ⟨-,hnew,-⟩
    · rwa [hsame]
    · rw [hnew]
      rfl
  cases h with
  | silent _ _ hsame => rwa [hsame]
  | hinted _ hsame => rwa [hsame]
  | bound _ h => exact htold h
  | told _ _ h _ => exact htold h
  | kept _ _ _ _ hsame => rwa [hsame.known hp]
  | passed _ _ _ _ h _ => exact htold h
  | @joined a b _ hknown hjoins _ =>
    by_cases hin : p.classes.OfEither a b x
    · rcases hjoins.known_member hp hknown hin with ⟨hnone,-⟩ | ⟨m,k,z,-,hk,-⟩
      · rw [hnone] at hx
        cases hx
      · rw [hk]
        rfl
    · rwa [hjoins.others x hin]

namespace Evidence

variable {x : String} {id y : String} {own : List (String×Own)}

theorem Agrees.type_ne_vector (h : e.Agrees) (hfollows : e.Follows done p) {f : Fixed} (hf : p.classes.known x=some f) :
    f.type≠.vector := by
  obtain ⟨y,-,hy⟩ := hfollows.types x f hf
  exact h.vectors y f.type hy

theorem Agrees.effect_classes (h : e.Agrees) (hfollows : e.Follows done p) (hp : Ranked p.classes) (hc : c∈e.clues)
    (heffect : Effect c p p') :
    (∀ x y, p'.classes.rootOf x=p'.classes.rootOf y → e.Together x y) ∧
      (∀ x f, p'.classes.known x=some f→∃ y, e.Together x y ∧ e.Asserts y f.type) ∧ p'.hints=p.hints := by
  have hvector : ∀ {id priority}, ¬c.Tells id .vector priority := fun htells =>
    h.vectors _ _ (.inr ⟨c,hc,_,htells⟩) rfl
  -- an assertion that was made somewhere in the component may be made of any node of it
  have htold : ∀ {id t priority}, Told p.classes id t priority p'.classes→(∃ y, e.Together id y ∧ e.Asserts y t) →
      (∀ x y, p'.classes.rootOf x=p'.classes.rootOf y → e.Together x y) ∧
        ∀ x f, p'.classes.known x=some f→∃ y, e.Together x y ∧ e.Asserts y f.type := by
    intro id t priority htold hassert
    refine ⟨fun x y hxy => ?_,fun x f hf => ?_⟩
    · rw [htold.roots,htold.roots] at hxy
      exact hfollows.classes x y hxy
    · rcases htold.cases x with hsame | ⟨hx,hnew,-⟩
      · exact hfollows.types x f (hsame.symm.trans hf)
      · obtain ⟨y,hy,ht⟩ := hassert
        cases hnew.symm.trans hf
        exact ⟨y,.trans _ _ _ (hfollows.classes x id hx) hy,ht⟩
  cases heffect with
  | silent _ _ hsame =>
    subst hsame
    exact ⟨hfollows.classes,hfollows.types,rfl⟩
  | hinted htells _ => exact absurd htells hvector
  | bound htells _ => exact absurd htells hvector
  | @told id t priority htells _ htold' hhints =>
    obtain ⟨hclasses,htypes⟩ := htold htold' ⟨id,.refl id,.inr ⟨c,hc,priority,htells⟩⟩
    exact ⟨hclasses,htypes,hhints⟩
  | kept _ hknown hf _ _ => exact absurd hf (h.type_ne_vector hfollows hknown)
  | @passed a b f priority hmeets hknown _ _ htold' hhints =>
    obtain ⟨y,hy,ht⟩ := hfollows.types a f hknown
    obtain ⟨hclasses,htypes⟩ := htold htold' ⟨y,.trans _ _ _ (.rel _ _ ⟨c,hc,hmeets.symm⟩) hy,ht⟩
    exact ⟨hclasses,htypes,hhints⟩
  | @joined a b hmeets hknown hjoins hhints =>
    have hab : e.Together a b := .rel _ _ ⟨c,hc,hmeets⟩
    have hends : ∀ x, p.classes.OfEither a b x →
        e.Together x a ∧ e.Together x b := by
      rintro x (hx | hx)
      · exact ⟨hfollows.classes x a hx,.trans _ _ _ (hfollows.classes x a hx) hab⟩
      · exact ⟨.trans _ _ _ (hfollows.classes x b hx) (.symm _ _ hab),hfollows.classes x b hx⟩
    refine ⟨fun x y hxy => ?_,fun x f hf => ?_,hhints⟩
    · rcases (hjoins.same x y).1 hxy with hsame | ⟨hx,hy⟩ | ⟨hx,hy⟩
      · exact hfollows.classes x y hsame
      · exact .trans _ _ _ (hends x (.inl hx)).1 (.symm _ _ (hends y (.inr hy)).1)
      · exact .trans _ _ _ (hends x (.inr hx)).1 (.symm _ _ (hends y (.inl hy)).1)
    · by_cases hin : p.classes.OfEither a b x
      · rcases hjoins.known_member hp hknown hin with ⟨-,hnone⟩ | ⟨m,k,z,-,hk,hz,hknownz,-,-⟩
        · rw [hnone] at hf
          cases hf
        · cases hk.symm.trans hf
          obtain ⟨y,hy,ht⟩ := hfollows.types z _ hknownz
          rcases hz with rfl | rfl
          · exact ⟨y,.trans _ _ _ (hends x hin).1 hy,ht⟩
          · exact ⟨y,.trans _ _ _ (hends x hin).2 hy,ht⟩
      · exact hfollows.types x f ((hjoins.others x hin).symm.trans hf)

theorem Agrees.effect_told (h : e.Agrees) (hc : c∈e.clues) (heffect : Effect c p p') {t : GateType} {priority : Int}
    (htells : c.Tells id t priority) : (p'.classes.known id).isSome := by
  have hvector : ∀ {id priority}, ¬c.Tells id .vector priority := fun htells =>
    h.vectors _ _ (.inr ⟨c,hc,_,htells⟩) rfl
  cases heffect with
  | silent hnone _ _ => exact absurd htells (hnone id t priority)
  | hinted htells' _ => exact absurd htells' hvector
  | bound htells' _ => exact absurd htells' hvector
  | told htells' _ htold _ =>
    rw [htold.known,(htells.unique htells').1,if_pos rfl]
    rfl
  | kept hmeets _ _ _ _ => exact absurd htells (hmeets.not_tells _ _ _)
  | passed hmeets _ _ _ _ _ => exact absurd htells (hmeets.not_tells _ _ _)
  | joined hmeets _ _ _ => exact absurd htells (hmeets.not_tells _ _ _)

theorem Agrees.effect_met (h : e.Agrees) (hfollows : e.Follows done p) (hp : Ranked p.classes) (heffect : Effect c p p')
    {a b : String} (hmeets : c.Meets a b) :
    p'.classes.rootOf a=p'.classes.rootOf b ∨ ((p'.classes.known a).isSome ∧ (p'.classes.known b).isSome) := by
  have hkeeps := fun x => heffect.known_isSome (x := x) hp
  cases heffect with
  | silent _ hnone _ => exact absurd hmeets (hnone a b)
  | hinted htells _ => exact absurd htells (hmeets.not_tells _ _ _)
  | bound htells _ => exact absurd htells (hmeets.not_tells _ _ _)
  | told htells _ _ _ => exact absurd htells (hmeets.not_tells _ _ _)
  | kept _ hknown hf _ _ => exact absurd hf (h.type_ne_vector hfollows hknown)
  | @passed x y f _ hmeets' hknown _ _ htold _ =>
    have hx : (p'.classes.known x).isSome := hkeeps x (by rw [hknown]; rfl)
    have hy : (p'.classes.known y).isSome := by
      rw [htold.known,if_pos rfl]
      rfl
    rcases hmeets.unique hmeets' with ⟨rfl,rfl⟩ | ⟨rfl,rfl⟩
    · exact .inr ⟨hx,hy⟩
    · exact .inr ⟨hy,hx⟩
  | @joined x y hmeets' _ hjoins _ =>
    have hxy := (hjoins.same x y).2 (.inr (.inl ⟨rfl,rfl⟩))
    rcases hmeets.unique hmeets' with ⟨rfl,rfl⟩ | ⟨rfl,rfl⟩
    · exact .inl hxy
    · exact .inl hxy.symm

theorem Agrees.effect (h : e.Agrees) (hfollows : e.Follows done p) (hp : Ranked p.classes) (hc : c∈e.clues)
    (heffect : Effect c p p') (hdefaults : p'.defaults=p.defaults) : e.Follows (done++[c]) p' := by
  obtain ⟨hclasses,htypes,hhints⟩ := h.effect_classes hfollows hp hc heffect
  have hkeeps := fun x => heffect.known_isSome (x := x) hp
  refine ⟨hclasses,htypes,fun o ho hasserted => hkeeps _ (hfollows.own o ho hasserted),fun c' hc' => ?_,
    fun c' hc' => ?_,hhints.trans hfollows.hints,hdefaults.trans hfollows.defaults⟩
  · intro id t priority htells
    rcases mem_append.1 hc' with hc' | hc'
    · exact hkeeps _ (hfollows.told c' hc' id t priority htells)
    · cases mem_singleton.1 hc'
      exact h.effect_told hc heffect htells
  · intro a b hmeets
    rcases mem_append.1 hc' with hc' | hc'
    · exact (hfollows.met c' hc' a b hmeets).imp heffect.roots fun hknown => ⟨hkeeps _ hknown.1,hkeeps _ hknown.2⟩
    · cases mem_singleton.1 hc'
      exact h.effect_met hfollows hp heffect hmeets

theorem Begun.follows (h : e.Begun p) : e.Follows [] p := by
  refine ⟨fun x y hxy => ?_,fun x f hf => ?_,fun o ho hasserted => ?_,by simp,by simp,h.hints,h.defaults⟩
  · rw [h.roots,h.roots] at hxy
    exact hxy ▸ .refl x
  · by_cases hx : x∈e.ids
    · obtain ⟨o,ho,rfl⟩ := mem_map.1 hx
      exact ⟨o.1,.refl _,.inl ⟨o.2,f,ho,(h.own o ho).symm.trans hf,rfl⟩⟩
    · rw [h.others x hx] at hf
      cases hf
  · rwa [h.own o ho]

/-- After all wires a type is known of all nodes of a component or of none. -/
theorem Follows.known_iff (h : e.Follows e.clues p) (hp : Ranked p.classes) (hxy : e.Together x y) :
    (p.classes.known x).isSome ↔ (p.classes.known y).isSome := by
  induction hxy with
  | rel a b hab =>
    obtain ⟨c,hc,hmeets⟩ := hab
    rcases h.met c hc a b hmeets with hroots | ⟨ha,hb⟩
    · rw [hp.known_congr hroots]
    · exact ⟨fun _ => hb,fun _ => ha⟩
  | refl a => exact Iff.rfl
  | symm a b _ ih => exact ih.symm
  | trans a b c _ _ ihab ihbc => exact ihab.trans ihbc

theorem Follows.roots_eq (h : e.Follows e.clues p) (hp : Ranked p.classes) (hxy : e.Together x y)
    (hx : p.classes.known x=none) : p.classes.rootOf x=p.classes.rootOf y := by
  induction hxy with
  | rel a b hab =>
    obtain ⟨c,hc,hmeets⟩ := hab
    rcases h.met c hc a b hmeets with hroots | ⟨ha,-⟩
    · exact hroots
    · rw [hx] at ha
      cases ha
  | refl a => rfl
  | symm a b hab ih =>
    refine (ih ?_).symm
    rw [← Option.isNone_iff_eq_none,← Option.not_isSome,Bool.not_eq_true'] at hx ⊢
    simpa [hx] using h.known_iff hp hab
  | trans a b c hab hbc ihab ihbc =>
    have hroots := ihab hx
    exact hroots.trans (ihbc ((hp.known_congr hroots).symm.trans hx))

theorem startsOf_find (h : (own.map (·.1)).Nodup) {o : String×Own} (ho : o∈own) :
    (startsOf own).find o.1=some o.2.start? := by
  have hstarts : startsOf own=(own.map fun o => (o.1,o.2.start?)).foldl (fun t e => t.put e.1 e.2) Table.empty := by
    rw [foldl_map,startsOf]
  rw [hstarts]
  exact (Table.find_foldl_put_entries (by rwa [map_map]) _).1 _ (mem_map_of_mem ho)

theorem votesOf_eq (h : p.hints=Table.empty) (members : List String) :
    votesOf p members=tally (members.filterMap fun m => (p.defaults.find m).join) := by
  have hhints : ∀ n, members.foldl (fun n m => n+(p.hints.find m).getD 0) n=n := by
    intro n
    rw [h]
    induction members with
    | nil => rfl
    | cons m rest ih => exact ih
  unfold votesOf
  simp only [hhints]
  rfl

theorem Follows.votesOf_eq (h : e.Follows e.clues p) (hids : e.ids.Nodup) (hp : Ranked p.classes)
    (hnone : p.classes.known id=none) :
    votesOf p (e.ids.filter fun y => p.classes.rootOf y == p.classes.rootOf id)=tally (e.defaultsOf id) := by
  rw [Evidence.votesOf_eq h.hints,h.defaults,filterMap_filter,ids,filterMap_map]
  refine congrArg tally (filterMap_congr fun o ho => ?_)
  have hmember : p.classes.rootOf o.1=p.classes.rootOf id ↔ e.Together id o.1 :=
    ⟨fun hroots => h.classes _ _ hroots.symm,fun htogether => (h.roots_eq hp htogether hnone).symm⟩
  simp only [Function.comp_apply,beq_iff_eq,startsOf_find hids ho,Option.join_some]
  by_cases htogether : e.Together id o.1
  · rw [if_pos (hmember.2 htogether),if_pos htogether]
  · rw [if_neg fun hroots => htogether (hmember.1 hroots),if_neg htogether]

/-- After all wires every node gets the type on which its component agrees. -/
theorem Follows.chosen_settles (h : e.Follows e.clues p) (hagrees : e.Agrees) (hp : Ranked p.classes) (id : String) :
    e.Settles id (chosen? p e.ids id) := by
  refine ⟨fun other u hother hu => ?_,fun hnone => ?_⟩
  · have hknown : (p.classes.known other).isSome := by
      rcases hu with ⟨o,f,ho,hf,-⟩ | ⟨c,hc,priority,htells⟩
      · exact h.own _ ho (by rw [hf]; rfl)
      · exact h.told c hc other u priority htells
    obtain ⟨f,hf⟩ := Option.isSome_iff_exists.1 ((h.known_iff hp hother).2 hknown)
    obtain ⟨y,hy,ht⟩ := h.types id f hf
    rw [chosen?,hf]
    exact congrArg some (hagrees.types y other f.type u (.trans _ _ _ (.symm _ _ hy) hother) ht hu)
  · have hunknown : p.classes.known id=none := by
      cases hf : p.classes.known id with
      | none => rfl
      | some f =>
        obtain ⟨y,hy,ht⟩ := h.types id f hf
        exact absurd ht (hnone y f.type hy)
    rw [chosen?,hunknown,h.votesOf_eq hagrees.ids hp hunknown]
    exact winner?_tally (e.defaultsOf id)

theorem Agrees.isItem_eq (h : e.Agrees) (hc : c∈e.clues) (hread : c.Read e.setting (startsOf e.own)) :
    isItem e.setting c.wire=.ok false := by
  obtain ⟨role,hrole,-⟩ := bind_eq_ok.1 hread.source
  have hword := h.items c hc role hrole
  refine bind_eq_ok.2 ⟨role,hrole,?_⟩
  rw [if_pos (by simpa using hword)]
  rfl

/-- Inference gives every node the type on which its component agrees. -/
theorem Agrees.conclusion_eq (h : e.Agrees) (hread : ∀ c∈e.clues, c.Read e.setting (startsOf e.own)) :
    ∃ choose, e.conclusion=.ok (choices choose e.ids) ∧ ∀ id, e.Settles id (choose id) := by
  have hbegun := begun_spec h.ids
  obtain ⟨p,hp⟩ := followAll_ok (p := e.begun) hread (fun c hc a b hab => (hbegun.items a).2 (by
    rcases (hread c hc).meets hab with ⟨rfl,-⟩ | ⟨rfl,-⟩
    · exact (h.ends c hc).1
    · exact (h.ends c hc).2)) hbegun.ranked
  obtain ⟨hranked,hfollows⟩ := followAll_invariant e.Follows []
    (fun done c q q' hc hq hholds heffect hkept => h.effect hholds hq hc heffect hkept) hbegun.ranked hbegun.follows hp
  have hitems := followItems_of_none (fun c hc => h.isItem_eq hc (hread c hc)) p
  refine ⟨chosen? p e.ids,?_,hfollows.chosen_settles h hranked⟩
  rw [← conclude_eq hranked]
  exact bind_eq_ok.2 ⟨p,hp,bind_eq_ok.2 ⟨p,hitems,rfl⟩⟩

/-- Components and what is asserted in them do not depend on the order of the wires. -/
theorem settles_of_perm {clues : List Clue} (h : clues.Perm e.clues) :
    ({ e with clues := clues } : Evidence).Settles=e.Settles ∧
      (e.Agrees→({ e with clues := clues } : Evidence).Agrees) := by
  have hmeets : ({ e with clues := clues } : Evidence).Meets=e.Meets := by
    funext a b
    exact propext (exists_congr fun c => and_congr_left fun _ => h.mem_iff)
  have htogether : ({ e with clues := clues } : Evidence).Together=e.Together := by
    unfold Together
    rw [hmeets]
  have hasserts : ({ e with clues := clues } : Evidence).Asserts=e.Asserts := by
    funext id t
    exact propext (or_congr_right (exists_congr fun c => and_congr_left fun _ => h.mem_iff))
  refine ⟨?_,fun hagrees => ⟨hagrees.ids,fun c hc => hagrees.ends c (h.mem_iff.1 hc),
    fun c hc => hagrees.items c (h.mem_iff.1 hc),?_,?_⟩⟩
  · unfold Settles defaultsOf
    rw [htogether,hasserts]
  · rw [hasserts]
    exact hagrees.vectors
  · rw [htogether,hasserts]
    exact hagrees.types

end Evidence

theorem mapM_perm {ε α β : Type} {f : α→Except ε β} {items items' : List α} {results : List β}
    (hperm : items.Perm items') (h : items.mapM f=.ok results) :
    ∃ results', items'.mapM f=.ok results' ∧ results'.Perm results := by
  induction hperm generalizing results with
  | nil => exact ⟨results,h,.refl _⟩
  | cons x _ ih =>
    rw [mapM_cons] at h
    obtain ⟨y,ys,hy,hys,h⟩ := bind_bind_eq_ok.1 h
    cases h
    obtain ⟨ys',hys',hperm'⟩ := ih hys
    refine ⟨y::ys',?_,hperm'.cons y⟩
    rw [mapM_cons]
    exact bind_eq_ok.2 ⟨y,hy,bind_eq_ok.2 ⟨ys',hys',rfl⟩⟩
  | swap x x' rest =>
    rw [mapM_cons] at h
    obtain ⟨y',zs,hy',hzs,h⟩ := bind_bind_eq_ok.1 h
    rw [mapM_cons] at hzs
    obtain ⟨y,ys,hy,hys,hzs⟩ := bind_bind_eq_ok.1 hzs
    cases h
    cases hzs
    refine ⟨y::y'::ys,?_,.swap y' y ys⟩
    rw [mapM_cons,mapM_cons]
    exact bind_eq_ok.2 ⟨y,hy,bind_eq_ok.2
      ⟨y'::ys,bind_eq_ok.2 ⟨y',hy',bind_eq_ok.2 ⟨ys,hys,rfl⟩⟩,rfl⟩⟩
  | trans _ _ ih ih' =>
    obtain ⟨results',hresults',hperm'⟩ := ih h
    obtain ⟨results'',hresults'',hperm''⟩ := ih' hresults'
    exact ⟨results'',hresults'',hperm''.trans hperm'⟩

def edgesOf (graph : Json) : Except Failure (List Json) := do ((← graph.field "edges").orElse (.arr [])).each

variable {graph graph' placements index rules modules : Json} {edges edges' : List Json}

theorem evidence_perm (h : evidence graph placements index rules modules=.ok e)
    (hnodes : graph'.field "nodes" = graph.field "nodes") (hedges : edgesOf graph=.ok edges)
    (hedges' : edgesOf graph'=.ok edges') (hperm : edges.Perm edges') :
    ∃ clues, evidence graph' placements index rules modules=.ok { e with clues := clues } ∧ clues.Perm e.clues := by
  obtain ⟨nodes,items,hnode,hitems,h⟩ := bind_bind_eq_ok.1 h
  obtain ⟨named,own,hnamed,hown,h⟩ := bind_bind_eq_ok.1 h
  obtain ⟨records,listed,hrecords,hlisted,h⟩ := bind_bind_eq_ok.1 h
  obtain ⟨clues,hclues,h⟩ := bind_eq_ok.1 h
  cases h
  have hsame : listed=edges := Except.ok.inj ((bind_eq_ok.2 ⟨records,hrecords,hlisted⟩).symm.trans hedges)
  obtain ⟨clues',hclues',hclues''⟩ := mapM_perm (hperm.filterMap Wire.ofJson?) (hsame ▸ hclues)
  obtain ⟨records',hrecords',hlisted'⟩ := bind_eq_ok.1 hedges'
  exact ⟨clues',bind_eq_ok.2 ⟨nodes,hnodes.trans hnode,bind_eq_ok.2 ⟨items,hitems,bind_eq_ok.2
    ⟨named,hnamed,bind_eq_ok.2 ⟨own,hown,bind_eq_ok.2 ⟨records',hrecords',bind_eq_ok.2
    ⟨edges',hlisted',bind_eq_ok.2 ⟨clues',hclues',rfl⟩⟩⟩⟩⟩⟩⟩,hclues''⟩

/-- On a graph without conflicts inference succeeds and gives every node the type on which its component agrees: what is
asserted somewhere in the component, or else the type most of its nodes start from. The result is the same, down to the
order of its entries, however the wires are ordered. -/
theorem infer_agreed (h : evidence graph placements index rules modules = .ok e) (hagrees : e.Agrees) :
    ∃ types, infer graph placements index rules modules = .ok types ∧
      (∀ id ∈ e.ids, e.Settles id (types.find id)) ∧
      ∀ graph' edges edges', graph'.field "nodes" = graph.field "nodes" → edgesOf graph = .ok edges →
        edgesOf graph' = .ok edges' → edges.Perm edges' → infer graph' placements index rules modules = .ok types := by
  obtain ⟨choose,hchoose,hsettles⟩ := hagrees.conclusion_eq (evidence_read h)
  refine ⟨choices choose e.ids,?_,fun id hid => ?_,fun graph' edges edges' hnodes hedges hedges' hperm => ?_⟩
  · rw [infer_eq h hagrees.ids,hchoose]
  · rw [choices_find choose hid]
    exact hsettles id
  · obtain ⟨clues,hread,hclues⟩ := evidence_perm h hnodes hedges hedges' hperm
    obtain ⟨hsame,hagrees'⟩ := Evidence.settles_of_perm hclues
    obtain ⟨choose',hchoose',hsettles'⟩ := (hagrees' hagrees).conclusion_eq (evidence_read hread)
    rw [hsame] at hsettles'
    rw [infer_eq hread hagrees.ids,hchoose']
    exact congrArg Except.ok (choices_congr fun id _ => (hsettles' id).unique (hsettles id))

end

def plainNode (id : String) (attrs : List (String×Json)) : Json := .obj [("id",.str id),("attrs",.obj attrs)]

def signalWire (a b : String) : Json :=
  .obj [("from_node",.str a),("from_port",.str "Signal"),("to_node",.str b),("to_port",.str "Signal")]

def twoLines : Json :=
  .obj [("nodes",.arr [plainNode "a" [("data_type",.int 2)],plainNode "b" [],plainNode "c" [],plainNode "d" []]),
    ("edges",.arr [signalWire "a" "b",signalWire "c" "d"])]

def linePlacements : Json :=
  .obj [("a",.obj [("friendly_name",.str "Input")]),("b",.obj [("friendly_name",.str "Output")]),
    ("c",.obj [("friendly_name",.str "Input"),("op_type",.str "10")]),("d",.obj [("friendly_name",.str "Output")])]

def lineIndex : Json :=
  .obj [("input",.obj [("outputs",.arr [.str "Signal"])]),("output",.obj [("inputs",.arr [.str "Signal"])])]

def lineModules : Json := .obj [("10",.obj [("gate_data_type",.int 4)])]

def lineEvidence : Evidence where
  setting := ⟨linePlacements,lineIndex,.obj [],lineModules,
    [("a",plainNode "a" [("data_type",.int 2)]),("b",plainNode "b" []),("c",plainNode "c" []),
      ("d",plainNode "d" [])]⟩
  own := [("a",.explicit .number),("b",.module none false),("c",.module (some .string) false),
    ("d",.module none false)]
  clues := [⟨⟨"a","Signal","b","Signal"⟩,some (.ofNode "a"),some (.ofNode "b")⟩,
    ⟨⟨"c","Signal","d","Signal"⟩,some (.ofNode "c"),some (.ofNode "d")⟩]

theorem infer_agreed_twoLines :
    evidence twoLines linePlacements lineIndex (.obj []) lineModules = .ok lineEvidence ∧ lineEvidence.Agrees ∧
      ∃ types, infer twoLines linePlacements lineIndex (.obj []) lineModules = .ok types ∧
        types.find "b" = some .number ∧ lineEvidence.Settles "d" (types.find "d") ∧
        infer (.obj [("nodes", .arr [plainNode "a" [("data_type", .int 2)], plainNode "b" [], plainNode "c" [],
          plainNode "d" []]), ("edges", .arr [signalWire "c" "d", signalWire "a" "b"])])
          linePlacements lineIndex (.obj []) lineModules = .ok types := by
  have hread : evidence twoLines linePlacements lineIndex (.obj []) lineModules = .ok lineEvidence := rfl
  -- only one node asserts anything
  have honly : ∀ id t, lineEvidence.Asserts id t → t = .number := by
    rintro id t (⟨o,f,ho,hf,rfl⟩ | ⟨c,hc,priority,htells⟩)
    · simp only [lineEvidence,mem_cons,Prod.mk.injEq,not_mem_nil,or_false] at ho
      rcases ho with ⟨-,rfl⟩ | ⟨-,rfl⟩ | ⟨-,rfl⟩ | ⟨-,rfl⟩ <;> cases hf
      rfl
    · simp only [lineEvidence,mem_cons,not_mem_nil,or_false] at hc
      rcases hc with rfl | rfl <;> simp [Clue.Tells] at htells
  have hagrees : lineEvidence.Agrees := by
    refine ⟨by decide,by simp [lineEvidence,Evidence.ids],fun c hc role hrole => ?_,fun id t ht => ?_,
      fun a b t u _ ht hu => (honly a t ht).trans (honly b u hu).symm⟩
    · simp only [lineEvidence,mem_cons,not_mem_nil,or_false] at hc
      rcases hc with rfl | rfl <;> cases hrole <;> decide +kernel
    · rw [honly id t ht]
      decide
  obtain ⟨types,hinfer,hsettles,horder⟩ := infer_agreed hread hagrees
  have htogether : lineEvidence.Together "b" "a" :=
    .symm _ _ (.rel _ _ ⟨_,mem_cons_self,.inl ⟨rfl,rfl⟩⟩)
  have hasserts : lineEvidence.Asserts "a" .number := .inl ⟨_,⟨100,.number⟩,mem_cons_self,rfl,rfl⟩
  refine ⟨hread,hagrees,types,hinfer,?_,hsettles "d" (by decide),horder _ _ _ rfl rfl rfl (.swap _ _ _)⟩
  exact (hsettles "b" (by decide)).1 "a" .number htogether hasserts

end ChipForge.Inference
