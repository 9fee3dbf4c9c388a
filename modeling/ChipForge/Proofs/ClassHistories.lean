import ChipForge.Proofs.NameClasses
import Mathlib.Logic.Relation

/-! A run is a list of searches, assertions and unions, in any order. The classes, the type known of each, and the
conflicts can be read off the run alone. -/
namespace ChipForge.Inference.UnionFind
open List

/-- Operations on classes. -/
inductive Op
  | find (x : String)
  | assert (x : String) (t : GateType) (priority : Int)
  | union (a b : String)
  deriving DecidableEq

def Op.names : Op→List String
  | find x => [x]
  | assert x _ _ => [x]
  | union a b => [a,b]

def Op.perform (uf : UnionFind) : Op→Except Failure UnionFind
  | find x => .ok (uf.find x).2
  | assert x t priority => .ok (uf.assert x t priority)
  | union a b => (uf.union a b).1.map fun _ => (uf.union a b).2

def performAll : UnionFind→List Op→Except Failure UnionFind
  | uf, [] => .ok uf
  | uf, op::rest => do performAll (← op.perform uf) rest

/-- Names that the unions of a run put into one class. -/
def Related (ops : List Op) : String→String→Prop := Relation.EqvGen fun a b => .union a b∈ops

/-- An assertion that a run made of a member of the class of a name. -/
def AssertedOf (ops : List Op) (uf : UnionFind) (x : String) (f : Fixed) : Prop :=
  ∃ y, .assert y f.type f.priority∈ops ∧ uf.rootOf y=uf.rootOf x

/-- Nothing is known if nothing was asserted, and else an assertion that none exceeds in priority. -/
def Strongest (asserted : Fixed→Prop) : Option Fixed→Prop
  | none => ∀ f, ¬asserted f
  | some f => asserted f ∧ ∀ g, asserted g → g.priority ≤ f.priority

section
variable {S T : Fixed→Prop} {known other result : Option Fixed} {f g : Fixed}

theorem Strongest.congr (h : Strongest S known) (hST : ∀ f, T f ↔ S f) : Strongest T known := by
  rwa [show T=S from funext fun f => propext (hST f)]

theorem Strongest.eq_none_iff (h : Strongest S known) : known=none ↔ ∀ f, ¬S f := by
  cases known with
  | none => exact ⟨fun _ => h,fun _ => rfl⟩
  | some f => exact ⟨fun hnone => (nomatch hnone),fun hall => absurd h.1 (hall f)⟩

theorem Strongest.raised (h : Strongest S known) (g : Fixed) :
    Strongest (fun f => S f ∨ f=g) (some (raised g.type g.priority known)) := by
  rcases raised_spec g.type g.priority known with ⟨hraised,hlt⟩ | ⟨f,rfl,hraised,hle⟩
  · rw [hraised]
    refine ⟨.inr rfl,fun f hf => ?_⟩
    rcases hf with hf | rfl
    · cases known with
      | none => exact absurd hf (h f)
      | some cur => exact Int.le_of_lt (Int.lt_of_le_of_lt (h.2 f hf) (hlt cur rfl))
    · exact Int.le_refl _
  · rw [hraised]
    refine ⟨.inl h.1,fun f' hf' => ?_⟩
    rcases hf' with hf' | rfl
    · exact h.2 f' hf'
    · exact hle

theorem Strongest.merged (h : Strongest S known) (h' : Strongest T other) (hmerged : Merged known other result) :
    Strongest (fun f => S f ∨ T f) result := by
  cases known with
  | none =>
    rw [show result=other from hmerged]
    exact h'.congr fun f => or_iff_right (h f)
  | some f =>
    cases other with
    | none =>
      rw [show result=some f from hmerged]
      exact h.congr fun f => or_iff_left (h' f)
    | some g =>
      obtain ⟨t,rfl,hwinner⟩ := hmerged
      refine ⟨?_,fun e he => ?_⟩
      · rcases hwinner with ⟨rfl,hle⟩ | ⟨rfl,hle⟩
        · rw [Int.max_eq_left hle]
          exact .inl h.1
        · rw [Int.max_eq_right hle]
          exact .inr h'.1
      · rcases he with he | he
        · exact Int.le_trans (h.2 e he) (Int.le_max_left _ _)
        · exact Int.le_trans (h'.2 e he) (Int.le_max_right _ _)

/-- Assertions that all name one type. -/
def Uniform (asserted : Fixed→Prop) : Prop := ∀ f g, asserted f → asserted g → f.type=g.type

theorem uniform_congr (hST : ∀ f, T f ↔ S f) : Uniform S ↔ Uniform T := by
  rw [show T=S from funext fun f => propext (hST f)]

theorem Uniform.mono (h : Uniform T) (hST : ∀ f, S f→T f) : Uniform S := fun f g hf hg => h f g (hST f hf) (hST g hg)

theorem Strongest.type_eq (h : Strongest S known) (h' : Strongest S other)
    (hagree : Uniform fun f => Strongest S (some f)) : known.map Fixed.type=other.map Fixed.type := by
  cases known with
  | none => rw [h'.eq_none_iff.2 h]
  | some f =>
    cases other with
    | none => exact absurd h.1 (h' f)
    | some g => exact congrArg some (hagree f g h h')

theorem uniform_or_iff (h : Strongest S known) (h' : Strongest T other) :
    Uniform (fun f => S f ∨ T f) ↔ Uniform S ∧ Uniform T ∧ ∀ f g, known=some f → other=some g → f.type=g.type := by
  constructor
  · intro hall
    refine ⟨hall.mono fun f hf => .inl hf,hall.mono fun f hf => .inr hf,fun f g hf hg => ?_⟩
    subst hf hg
    exact hall f g (.inl h.1) (.inr h'.1)
  · rintro ⟨hS,hT,hboth⟩
    have hcross : ∀ f g, S f→T g → f.type=g.type := by
      intro f g hf hg
      cases known with
      | none => exact absurd hf (h f)
      | some k =>
        cases other with
        | none => exact absurd hg (h' g)
        | some l => exact ((hS f k hf h.1).trans (hboth k l rfl rfl)).trans (hT l g h'.1 hg)
    rintro f g (hf | hf) (hg | hg)
    · exact hS f g hf hg
    · exact hcross f g hf hg
    · exact (hcross g f hg hf).symm
    · exact hT f g hf hg

theorem uniform_insert_iff (h : Strongest S known) (g : Fixed) :
    Uniform (fun f => S f ∨ f=g) ↔ Uniform S ∧ ∀ f, known=some f → f.type=g.type := by
  have hsingle : Strongest (fun f => f=g) (some g) := ⟨rfl,fun f hf => Int.le_of_eq (congrArg _ hf)⟩
  have huniform : Uniform fun f => f=g := fun f f' hf hf' => congrArg _ (hf.trans hf'.symm)
  rw [uniform_or_iff h hsingle,and_iff_right huniform]
  refine and_congr_right fun _ => ⟨fun hall f hf => hall f g hf rfl,fun hall f g' hf hg' => ?_⟩
  cases hg'
  exact hall f hf

end

/-- Classes that hold what a run over some items told them. -/
structure Reflects (items : List String) (ops : List Op) (uf : UnionFind) : Prop where
  ranked : Ranked uf
  rooted : Rooted uf
  items : ∀ x, (uf.rank.find x).isSome ↔ x∈items
  classes : ∀ x y, uf.rootOf x=uf.rootOf y ↔ Related ops x y
  strongest : ∀ x, Strongest (AssertedOf ops uf x) (uf.known x)
  conflicts : uf.conflicts=[] ↔ ∀ x, Uniform (AssertedOf ops uf x)

section
variable {items : List String} {ops : List Op} {uf uf' : UnionFind} {op : Op} {x y a b : String} {f : Fixed}

theorem rootOf_eq_of_related (hunions : ∀ a b, .union a b∈ops → uf.rootOf a=uf.rootOf b) (h : Related ops x y) :
    uf.rootOf x=uf.rootOf y := by
  induction h with
  | rel a b hab => exact hunions a b hab
  | refl x => rfl
  | symm x y _ ih => exact ih.symm
  | trans x y z _ _ ihxy ihyz => exact ihxy.trans ihyz

theorem Related.append (h : Related ops x y) (op : Op) : Related (ops++[op]) x y :=
  Relation.EqvGen.mono (fun _ _ hab => mem_append_left _ hab) _ _ h

theorem related_append_iff (hop : ∀ a b, op≠.union a b) : Related (ops++[op]) x y ↔ Related ops x y := by
  refine ⟨Relation.EqvGen.mono (fun a b hab => ?_) x y,fun h => h.append op⟩
  rcases mem_append.1 hab with hab | hab
  · exact hab
  · exact absurd (mem_singleton.1 hab).symm (hop a b)

theorem assertedOf_append (hroots : ∀ y, uf'.rootOf y=uf.rootOf y) :
    AssertedOf (ops++[op]) uf' x f ↔
      AssertedOf ops uf x f ∨ ∃ y, op=.assert y f.type f.priority ∧ uf.rootOf y=uf.rootOf x := by
  simp only [AssertedOf,mem_append,mem_singleton,hroots,or_and_right,exists_or]
  simp only [eq_comm]

theorem reflects_ofItems (items : List String) : Reflects items [] (ofItems items) := by
  obtain ⟨hranked,hroots,hknown,hitems⟩ := ranked_ofItems items
  have hnone : ∀ x f, ¬AssertedOf [] (ofItems items) x f := fun x f ⟨y,hy,_⟩ => not_mem_nil hy
  refine ⟨hranked,fun x _ => hroots x,hitems,fun x y => ⟨fun hxy => ?_,?_⟩,fun x => ?_,?_⟩
  · rw [hroots,hroots] at hxy
    exact hxy ▸ .refl x
  · exact rootOf_eq_of_related fun a b hab => absurd hab not_mem_nil
  · rw [hknown]
    exact hnone x
  · exact iff_of_true rfl fun x f g hf => absurd hf (hnone x f)

theorem Reflects.find (h : Reflects items ops uf) (x : String) : Reflects items (ops++[.find x]) (uf.find x).2 := by
  have hsame := h.ranked.alike_find x
  have hasserted : ∀ y f, AssertedOf (ops++[.find x]) (uf.find x).2 y f ↔ AssertedOf ops uf y f := fun y f =>
    (assertedOf_append hsame.roots).trans (or_iff_left fun ⟨_,hop,_⟩ => nomatch hop)
  refine ⟨hsame.ranked,hsame.rooted h.rooted,fun y => ?_,fun y z => ?_,fun y => ?_,?_⟩
  · rw [hsame.rank,h.items]
  · rw [hsame.roots,hsame.roots,h.classes,related_append_iff (by simp)]
  · rw [hsame.known h.ranked]
    exact (h.strongest y).congr (hasserted y)
  · rw [hsame.conflicts,h.conflicts]
    exact forall_congr' fun y => uniform_congr (hasserted y)

theorem Reflects.assert (h : Reflects items ops uf) (x : String) (f : Fixed) :
    Reflects items (ops++[.assert x f.type f.priority]) (uf.assert x f.type f.priority) := by
  have htold := h.ranked.assert_told x f.type f.priority
  have hasserted : ∀ y g, AssertedOf (ops++[.assert x f.type f.priority]) (uf.assert x f.type f.priority) y g ↔
      AssertedOf ops uf y g ∨ (uf.rootOf y=uf.rootOf x ∧ g=f) := by
    intro y g
    rw [assertedOf_append htold.roots]
    refine or_congr_right ⟨?_,?_⟩
    · rintro ⟨z,hop,hz⟩
      cases f
      cases g
      cases hop
      exact ⟨hz.symm,rfl⟩
    · rintro ⟨hy,rfl⟩
      exact ⟨x,rfl,hy.symm⟩
  refine ⟨htold.ranked,htold.rooted h.rooted,fun y => ?_,fun y z => ?_,fun y => ?_,?_⟩
  · rw [htold.rank,h.items]
  · rw [htold.roots,htold.roots,h.classes,related_append_iff (by simp)]
  · rw [htold.known]
    split_ifs with hy
    · exact ((h.strongest y).raised f).congr fun g => by rw [hasserted,and_iff_right hy]
    · exact (h.strongest y).congr fun g => by rw [hasserted,or_iff_left fun hg => hy hg.1]
  · rw [htold.conflicts,h.conflicts]
    constructor
    · rintro ⟨hall,hx⟩ y
      by_cases hy : uf.rootOf y=uf.rootOf x
      · rw [← h.ranked.known_congr hy] at hx
        exact (uniform_congr fun g => by rw [hasserted,and_iff_right hy]).1
          ((uniform_insert_iff (h.strongest y) f).2 ⟨hall y,hx⟩)
      · exact (hall y).mono fun g hg => ((hasserted y g).1 hg).resolve_right fun hyx => hy hyx.1
    · intro hall
      refine ⟨fun y => (hall y).mono fun g hg => (hasserted y g).2 (.inl hg),?_⟩
      have hx := (uniform_congr fun g => by rw [hasserted,and_iff_right rfl]).2 (hall x)
      exact ((uniform_insert_iff (h.strongest x) f).1 hx).2

theorem Reflects.union (h : Reflects items ops uf) (hunion : uf.union a b=(.ok (),uf')) :
    Reflects items (ops++[.union a b]) uf' := by
  have hjoins := h.ranked.union_joins hunion
  have hmem : ∀ y g, AssertedOf (ops++[.union a b]) uf' y g ↔
      ∃ z, .assert z g.type g.priority∈ops ∧ uf'.rootOf z=uf'.rootOf y := by
    intro y g
    simp [AssertedOf]
  have hgrows : ∀ y g, AssertedOf ops uf y g→AssertedOf (ops++[.union a b]) uf' y g := by
    rintro y g ⟨z,hz,hroot⟩
    exact (hmem y g).2 ⟨z,hz,(hjoins.same z y).2 (.inl hroot)⟩
  have hjoined : ∀ y, uf.OfEither a b y →
      ∀ g, AssertedOf (ops++[.union a b]) uf' y g ↔ AssertedOf ops uf a g ∨ AssertedOf ops uf b g := by
    intro y hy g
    rw [hmem]
    simp only [AssertedOf,← exists_or,← and_or_left]
    exact exists_congr fun z => and_congr_right fun _ => hjoins.same_joined hy z
  have hother : ∀ y, ¬uf.OfEither a b y →
      ∀ g, AssertedOf (ops++[.union a b]) uf' y g ↔ AssertedOf ops uf y g := by
    intro y hy g
    refine ⟨fun hg => ?_,hgrows y g⟩
    obtain ⟨z,hz,hroot⟩ := (hmem y g).1 hg
    rcases (hjoins.same z y).1 hroot with hsame | ⟨-,hyb⟩ | ⟨-,hya⟩
    · exact ⟨z,hz,hsame⟩
    · exact absurd (.inr hyb) hy
    · exact absurd (.inl hya) hy
  refine ⟨hjoins.ranked,hjoins.rooted h.rooted,fun y => ?_,fun y z => ⟨fun hyz => ?_,?_⟩,fun y => ?_,?_⟩
  · rw [hjoins.items,h.items]
  · have hold : ∀ {y z}, uf.rootOf y=uf.rootOf z→Related (ops++[.union a b]) y z := fun hyz =>
      ((h.classes _ _).1 hyz).append _
    have hab : Related (ops++[.union a b]) a b := .rel a b (mem_append_right _ (mem_singleton_self _))
    rcases (hjoins.same y z).1 hyz with hsame | ⟨hy,hz⟩ | ⟨hy,hz⟩
    · exact hold hsame
    · exact ((hold hy).trans _ _ _ hab).trans _ _ _ (hold hz.symm)
    · exact ((hold hy).trans _ _ _ (hab.symm _ _)).trans _ _ _ (hold hz.symm)
  · refine rootOf_eq_of_related fun c d hcd => (hjoins.same c d).2 ?_
    rcases mem_append.1 hcd with hcd | hcd
    · exact .inl ((h.classes c d).2 (.rel c d hcd))
    · cases mem_singleton.1 hcd
      exact .inr (.inl ⟨rfl,rfl⟩)
  · by_cases hy : uf.OfEither a b y
    · exact ((h.strongest a).merged (h.strongest b) (hjoins.known y hy)).congr (hjoined y hy)
    · rw [hjoins.others y hy]
      exact (h.strongest y).congr (hother y hy)
  · have hboth := uniform_or_iff (h.strongest a) (h.strongest b)
    rw [hjoins.conflicts,h.conflicts]
    constructor
    · rintro ⟨hall,hab⟩ y
      by_cases hy : uf.OfEither a b y
      · exact (uniform_congr (hjoined y hy)).1 (hboth.2 ⟨hall a,hall b,hab⟩)
      · exact (uniform_congr (hother y hy)).1 (hall y)
    · intro hall
      exact ⟨fun y => (hall y).mono (hgrows y),(hboth.1 ((uniform_congr (hjoined a (.inl rfl))).2 (hall a))).2.2⟩

theorem Op.perform_reflects (h : Reflects items ops uf) (hop : ∀ x∈op.names, x∈items) :
    ∃ uf', op.perform uf=.ok uf' ∧ Reflects items (ops++[op]) uf' := by
  cases op with
  | find x => exact ⟨_,rfl,h.find x⟩
  | assert x t priority => exact ⟨_,rfl,h.assert x ⟨priority,t⟩⟩
  | union a b =>
    have ha : (uf.rank.find a).isSome := (h.items a).2 (hop a mem_cons_self)
    have hb : (uf.rank.find b).isSome := (h.items b).2 (hop b (mem_cons_of_mem _ mem_cons_self))
    obtain ⟨uf',hunion⟩ := h.ranked.union_ok ha hb
    exact ⟨uf',by rw [Op.perform,hunion]; rfl,h.union hunion⟩

/-- A run over items ends well, and the classes hold what it told them. -/
theorem performAll_reflects {done : List Op} (h : Reflects items done uf) (hops : ∀ op∈ops, ∀ x∈op.names, x∈items) :
    ∃ uf', performAll uf ops=.ok uf' ∧ Reflects items (done++ops) uf' := by
  induction ops generalizing done uf with
  | nil => exact ⟨uf,rfl,by rwa [append_nil]⟩
  | cons op rest ih =>
    obtain ⟨mid,hmid,hreflects⟩ := op.perform_reflects h (hops op mem_cons_self)
    obtain ⟨uf',hrest,hreflects'⟩ := ih hreflects fun op hop => hops op (mem_cons_of_mem _ hop)
    refine ⟨uf',?_,?_⟩
    · rw [performAll,hmid]
      exact hrest
    · rwa [append_assoc] at hreflects'

theorem performAll_ofItems (hops : ∀ op∈ops, ∀ x∈op.names, x∈items) :
    ∃ uf, performAll (ofItems items) ops=.ok uf ∧ Reflects items ops uf :=
  performAll_reflects (reflects_ofItems items) hops

/-- The classes of a run do not depend on its order. -/
theorem Reflects.of_perm {ops' : List Op} (h : Reflects items ops uf) (h' : Reflects items ops' uf') (hperm : ops'.Perm ops) :
    (∀ x y, uf'.rootOf x=uf'.rootOf y ↔ uf.rootOf x=uf.rootOf y) ∧
      ∀ x f, AssertedOf ops' uf' x f ↔ AssertedOf ops uf x f := by
  have hroots : ∀ x y, uf'.rootOf x=uf'.rootOf y ↔ uf.rootOf x=uf.rootOf y := by
    intro x y
    rw [h'.classes,h.classes,Related,Related]
    simp only [hperm.mem_iff]
  refine ⟨hroots,fun x f => ?_⟩
  simp only [AssertedOf,hperm.mem_iff,hroots]

def lateMeeting : List Op :=
  [.assert "a" .number 90,.union "a" "b",.find "b",.assert "c" .string 95,.union "c" "b"]

theorem lateMeeting_names : ∀ op∈lateMeeting, ∀ x∈op.names, x∈["a","b","c"] := by decide

theorem lateMeeting_result : ∃ uf, performAll (ofItems ["a","b","c"]) lateMeeting=.ok uf ∧
    (uf.info "a").1=some ⟨95,.string⟩ ∧ uf.rootOf "a" = uf.rootOf "c" := ⟨_,rfl,rfl,rfl⟩

/-- Over some items every run ends well. Nothing is known of a class exactly if nothing was asserted of its members; else
the type that is known was asserted of a member with the highest priority of all. If all assertions of highest priority
agree, any other order of the same operations leads to the same type. -/
theorem performAll_strongest (hops : ∀ op ∈ ops, ∀ x ∈ op.names, x ∈ items) :
    ∃ uf, performAll (ofItems items) ops = .ok uf ∧
      (∀ x, (uf.info x).1 = none ↔ ∀ f, ¬AssertedOf ops uf x f) ∧
      (∀ x f, (uf.info x).1 = some f → AssertedOf ops uf x f ∧ ∀ g, AssertedOf ops uf x g → g.priority ≤ f.priority) ∧
      ∀ ops', ops'.Perm ops → ∃ uf', performAll (ofItems items) ops' = .ok uf' ∧
        (∀ x y, uf'.rootOf x = uf'.rootOf y ↔ uf.rootOf x = uf.rootOf y) ∧
        ∀ x, (Uniform fun f => Strongest (AssertedOf ops uf x) (some f)) →
          (uf'.info x).1.map Fixed.type = (uf.info x).1.map Fixed.type := by
  obtain ⟨uf,hrun,h⟩ := performAll_ofItems hops
  refine ⟨uf,hrun,fun x => (h.strongest x).eq_none_iff,fun x f hf => ?_,fun ops' hperm => ?_⟩
  · have hstrongest := h.strongest x
    rwa [known,hf] at hstrongest
  · obtain ⟨uf',hrun',h'⟩ := performAll_ofItems fun op hop => hops op (hperm.mem_iff.1 hop)
    obtain ⟨hroots,hasserted⟩ := h.of_perm h' hperm
    refine ⟨uf',hrun',hroots,fun x hagree => ?_⟩
    exact ((h'.strongest x).congr fun f => (hasserted x f).symm).type_eq (h.strongest x) hagree

theorem performAll_strongest_lateMeeting :
    (∀ op ∈ lateMeeting, ∀ x ∈ op.names, x ∈ ["a", "b", "c"]) ∧
      ∃ uf, performAll (ofItems ["a", "b", "c"]) lateMeeting.reverse = .ok uf ∧
        (uf.info "a").1.map Fixed.type = some .string := by
  obtain ⟨uf,hrun,-,hsome,hperm⟩ := performAll_strongest lateMeeting_names
  obtain ⟨_,hrun',hinfo,-⟩ := lateMeeting_result
  cases hrun.symm.trans hrun'
  have htop : ∀ f, Strongest (AssertedOf lateMeeting uf "a") (some f) → f.type = .string := by
    rintro ⟨priority,t⟩ ⟨⟨y,hy,-⟩,hmax⟩
    have hle := hmax _ (hsome "a" _ hinfo).1
    simp only [lateMeeting,mem_cons,Op.assert.injEq,reduceCtorEq,false_or,not_mem_nil,or_false] at hy
    rcases hy with ⟨-,rfl,rfl⟩ | ⟨-,rfl,-⟩
    · exact absurd hle (by decide)
    · rfl
  obtain ⟨uf',hreverse,-,htype⟩ := hperm _ lateMeeting.reverse_perm
  refine ⟨lateMeeting_names,uf',hreverse,?_⟩
  rw [htype "a" fun f g hf hg => (htop f hf).trans (htop g hg).symm,hinfo]
  rfl

/-- Over some items every run ends well, and then every search ends. Two names have one root exactly if the unions relate
them; a search changes neither a root nor what is known; ranks rise from a name to the one it points to; and types are kept
at roots only. -/
theorem performAll_classes (hops : ∀ op ∈ ops, ∀ x ∈ op.names, x ∈ items) :
    ∃ uf, performAll (ofItems items) ops = .ok uf ∧
      (∀ x, Finds uf x (uf.find x).1 (uf.find x).2) ∧
      (∀ x y, (uf.find x).1 = (uf.find y).1 ↔ Related ops x y) ∧
      (∀ x y, ((uf.find x).2.find y).1 = (uf.find y).1) ∧ (∀ x, (uf.find x).2.fixed = uf.fixed) ∧
      (∀ x p, uf.parent.find x = some p → p ≠ x →
        ∃ i j, uf.rank.find x = some i ∧ uf.rank.find p = some j ∧ i < j) ∧
      ∀ x ∈ uf.fixed.keys, (uf.find x).1 = x := by
  obtain ⟨uf,hrun,h⟩ := performAll_ofItems hops
  refine ⟨uf,hrun,h.ranked.finds,h.classes,fun x => (h.ranked.alike_find x).roots,
    fun x => (h.ranked.alike_find x).fixed,fun x p => h.ranked.climbs,fun x hx => ?_⟩
  exact h.rooted x ((uf.fixed.find_isSome_iff x).2 hx)

theorem performAll_classes_lateMeeting :
    (∀ op ∈ lateMeeting, ∀ x ∈ op.names, x ∈ ["a", "b", "c"]) ∧
      ∃ uf, performAll (ofItems ["a", "b", "c"]) lateMeeting = .ok uf ∧ (uf.find "a").1 = (uf.find "c").1 := by
  obtain ⟨uf,hrun,-,hroots,-⟩ := performAll_classes lateMeeting_names
  refine ⟨lateMeeting_names,uf,hrun,(hroots "a" "c").2 ?_⟩
  exact .trans _ "b" _ (.rel _ _ (by decide)) (.symm _ _ (.rel _ _ (by decide)))

/-- Over some items every run ends well, and no conflict is noted exactly if the types that were asserted of the members of
each class are all the same. -/
theorem performAll_conflicts_eq_nil_iff (hops : ∀ op ∈ ops, ∀ x ∈ op.names, x ∈ items) :
    ∃ uf, performAll (ofItems items) ops = .ok uf ∧
      (uf.conflicts = [] ↔ ∀ y z t u p q, .assert y t p ∈ ops → .assert z u q ∈ ops → (uf.find y).1 = (uf.find z).1 → t = u) := by
  obtain ⟨uf,hrun,h⟩ := performAll_ofItems hops
  refine ⟨uf,hrun,h.conflicts.trans ⟨fun hall y z t u p q hy hz hyz => ?_,fun hall x f g hf hg => ?_⟩⟩
  · exact hall z ⟨p,t⟩ ⟨q,u⟩ ⟨y,hy,hyz⟩ ⟨z,hz,rfl⟩
  · obtain ⟨y,hy,hyx⟩ := hf
    obtain ⟨z,hz,hzx⟩ := hg
    exact hall y z _ _ _ _ hy hz (hyx.trans hzx.symm)

theorem performAll_conflicts_lateMeeting :
    (∀ op ∈ lateMeeting, ∀ x ∈ op.names, x ∈ ["a", "b", "c"]) ∧
      ∃ uf, performAll (ofItems ["a", "b", "c"]) lateMeeting = .ok uf ∧ uf.conflicts ≠ [] := by
  obtain ⟨uf,hrun,hconflicts⟩ := performAll_conflicts_eq_nil_iff lateMeeting_names
  obtain ⟨_,hrun',-,hroots⟩ := lateMeeting_result
  cases hrun.symm.trans hrun'
  refine ⟨lateMeeting_names,uf,hrun,fun hnil => ?_⟩
  cases hconflicts.1 hnil "a" "c" .number .string 90 95 (by decide) (by decide) hroots

end

end ChipForge.Inference.UnionFind
