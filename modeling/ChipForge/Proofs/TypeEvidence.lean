import ChipForge.Inference.Types
import ChipForge.Proofs.NameClasses
import ChipForge.Proofs.Ports

/-! Every node says something of its own type, and every wire what is known at its two ports. Following a wire changes
nothing, makes a type known or joins two classes. -/
namespace ChipForge.Inference
open Wiring UnionFind List

theorem map_eq_ok_iff {ε α β : Type} {x : Except ε α} {f : α→β} {b : β} : x.map f=.ok b ↔ ∃ a, x=.ok a ∧ f a=b := by
  cases x <;> simp [Except.map]

/-- What a node says of its own type. -/
inductive Own
  /-- The type its settings ask for. -/
  | explicit (t : GateType)
  /-- The type of the value that a constant or variable holds. -/
  | held (t : Option GateType)
  /-- The type of its module, and whether nodes of the module must have it. -/
  | module (t : Option GateType) (must : Bool)

def Own.start? : Own→Option GateType
  | explicit t => some t
  | held t => t
  | module t _ => t

def Own.priority? : Own→Option Int
  | explicit _ => some 100
  | held _ => some 90
  | module _ must => if must then some 95 else none

/-- The type a node asserts of itself. -/
def Own.asserted? (o : Own) : Option Fixed :=
  match o.start?, o.priority? with
  | some t, some priority => some ⟨priority,t⟩
  | _, _ => none

def ownOf (s : Setting) (id : String) (node : Json) : Except Failure Own := do
  let attrs := (← node.field "attrs").orElse (.obj [])
  let attrs := if attrs.isObj then attrs else .obj []
  match ← explicitType? attrs with
  | some t => pure (.explicit t)
  | none =>
    let role ← s.role id
    if role.word == "constant" then pure (.held (constantType? attrs))
    else if role.word == "variable" then pure (.held (← typeOfValue? role.variableType))
    else
      let (t,must) ← moduleStart (← s.module? role.module)
      pure (.module t must)

/-- A wire with what is known of the types at its ports. -/
structure Clue where
  wire : Wire
  source : Option PortType
  target : Option PortType

def clueOf (s : Setting) (defaults : Table (Option GateType)) (w : Wire) : Except Failure Clue := do
  let source ← s.portType? defaults w.source .outputs w.sourcePort
  let target ← s.portType? defaults w.target .inputs w.targetPort
  pure ⟨w,source,target⟩

/-- All that a graph says about types. -/
structure Evidence where
  setting : Setting
  own : List (String×Own)
  clues : List Clue

namespace Evidence

def ids (e : Evidence) : List String := e.own.map (·.1)

end Evidence

def startsOf (own : List (String×Own)) : Table (Option GateType) :=
  own.foldl (fun t o => t.put o.1 o.2.start?) Table.empty

/-- Reads what a graph says about types. -/
def evidence (graph placements index rules modules : Json) : Except Failure Evidence := do
  let nodes ← namedNodes (← ((← graph.field "nodes").orElse (.arr [])).each)
  let s : Setting :=
    ⟨placements,index,rules,modules,nodes.foldl (fun t (id,n) => t.put id n) Table.empty⟩
  let own ← nodes.mapM fun (id,n) => do pure (id,← ownOf s id n)
  let wires := (← ((← graph.field "edges").orElse (.arr [])).each).filterMap Wire.ofJson?
  let clues ← wires.mapM (clueOf s (startsOf own))
  pure ⟨s,own,clues⟩

/-- Follows a wire whose ports were looked at. -/
def follow (s : Setting) (p : Progress) (c : Clue) : Except Failure Progress :=
  match c.source, c.target with
  | some left, some right => constrain s p left right
  | _, _ => .ok p

def followAll (s : Setting) : Progress→List Clue→Except Failure Progress
  | p, [] => .ok p
  | p, c::rest => do followAll s (← follow s p c) rest

/-- What is known before any wire is followed. -/
def begin (own : List (String×Own)) (p : Progress) : Progress :=
  own.foldl (fun p o => p.start o.1 o.2.start? o.2.priority?) p

theorem startNode_eq (s : Setting) (p : Progress) (id : String) (node : Json) :
    startNode s p id node=(ownOf s id node).map fun o => p.start id o.start? o.priority? := by
  unfold startNode ownOf
  cases node.field "attrs" with
  | error f => rfl
  | ok attrs =>
    simp only [bind,Except.bind]
    cases explicitType? _ with
    | error f => rfl
    | ok explicit =>
      cases explicit with
      | some t => rfl
      | none =>
        cases s.role id with
        | error f => rfl
        | ok role =>
          simp only
          by_cases hconstant : (role.word == "constant")=true
          · rw [if_pos hconstant,if_pos hconstant]
            rfl
          · rw [if_neg hconstant,if_neg hconstant]
            by_cases hvariable : (role.word == "variable")=true
            · rw [if_pos hvariable,if_pos hvariable]
              cases typeOfValue? role.variableType <;> rfl
            · rw [if_neg hvariable,if_neg hvariable]
              cases s.module? role.module with
              | error f => rfl
              | ok m =>
                dsimp only
                cases moduleStart m <;> rfl

theorem startNodes_eq {s : Setting} {nodes : List (String×Json)} {own : List (String×Own)} (p : Progress)
    (h : nodes.mapM (fun (id,n) => do pure (id,← ownOf s id n))=.ok own) : startNodes s p nodes=.ok (begin own p) := by
  induction nodes generalizing own p with
  | nil =>
    cases h
    rfl
  | cons node rest ih =>
    rw [mapM_cons] at h
    obtain ⟨first,others,hfirst,hothers,h⟩ := bind_bind_eq_ok.1 h
    obtain ⟨o,ho,hpair⟩ := bind_eq_ok.1 hfirst
    cases h
    cases hpair
    rw [startNodes,startNode_eq,ho]
    exact ih _ hothers

/-- A wire that shows a fixed type to a node. -/
def Clue.Tells (c : Clue) (id : String) (t : GateType) (priority : Int) : Prop :=
  (c.source=some (.ofNode id) ∧ c.target=some (.fixed t priority)) ∨
    (c.source=some (.fixed t priority) ∧ c.target=some (.ofNode id))

/-- A wire between two ports that follow the types of their nodes, either way round. -/
def Clue.Meets (c : Clue) (a b : String) : Prop :=
  (c.source=some (.ofNode a) ∧ c.target=some (.ofNode b)) ∨
    (c.source=some (.ofNode b) ∧ c.target=some (.ofNode a))

section
variable {c : Clue} {a b : String}

theorem Clue.Meets.symm (h : c.Meets a b) : c.Meets b a := Or.symm h

theorem Clue.Meets.unique {a' b' : String} (h : c.Meets a b) (h' : c.Meets a' b') : (a'=a ∧ b'=b) ∨ (a'=b ∧ b'=a) := by
  rcases h with ⟨hs,ht⟩ | ⟨hs,ht⟩ <;> rcases h' with ⟨hs',ht'⟩ | ⟨hs',ht'⟩ <;> cases hs.symm.trans hs' <;>
    cases ht.symm.trans ht' <;> simp

theorem Clue.Tells.unique {id id' : String} {t t' : GateType} {priority priority' : Int} (h : c.Tells id t priority)
    (h' : c.Tells id' t' priority') : id'=id ∧ t'=t := by
  rcases h with ⟨hs,ht⟩ | ⟨hs,ht⟩ <;> rcases h' with ⟨hs',ht'⟩ | ⟨hs',ht'⟩ <;> cases hs.symm.trans hs' <;>
    cases ht.symm.trans ht' <;> exact ⟨rfl,rfl⟩

theorem Clue.Meets.not_tells (h : c.Meets a b) (id : String) (t : GateType) (priority : Int) : ¬c.Tells id t priority := by
  rintro (⟨hs,ht⟩ | ⟨hs,ht⟩) <;> rcases h with ⟨hs',ht'⟩ | ⟨hs',ht'⟩
  · cases ht.symm.trans ht'
  · cases ht.symm.trans ht'
  · cases hs.symm.trans hs'
  · cases hs.symm.trans hs'

end

/-- One of the ports of the wire follows the node. -/
def Clue.Touches (c : Clue) (x : String) : Prop := c.source=some (.ofNode x) ∨ c.target=some (.ofNode x)

/-- Following a wire leaves alone the types that nodes start from, and gives hints only at nodes that its ports follow. -/
structure Clue.Leaves (c : Clue) (p p' : Progress) : Prop where
  defaults : p'.defaults=p.defaults
  hints : ∀ {x}, ¬c.Touches x → p'.hints.find x=p.hints.find x

/-- What following a wire does. -/
inductive Effect (c : Clue) (p p' : Progress) : Prop
  /-- Nothing, where the ports say nothing to each other. -/
  | silent (htells : ∀ id t priority, ¬c.Tells id t priority) (hmeets : ∀ a b, ¬c.Meets a b) (hsame : p'=p)
  /-- A vector that is shown to a node may be no more than a hint. -/
  | hinted {id : String} {priority : Int} (htells : c.Tells id .vector priority) (hsame : p'.classes=p.classes)
  | bound {id : String} {priority : Int} (htells : c.Tells id .vector priority)
    (htold : Told p.classes id .vector 95 p'.classes)
  | told {id : String} {t : GateType} {priority : Int} (htells : c.Tells id t priority) (ht : t≠.vector)
    (htold : Told p.classes id t priority p'.classes) (hhints : p'.hints=p.hints)
  /-- A vector is not passed on to a class that has another type, and not to every class that has none. -/
  | kept {a b : String} {f : Fixed} (hmeets : c.Meets a b) (hknown : p.classes.known a=some f) (hf : f.type=.vector)
    (hother : ∀ g, p.classes.known b=some g → g.type≠.vector) (hsame : Alike p.classes p'.classes)
  /-- A type is passed on to a class that has none. -/
  | passed {a b : String} {f : Fixed} {priority : Int} (hmeets : c.Meets a b) (hknown : p.classes.known a=some f)
    (hnone : p.classes.known b=none) (hpriority : priority=f.priority ∨ f.type=.vector ∧ priority=max f.priority 95)
    (htold : Told p.classes b f.type priority p'.classes) (hhints : p'.hints=p.hints)
  /-- Two classes are joined if both have no type, or both have one and neither or both are vectors. -/
  | joined {a b : String} (hmeets : c.Meets a b)
    (hknown : p.classes.Fit a b)
    (hjoins : Joins p.classes a b p'.classes) (hhints : p'.hints=p.hints)

section
variable {s : Setting} {p p' : Progress} {c : Clue} {a b : String} {id : String} {priority : Int} {low : UnionFind}

theorem Clue.Tells.touches {t : GateType} (h : c.Tells id t priority) : c.Touches id := h.imp And.left And.right

theorem Clue.Meets.touches (h : c.Meets a b) : c.Touches a ∧ c.Touches b := by
  rcases h with ⟨hsource,htarget⟩ | ⟨hsource,htarget⟩
  · exact ⟨.inl hsource,.inr htarget⟩
  · exact ⟨.inr htarget,.inl hsource⟩

theorem Clue.Leaves.same (hdefaults : p'.defaults=p.defaults) (hhints : p'.hints=p.hints) : c.Leaves p p' :=
  ⟨hdefaults,fun _ => by rw [hhints]⟩

theorem Clue.Leaves.hint (h : c.Touches id) : c.Leaves p (({ p with classes := low } : Progress).hint id) :=
  ⟨rfl,fun hx => Table.find_put_ne _ _ fun heq => hx (heq ▸ h)⟩

theorem softVector_eq_ok (h : softVector s p id priority=.ok p') : p'=p.assert id .vector priority ∨ p'=p.hint id := by
  obtain ⟨follows,-,h⟩ := bind_eq_ok.1 h
  cases follows <;> cases h
  · exact .inr rfl
  · exact .inl rfl

/-- A node whose ports could be looked at can be asked what it is. -/
def Setting.Answers (s : Setting) (id : String) : Prop :=
  (∃ follows, s.followsNode id=.ok follows) ∧ ∃ isEnd, s.isEnd id=.ok isEnd

theorem softVector_ok (h : s.Answers a) (p : Progress) (priority : Int) : ∃ p', softVector s p a priority=.ok p' := by
  obtain ⟨⟨follows,hfollows⟩,-⟩ := h
  unfold softVector
  rw [hfollows]
  cases follows <;> exact ⟨_,rfl⟩

theorem passFixed_ok (h : s.Answers a) (p : Progress) (t : GateType) (priority : Int) :
    ∃ p', passFixed s p a t priority=.ok p' := by
  unfold passFixed
  split_ifs
  · exact softVector_ok h p 95
  · exact ⟨_,rfl⟩

theorem passKnown_ok (h : s.Answers a) (p : Progress) (f : Fixed) : ∃ p', passKnown s p a f=.ok p' := by
  obtain ⟨isEnd,hend⟩ := h.2
  unfold passKnown
  split_ifs
  · rw [hend]
    cases isEnd with
    | true => exact ⟨_,rfl⟩
    | false => exact softVector_ok h p _
  · exact ⟨_,rfl⟩

variable (hp : Ranked p.classes)
include hp

theorem passFixed_effect {t : GateType} (htells : c.Tells id t priority)
    (h : passFixed s p id t priority=.ok p') : Effect c p p' ∧ c.Leaves p p' := by
  unfold passFixed at h
  split_ifs at h with ht
  · have ht : t=.vector := by simpa using ht
    subst ht
    rcases softVector_eq_ok h with rfl | rfl
    · exact ⟨.bound htells (hp.assert_told id .vector 95),.same rfl rfl⟩
    · exact ⟨.hinted htells rfl,.hint htells.touches⟩
  · cases h
    exact ⟨.told htells (by simpa using ht) (hp.assert_told id t priority) rfl,.same rfl rfl⟩

theorem passKnown_effect {f : Fixed} (hlow : Alike p.classes low) (hmeets : c.Meets a b)
    (hknown : p.classes.known a=some f) (hnone : p.classes.known b=none)
    (h : passKnown s { p with classes := low } b f=.ok p') : Effect c p p' ∧ c.Leaves p p' := by
  have htold : ∀ priority, Told p.classes b f.type priority (low.assert b f.type priority) :=
    fun priority => hlow.told hp (hlow.ranked.assert_told b f.type priority)
  unfold passKnown at h
  split_ifs at h with hvector
  · have hvector : f.type=.vector := by simpa using hvector
    obtain ⟨isEnd,-,h⟩ := bind_eq_ok.1 h
    cases isEnd with
    | true =>
      cases h
      exact ⟨.passed hmeets hknown hnone (.inl rfl) (htold f.priority) rfl,.same rfl rfl⟩
    | false =>
      rcases softVector_eq_ok h with rfl | rfl
      · refine ⟨.passed hmeets hknown hnone (.inr ⟨hvector,rfl⟩) ?_ rfl,.same rfl rfl⟩
        have hbound := htold (max f.priority 95)
        rw [hvector] at hbound
        rw [hvector]
        exact hbound
      · refine ⟨.kept hmeets hknown hvector (fun g hg => ?_) hlow,.hint hmeets.touches.2⟩
        rw [hnone] at hg
        cases hg
  · cases h
    exact ⟨.passed hmeets hknown hnone (.inl rfl) (htold f.priority) rfl,.same rfl rfl⟩

theorem join_effect (hlow : Alike p.classes low) (hmeets : c.Meets a b)
    (hknown : p.classes.Fit a b)
    (h : join { p with classes := low } a b=.ok p') : Effect c p p' ∧ c.Leaves p p' := by
  unfold join at h
  rcases hunion : low.union a b with ⟨_ | _,classes⟩
  · simp only [hunion] at h
    cases h
  · simp only [hunion] at h
    cases h
    exact ⟨.joined hmeets hknown (hlow.joins hp (hlow.ranked.union_joins hunion)) rfl,.same rfl rfl⟩

theorem meet_effect (hmeets : c.Meets a b) (h : meet s p a b=.ok p') :
    Effect c p p' ∧ c.Leaves p p' := by
  have hfirst := hp.alike_info a
  have hlow := hfirst.trans (hfirst.ranked.alike_info b)
  have hright : ((p.classes.info a).2.info b).1=p.classes.known b := hfirst.known hp b
  have hleft : (p.classes.info a).1=p.classes.known a := rfl
  unfold meet at h
  simp only [hright,hleft] at h
  cases hknowna : p.classes.known a with
  | none =>
    cases hknownb : p.classes.known b with
    | none =>
      simp only [hknowna,hknownb] at h
      exact join_effect hp hlow hmeets (.inl ⟨hknowna,hknownb⟩) h
    | some g =>
      simp only [hknowna,hknownb] at h
      exact passKnown_effect hp hlow hmeets.symm hknownb hknowna h
  | some f =>
    cases hknownb : p.classes.known b with
    | none =>
      simp only [hknowna,hknownb] at h
      exact passKnown_effect hp hlow hmeets hknowna hknownb h
    | some g =>
      simp only [hknowna,hknownb] at h
      split_ifs at h with hvector hvector'
      · cases h
        simp only [Bool.and_eq_true,beq_iff_eq,bne_iff_ne] at hvector
        refine ⟨.kept hmeets hknowna hvector.1 (fun g' hg' => ?_) hlow,.hint hmeets.touches.2⟩
        cases hknownb.symm.trans hg'
        exact hvector.2
      · cases h
        simp only [Bool.and_eq_true,beq_iff_eq,bne_iff_ne] at hvector'
        refine ⟨.kept hmeets.symm hknownb hvector'.1 (fun f' hf' => ?_) hlow,.hint hmeets.touches.1⟩
        cases hknowna.symm.trans hf'
        exact hvector'.2
      · refine join_effect hp hlow hmeets (.inr ⟨f,g,hknowna,hknownb,?_⟩) h
        by_cases hf : f.type=.vector
        · have hg : g.type=.vector := by simpa [hf] using hvector
          simp [hf,hg]
        · have hg : g.type≠.vector := by simpa [hf] using hvector'
          simp [hf,hg]

/-- Following a wire does one of the things it can do. -/
theorem follow_effect (h : follow s p c=.ok p') : Effect c p p' ∧ c.Leaves p p' := by
  obtain ⟨wire,source,target⟩ := c
  cases source with
  | none =>
    cases h
    exact ⟨.silent (by simp [Clue.Tells]) (by simp [Clue.Meets]) rfl,.same rfl rfl⟩
  | some left =>
    cases target with
    | none =>
      cases h
      exact ⟨.silent (by simp [Clue.Tells]) (by simp [Clue.Meets]) rfl,.same rfl rfl⟩
    | some right =>
      cases left with
      | fixed t priority =>
        cases right with
        | fixed t' priority' =>
          cases h
          exact ⟨.silent (by simp [Clue.Tells]) (by simp [Clue.Meets]) rfl,.same rfl rfl⟩
        | ofNode id => exact passFixed_effect hp (.inr ⟨rfl,rfl⟩) h
      | ofNode id =>
        cases right with
        | fixed t priority => exact passFixed_effect hp (.inl ⟨rfl,rfl⟩) h
        | ofNode other => exact meet_effect hp (.inl ⟨rfl,rfl⟩) h

theorem join_ok (ha : (p.classes.rank.find a).isSome) (hb : (p.classes.rank.find b).isSome) :
    ∃ p', join p a b=.ok p' := by
  obtain ⟨classes,hunion⟩ := hp.union_ok ha hb
  refine ⟨{ p with classes := classes },?_⟩
  simp only [join,hunion]
  rfl

theorem meet_ok (ha : s.Answers a) (hb : s.Answers b) (hitema : (p.classes.rank.find a).isSome)
    (hitemb : (p.classes.rank.find b).isSome) : ∃ p', meet s p a b=.ok p' := by
  have hfirst := hp.alike_info a
  have hlow := hfirst.trans (hfirst.ranked.alike_info b)
  have hitems : ∀ x, ((p.classes.info a).2.info b).2.rank.find x=p.classes.rank.find x := fun x => by rw [hlow.rank]
  have hjoin : ∃ p', join { p with classes := ((p.classes.info a).2.info b).2 } a b=.ok p' :=
    join_ok hlow.ranked ((congrArg Option.isSome (hitems a)).trans hitema)
      ((congrArg Option.isSome (hitems b)).trans hitemb)
  unfold meet
  simp only
  split
  · exact passKnown_ok hb _ _
  · exact passKnown_ok ha _ _
  · split_ifs
    · exact ⟨_,rfl⟩
    · exact ⟨_,rfl⟩
    · exact hjoin
  · exact hjoin

theorem follow_ok (hsource : ∀ a, c.source=some (.ofNode a) → s.Answers a)
    (htarget : ∀ b, c.target=some (.ofNode b) → s.Answers b)
    (hitems : ∀ a b, c.Meets a b→(p.classes.rank.find a).isSome) : ∃ p', follow s p c=.ok p' := by
  obtain ⟨wire,source,target⟩ := c
  cases source with
  | none => exact ⟨p,rfl⟩
  | some left =>
    cases target with
    | none => exact ⟨p,rfl⟩
    | some right =>
      cases left with
      | fixed t priority =>
        cases right with
        | fixed t' priority' => exact ⟨p,rfl⟩
        | ofNode id => exact passFixed_ok (htarget id rfl) p t priority
      | ofNode id =>
        cases right with
        | fixed t priority => exact passFixed_ok (hsource id rfl) p t priority
        | ofNode other =>
          exact meet_ok hp (hsource id rfl) (htarget other rfl) (hitems id other (.inl ⟨rfl,rfl⟩))
            (hitems other id (.inr ⟨rfl,rfl⟩))

end

section
variable {s : Setting} {defaults : Table (Option GateType)} {id port : String} {side : Side} {rule : Json}
  {t : PortType} {role : Role} {i : Nat} {own : List Json}

/-- Ports on a side of a node may follow its type: it is an end of the chip, or the rule of its module says so. -/
def Setting.Follows (s : Setting) (role : Role) (side : Side) : Prop :=
  role.word = "output" ∨ role.word = "input" ∨ role.word ≠ "variable" ∧ role.word ≠ "constant" ∧
    ∃ rule items, s.rule? role.module=.ok (some rule) ∧ listOf rule side.name=.ok items ∧ .str "same" ∈ items

/-- A fixed type that yields to those which nodes assert of themselves. -/
abbrev PortType.Low (t : PortType) : Prop := ∃ u priority, t=.fixed u priority ∧ priority≤90

theorem ruleType?_eq_ofNode (h : ruleType? id rule=some (some t)) :
    (t=.ofNode id ∧ rule=.str "same") ∨ ∃ u, t=.fixed u 60 := by
  unfold ruleType? at h
  split at h
  · cases h
  · cases h
  · cases h
    exact .inl ⟨rfl,rfl⟩
  · obtain ⟨u,-,hu⟩ := Option.map_eq_some_iff.1 h
    cases hu
    exact .inr ⟨u,rfl⟩

theorem listedType?_eq_fixed {ports : List Json} (h : listedType? ports i=some t) : ∃ u, t=.fixed u 50 := by
  unfold listedType? at h
  split at h
  · obtain ⟨u,-,hu⟩ := Option.map_eq_some_iff.1 h
    exact ⟨u,hu.symm⟩
  · cases h

theorem listOf_ok {record : Json} (h : record.isObj) (key : String) : ∃ items, Setting.listOf record key=.ok items := by
  cases record with
  | obj fields =>
    unfold Setting.listOf
    simp only [Json.field,Json.field?,Except.map,bind,Except.bind]
    split <;> exact ⟨_,rfl⟩
  | _ => cases h

theorem isObj_of_rule? {key : Option String} (h : s.rule? key=.ok (some rule)) : rule.isObj := by
  cases key with
  | none => cases h
  | some key =>
    obtain ⟨found,-,hfound⟩ := map_eq_ok_iff.1 h
    split_ifs at hfound with hobj
    cases hfound
    exact hobj

theorem answers_of_end (hrole : s.role id=.ok role) (hend : Setting.followsNode.isEnd role.word=true) :
    s.Answers id := by
  refine ⟨⟨false,?_⟩,⟨_,bind_eq_ok.2 ⟨role,hrole,rfl⟩⟩⟩
  refine bind_eq_ok.2 ⟨role,hrole,?_⟩
  rw [if_pos hend]
  rfl

theorem answers_of_rule (hrole : s.role id=.ok role) (hrule : s.rule? role.module=.ok (some rule)) : s.Answers id := by
  obtain ⟨ins,hins⟩ := listOf_ok (isObj_of_rule? hrule) "inputs"
  obtain ⟨outs,houts⟩ := listOf_ok (isObj_of_rule? hrule) "outputs"
  refine ⟨?_,⟨_,bind_eq_ok.2 ⟨role,hrole,rfl⟩⟩⟩
  by_cases hend : Setting.followsNode.isEnd role.word=true
  · exact (answers_of_end hrole hend).1
  · refine ⟨(ins++outs).any fun r => r.same (.str "same"),bind_eq_ok.2 ⟨role,hrole,?_⟩⟩
    rw [if_neg hend]
    exact bind_eq_ok.2 ⟨_,hrule,bind_eq_ok.2 ⟨ins,hins,bind_eq_ok.2 ⟨outs,houts,rfl⟩⟩⟩

theorem recordType_spec
    (h : (match listedType? own i with | some t => pure (some t) | none => do match ← s.module? role.module with | some m => pure (listedType? (← Setting.listOf m side.name) i) | none => pure none : Except Failure (Option PortType))=.ok (some t)) :
    t.Low := by
  have hlisted : ∀ {ports : List Json}, listedType? ports i=some t → t.Low := by
    intro ports hport
    obtain ⟨u,hu⟩ := listedType?_eq_fixed hport
    exact ⟨u,50,hu,by omega⟩
  cases hown : listedType? own i with
  | some t' =>
    simp only [hown] at h
    cases h
    exact hlisted hown
  | none =>
    simp only [hown] at h
    obtain ⟨m,-,h⟩ := bind_eq_ok.1 h
    cases m with
    | none => cases h
    | some m =>
      obtain ⟨ports,-,h⟩ := bind_eq_ok.1 h
      exact hlisted (Except.ok.inj h)

theorem moduleType?_spec (hrole : s.role id=.ok role) (h : s.moduleType? role id side own i=.ok (some t)) :
    (t=.ofNode id ∧ s.Answers id ∧ ∃ rule items, s.rule? role.module=.ok (some rule) ∧
      Setting.listOf rule side.name=.ok items ∧ .str "same" ∈ items) ∨ t.Low := by
  obtain ⟨found,hfound,h⟩ := bind_eq_ok.1 h
  cases found with
  | none =>
    obtain ⟨ruled,hruled,h⟩ := bind_eq_ok.1 h
    cases hruled
    exact .inr (recordType_spec h)
  | some rule =>
    obtain ⟨items,ruled,hitems,hruled,h⟩ := bind_bind_eq_ok.1 h
    cases ruled with
    | none => exact .inr (recordType_spec h)
    | some answer =>
      cases h
      obtain ⟨r,hmem,hr⟩ := Option.bind_eq_some_iff.1 (Except.ok.inj hruled)
      rcases ruleType?_eq_ofNode hr with ⟨hnode,rfl⟩ | ⟨u,hu⟩
      · exact .inl ⟨hnode,answers_of_rule hrole hfound,rule,items,hfound,hitems,mem_of_getElem? hmem⟩
      · exact .inr ⟨u,60,hu,by omega⟩

/-- A port follows the type of its own node, whose rule can then be looked at, or it has a type of low priority. -/
theorem portType?_spec (h : s.portType? defaults id side port=.ok (some t)) :
    (t=.ofNode id ∧ s.Answers id ∧ ∃ role, s.role id=.ok role ∧ s.Follows role side) ∨ t.Low := by
  obtain ⟨role,ports,hrole,-,h⟩ := bind_bind_eq_ok.1 h
  obtain ⟨found,-,h⟩ := bind_eq_ok.1 h
  cases found with
  | none => cases h
  | some i =>
    dsimp only at h
    split_ifs at h with hend hvariable hset hconstant
    · cases h
      simp only [Bool.or_eq_true,beq_iff_eq] at hend
      refine .inl ⟨rfl,answers_of_end hrole ?_,role,hrole,hend.imp_right .inl⟩
      rcases hend with hword | hword <;> simp [Setting.followsNode.isEnd,hword]
    · obtain ⟨held,-,h⟩ := bind_eq_ok.1 h
      cases h
      exact .inr ⟨.entity,90,rfl,Int.le_refl _⟩
    · obtain ⟨held,-,h⟩ := bind_eq_ok.1 h
      obtain ⟨u,-,hu⟩ := Option.map_eq_some_iff.1 (Except.ok.inj h)
      exact .inr ⟨u,90,hu.symm,Int.le_refl _⟩
    · obtain ⟨u,-,hu⟩ := Option.map_eq_some_iff.1 (Except.ok.inj h)
      exact .inr ⟨u,90,hu.symm,Int.le_refl _⟩
    · refine (moduleType?_spec hrole h).imp_left fun ⟨hnode,hanswers,hrule⟩ => ⟨hnode,hanswers,role,hrole,?_⟩
      exact .inr (.inr ⟨by simpa using hvariable,by simpa using hconstant,hrule⟩)

end

/-- A wire with what its ports were read to say. -/
structure Clue.Read (s : Setting) (defaults : Table (Option GateType)) (c : Clue) : Prop where
  source : s.portType? defaults c.wire.source .outputs c.wire.sourcePort=.ok c.source
  target : s.portType? defaults c.wire.target .inputs c.wire.targetPort=.ok c.target

section
variable {s : Setting} {defaults : Table (Option GateType)} {p p' : Progress} {c : Clue} {wires : List Wire}
  {clues : List Clue} {a b : String}

theorem clueOf_eq_ok {w : Wire} (h : clueOf s defaults w=.ok c) : c.wire=w ∧ c.Read s defaults := by
  obtain ⟨source,target,hsource,htarget,h⟩ := bind_bind_eq_ok.1 h
  cases h
  exact ⟨rfl,hsource,htarget⟩

theorem Clue.Read.clueOf_eq (h : c.Read s defaults) : clueOf s defaults c.wire=.ok c :=
  bind_eq_ok.2 ⟨_,h.source,bind_eq_ok.2 ⟨_,h.target,rfl⟩⟩

theorem followWire_eq (h : c.Read s defaults) (hp : p.defaults=defaults) : followWire s p c.wire=follow s p c := by
  obtain ⟨wire,source,target⟩ := c
  have hsource := h.source
  have htarget := h.target
  simp only at hsource htarget
  simp only [followWire,hp,hsource,htarget]
  rfl

theorem Effect.ranked (h : Effect c p p') (hp : Ranked p.classes) : Ranked p'.classes := by
  cases h with
  | silent _ _ hsame => rwa [hsame]
  | hinted _ hsame => rwa [hsame]
  | bound _ htold => exact htold.ranked
  | told _ _ htold _ => exact htold.ranked
  | kept _ _ _ _ hsame => exact hsame.ranked
  | passed _ _ _ _ htold _ => exact htold.ranked
  | joined _ _ hjoins _ => exact hjoins.ranked

theorem followWires_eq (h : wires.mapM (clueOf s defaults)=.ok clues) (hp : Ranked p.classes)
    (hdefaults : p.defaults=defaults) : followWires s p wires=followAll s p clues := by
  induction wires generalizing p clues with
  | nil =>
    cases h
    rfl
  | cons w rest ih =>
    rw [mapM_cons] at h
    obtain ⟨c,others,hc,hothers,h⟩ := bind_bind_eq_ok.1 h
    cases h
    obtain ⟨rfl,hread⟩ := clueOf_eq_ok hc
    rw [followWires,followAll,followWire_eq hread hdefaults]
    cases hfollow : follow s p c with
    | error f => rfl
    | ok p' =>
      obtain ⟨heffect,hleaves⟩ := follow_effect hp hfollow
      exact ih hothers (heffect.ranked hp) (hleaves.defaults.trans hdefaults)

theorem wires_of_mapM (h : wires.mapM (clueOf s defaults)=.ok clues) :
    clues.map (·.wire)=wires ∧ ∀ c∈clues, c.Read s defaults := by
  induction wires generalizing clues with
  | nil =>
    cases h
    exact ⟨rfl,by simp⟩
  | cons w rest ih =>
    rw [mapM_cons] at h
    obtain ⟨c,others,hc,hothers,h⟩ := bind_bind_eq_ok.1 h
    cases h
    obtain ⟨hwire,hread⟩ := clueOf_eq_ok hc
    obtain ⟨hwires,hreads⟩ := ih hothers
    refine ⟨by rw [map_cons,hwire,hwires],fun c' hc' => ?_⟩
    rcases mem_cons.1 hc' with rfl | hc'
    · exact hread
    · exact hreads c' hc'

theorem answers_of_portType? {id port : String} {side : Side}
    (h : s.portType? defaults id side port=.ok (some (.ofNode a))) : a=id ∧ s.Answers a := by
  rcases portType?_spec h with ⟨hnode,hanswers,-⟩ | ⟨u,priority,hfixed,-⟩
  · cases hnode
    exact ⟨rfl,hanswers⟩
  · cases hfixed

theorem Clue.Read.source_node (h : c.Read s defaults) (ha : c.source=some (.ofNode a)) :
    a=c.wire.source ∧ s.Answers a :=
  answers_of_portType? (ha ▸ h.source)

theorem Clue.Read.target_node (h : c.Read s defaults) (hb : c.target=some (.ofNode b)) :
    b=c.wire.target ∧ s.Answers b :=
  answers_of_portType? (hb ▸ h.target)

theorem Clue.Read.priority_le (h : c.Read s defaults) {id : String} {t : GateType} {priority : Int}
    (htells : c.Tells id t priority) : priority≤90 := by
  have hlow : ∀ {id port : String} {side : Side},
      s.portType? defaults id side port=.ok (some (.fixed t priority)) → priority≤90 := by
    intro id port side hport
    rcases portType?_spec hport with ⟨hnode,-⟩ | ⟨u,low,hfixed,hle⟩
    · cases hnode
    · cases hfixed
      exact hle
  rcases htells with ⟨-,htarget⟩ | ⟨hsource,-⟩
  · exact hlow (htarget ▸ h.target)
  · exact hlow (hsource ▸ h.source)

theorem Clue.Read.meets (h : c.Read s defaults) (hmeets : c.Meets a b) :
    (a=c.wire.source ∧ b=c.wire.target) ∨ (a=c.wire.target ∧ b=c.wire.source) := by
  rcases hmeets with ⟨ha,hb⟩ | ⟨hb,ha⟩
  · exact .inl ⟨(h.source_node ha).1,(h.target_node hb).1⟩
  · exact .inr ⟨(h.target_node ha).1,(h.source_node hb).1⟩

theorem Clue.Read.isItem_ok (h : c.Read s defaults) : ∃ item, isItem s c.wire=.ok item := by
  obtain ⟨role,hrole,hsource⟩ := bind_eq_ok.1 h.source
  obtain ⟨ports,hports,hsource⟩ := bind_eq_ok.1 hsource
  obtain ⟨found,hfound,-⟩ := bind_eq_ok.1 hsource
  obtain ⟨chip,listed,hchip,hlisted,hports⟩ := bind_bind_eq_ok.1 hports
  obtain ⟨outputs,houtputs,hlisted⟩ := bind_eq_ok.1 hlisted
  unfold isItem
  rw [hrole]
  simp only [bind,Except.bind,hchip]
  split_ifs with hword
  · exact ⟨false,rfl⟩
  · have houtputs : (chip.orElse (.obj [])).field "outputs" = .ok outputs := houtputs
    simp only [houtputs]
    cases hlist : outputs.orElse (.arr []) with
    | arr items =>
      rw [hlist] at hlisted
      cases hlisted
      cases listed with
      | nil => exact ⟨_,rfl⟩
      | cons item rest =>
        cases hports
        exact ⟨_,bind_eq_ok.2 ⟨found,hfound,rfl⟩⟩
    | _ => exact ⟨false,rfl⟩

/-- A wire that carries no item changes nothing in the end; one that does shows the type of the items, with a low
priority. -/
theorem Clue.Read.followItem_ok (h : c.Read s defaults) (hp : Ranked p.classes) (hdefaults : p.defaults=defaults) :
    ∃ p', followItem s p c.wire=.ok p' ∧ p'.defaults=p.defaults ∧ p'.hints=p.hints ∧
      (Alike p.classes p'.classes ∨ ∃ id t, c.target=some (.ofNode id) ∧ Told p.classes id t 50 p'.classes) := by
  obtain ⟨item,hitem⟩ := h.isItem_ok
  have hlow := hp.alike_info c.wire.source
  unfold followItem
  rw [hitem]
  cases item with
  | false => exact ⟨p,rfl,rfl,rfl,.inl (.refl hp)⟩
  | true =>
    simp only [bind,Except.bind,Bool.not_true,Bool.false_eq_true,if_false]
    split
    · exact ⟨_,rfl,rfl,rfl,.inl hlow⟩
    · rename_i t _
      have htarget := h.target
      rw [← hdefaults] at htarget
      simp only [htarget]
      cases c.target with
      | none => exact ⟨_,rfl,rfl,rfl,.inl hlow⟩
      | some port =>
        cases port with
        | fixed u priority => exact ⟨_,rfl,rfl,rfl,.inl hlow⟩
        | ofNode id => exact ⟨_,rfl,rfl,rfl,.inr ⟨id,t,rfl,hlow.told hp (hlow.ranked.assert_told id t 50)⟩⟩

end

end ChipForge.Inference
