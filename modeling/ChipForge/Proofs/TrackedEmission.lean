import ChipForge.Proofs.Acts

/-! Acts stay on every track, and so does every function that compiles an expression or a part of it. The references they
yield are to finished nodes. -/
namespace ChipForge.Wiring
open Script List Text

def calledModule? : Expr→Option String
  | .call _ fn _ _ => some (canonicalModule (calledName fn))
  | _ => none

variable {d : Dialect} {C : Track d} {σ : List Frame}

namespace Track

/-- What a track asks of a call: the node of the call may be made. -/
def Admits (C : Track d) (call : Expr) : Prop :=
  ∀ ⦃line fn args keywords⦄, call=.call line fn args keywords →
    Form.find? (canonicalModule (calledName fn))=none→∀ asked : Option String, (∀ x∈asked, x∈call.ownIds) →
      C.Makes (canonicalModule (calledName fn)) asked
        (wiredPorts (lower (canonicalModule (calledName fn))) args keywords)

/-- On a track it only counts that references are known. -/
abbrev worth (C : Track d) (b : State) : Worth d b := ⟨Unit,fun _ => (),fun _ => (),fun _ _ _ => (),fun _ v => v,C.Makes,C.made⟩

theorem values (C : Track d) (b : State) : (C.worth b).Values fun _ => () := by
  constructor <;> intros <;> rfl

theorem knows_refOfPort (c : C.Point σ) (name port : String) : C.Knows c ((C.state c).refOfPort name port) := by
  unfold State.refOfPort
  cases hname : (C.state c).nodeOf.find name with
  | none => trivial
  | some x => exact (C.names c hname).1

def KnowsAll (C : Track d) {σ : List Frame} (c : C.Point σ) (held : List (Ref×Unit)) : Prop := ∀ r∈held, C.Knows c r.1

/-- The run is at a later point with what lies before it. -/
def At (C : Track d) {σ : List Frame} (start : C.Point σ) (S : Bench Unit) (s : State) : Prop :=
  ∃ c : C.Point (S.begun.map (fun f => ⟨f.id,f.ports⟩)++σ), C.Later start c ∧ C.state c=s ∧ C.KnowsAll c S.held

theorem at_act {start : C.Point σ} {S S' : Bench Unit} {s s' : State} (h : Act (C.worth (C.state start)) (S,s) (S',s'))
    (hx : C.At start S s) : C.At start S' s' := by
  obtain ⟨c,hlater,hstate,hknows⟩ := hx
  have hmoves : ∀ {τ : List Frame} {u : State} {held : List (Ref×Unit)}, C.Moves c τ u → C.KnowsAll c held →
      ∃ c' : C.Point τ, C.Later start c' ∧ C.state c'=u ∧ C.KnowsAll c' held := by
    rintro τ u held ⟨c',hnext,hu⟩ hheld
    exact ⟨c',C.later_trans hlater hnext,hu,fun r hr => C.knows_later hnext (hheld r hr)⟩
  cases h with
  | order h => exact ⟨c,hlater,hstate,fun r hr => hknows r (h.mem_iff.2 hr)⟩
  | port name port =>
    obtain rfl := hstate
    exact ⟨c,hlater,rfl,forall_mem_cons.2 ⟨knows_refOfPort c name port,hknows⟩⟩
  | constant v h =>
    obtain ⟨c',x,hnext,hrun,hsource⟩ := C.constant c v none
    rw [hstate,h] at hrun
    cases hrun
    refine ⟨c',C.later_trans hlater hnext,rfl,forall_mem_cons.2 ⟨C.source_node hsource,fun r hr => ?_⟩⟩
    exact C.knows_later hnext (hknows r hr)
  | @output _ ref =>
    obtain ⟨href,hrest⟩ := forall_mem_cons.1 hknows
    refine ⟨c,hlater,hstate,forall_mem_cons.2 ⟨?_,hrest⟩⟩
    cases ref with
    | node x out => exact href
    | name x out => trivial
  | place attrs h hports =>
    obtain rfl := hstate
    exact hmoves (C.place c attrs h hports) hknows
  | wire line =>
    obtain rfl := hstate
    obtain ⟨href,hrest⟩ := forall_mem_cons.1 hknows
    exact hmoves (C.wire c line href) hrest
  | inputs ports h =>
    obtain rfl := hstate
    exact hmoves (C.inputs start c _ ports h) hknows
  | attrs h =>
    obtain rfl := hstate
    exact hmoves (C.attrs c h) hknows
  | nodeType t =>
    obtain rfl := hstate
    exact hmoves (C.nodeType c t) hknows
  | close =>
    obtain ⟨c',hnext,hsame,hnode⟩ := C.close c
    refine ⟨c',C.later_trans hlater hnext,hsame.trans hstate,forall_mem_cons.2 ⟨hnode,fun r hr => ?_⟩⟩
    exact C.knows_later hnext (hknows r hr)
  | written name =>
    obtain rfl := hstate
    exact hmoves (C.written c name) hknows

theorem at_acts {start : C.Point σ} {x y : Bench (C.worth (C.state start)).Val×State} (h : Acts (C.worth (C.state start)) x y)
    (hx : C.At start x.1 x.2) : C.At start y.1 y.2 := by
  induction h with
  | refl => exact hx
  | tail _ hact ih => exact at_act hact ih

theorem closeAll {F : List Frame} (c : C.Point (F++σ)) : ∃ c' : C.Point σ, C.Later c c' ∧ C.state c'=C.state c := by
  induction F with
  | nil => exact ⟨c,C.later_refl c,rfl⟩
  | cons f F ih =>
    obtain ⟨c₁,hlater,hstate,-⟩ := C.close c
    obtain ⟨c₂,hlater',hstate'⟩ := ih c₁
    exact ⟨c₂,C.later_trans hlater hlater',hstate'.trans hstate⟩

end Track

section Works
variable {α : Type} (held : List (Ref×Unit))

theorem Works.follows {m : Compile α} {Q : α→Bench Unit→Prop} (h : ∀ b, Works (C.worth b) ⟨[],held⟩ m Q)
    (hQ : ∀ a S, Q a S → S.begun=[]) :
    Follows C (fun c => C.KnowsAll c held) m fun a c => ∃ S, Q a S ∧ C.KnowsAll c S.held := by
  intro c hc
  obtain ⟨S,hacts,hpost⟩ := h (C.state c) (C.state c) ⟨rfl,Nat.le_refl _⟩
  obtain ⟨c',hlater,hstate,hknows⟩ := Track.at_acts hacts ⟨c,C.later_refl c,rfl,hc⟩
  rcases hrun : outcome m (C.state c) with ⟨e | a,t⟩ <;> rw [hrun] at hstate hpost
  · obtain ⟨c'',hlast,hsame⟩ := Track.closeAll c'
    exact ⟨c'',C.later_trans hlater hlast,hsame.trans hstate,fun _ h => nomatch h⟩
  · have hS := hpost a rfl
    obtain ⟨begun,held'⟩ := S
    obtain rfl : begun=[] := hQ a _ hS
    refine ⟨c',hlater,hstate,fun a' ha => ?_⟩
    cases ha
    exact ⟨_,hS,hknows⟩

theorem follows_made {m : Compile String} (h : ∀ b, Works (C.worth b) ⟨[],held⟩ m fun x S => S=⟨[],[(.node x autoPort,())]⟩) :
    Follows C (fun c => C.KnowsAll c held) m fun x c => C.Node c x := by
  refine (Works.follows held (Q := fun x S => S=⟨[],[(.node x autoPort,())]⟩) h fun _ _ hS => hS ▸ rfl).imp (fun _ h => h) ?_
  rintro x c ⟨_,rfl,hknows⟩
  exact hknows _ mem_cons_self

/-- The step yields a reference that is known, wherever it starts. -/
abbrev FollowsRef (C : Track d) (m : Compile Ref) : Prop := ∀ {P}, Follows C P m fun ref c => C.Knows c ref

theorem follows_ref {m : Compile Ref} (h : ∀ b, Works (C.worth b) ⟨[],[]⟩ m fun ref S => S=⟨[],[(ref,())]⟩) :
    FollowsRef C m := by
  intro P
  refine (Works.follows [] (Q := fun ref S => S=⟨[],[(ref,())]⟩) h fun _ _ hS => hS ▸ rfl).imp (fun _ _ => forall_mem_nil _) ?_
  rintro ref c ⟨_,rfl,hknows⟩
  exact hknows _ mem_cons_self

end Works

variable {P : C.Point []→Prop}

theorem emitConstant_follows (v : Literal) (t : Option GateType) :
    Follows C P (emitConstant d v t) fun x c => C.Source c x := by
  intro c _
  obtain ⟨c',x,hlater,hrun,hsource⟩ := C.constant c v t
  exact Follows.reach hlater hrun fun _ ha => Except.ok.inj ha ▸ hsource

theorem alwaysOn_follows : Follows C P (alwaysOn d) fun ref c => ∃ x, ref=.node x "Output" ∧ C.Source c x :=
  .bind (emitConstant_follows _ none) fun x => .pure fun _ h => ⟨x,rfl,h⟩

theorem emitChoice_follows {line : Option Nat} {test yes no : Ref} {t : GateType} :
    Follows C (fun c => C.Knows c test ∧ C.Knows c yes ∧ C.Knows c no) (emitChoice d test yes no t line)
      fun x c => C.Node c x :=
  (follows_made [(test,()),(yes,()),(no,())] fun _ => emitChoice_works).pre fun _ h =>
    forall_mem_cons.2 ⟨h.1,forall_mem_cons.2 ⟨h.2.1,forall_mem_singleton.2 h.2.2⟩⟩

theorem emitVariable_follows (name : String) : Follows C P (emitVariable d name) fun x c => C.Node c x :=
  (follows_made [] fun _ => (emitVariable_works .declared name).close).pre fun _ _ => forall_mem_nil _

theorem emitWriteRef_follows {name : String} {value : Ref} {line : Nat} :
    Follows C (fun c => C.Knows c value) (emitWriteRef d name value line) fun _ _ => True := by
  refine (Works.follows [(value,())] (Q := fun _ S => ∃ R, S=⟨[],R⟩) (fun _ => emitWriteRef_works) ?_).imp
    (fun _ h => forall_mem_singleton.2 h) fun _ _ _ => trivial
  rintro _ _ ⟨R,rfl⟩
  rfl

variable {value : Expr}

theorem emits_known (b : State) (hcalls : ∀ call∈value.calls, C.Admits call) : Emits (C.worth b) (emitExpr d value) () :=
  emitExpr_emits (C.values b) value fun call hcall => ⟨hcalls call hcall,fun _ _ _ => rfl⟩

/-- Compiling an expression whose calls are admitted stays on the track. -/
theorem emitExpr_follows (e : Expr) (hcalls : ∀ call∈e.calls, C.Admits call) : FollowsRef C (emitExpr d e) :=
  follows_ref fun b => emits_known b hcalls

theorem emitWrite_follows (line : Option Nat) (name : String) (hcalls : ∀ call∈value.calls, C.Admits call) :
    FollowsRef C (emitWrite d line [⟨some (.name name),emitExpr d (.name name)⟩,⟨some value,emitExpr d value⟩] []) := by
  refine follows_ref fun b => (emitWrite_works ?_ (forall_mem_nil _)).imp ?_
  · exact forall_mem_cons.2 ⟨⟨_,emits_known b (by simp [Expr.calls])⟩,forall_mem_singleton.2 ⟨_,emits_known b hcalls⟩⟩
  · rintro _ _ _ _ _ ⟨_,_,rfl⟩
    rfl

end ChipForge.Wiring
