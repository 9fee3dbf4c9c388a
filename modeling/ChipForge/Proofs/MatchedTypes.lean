import ChipForge.Proofs.Bindings
import ChipForge.Proofs.CompiledExpression

/-! A name that is assigned takes the type of its value, and so does the node of the value. As the name keeps its first node,
the two types part once a name is given a value of another type, or the node of a name is given another type. They agree as
long as neither happens. -/
namespace ChipForge.Wiring
open Script List

theorem Change.typed {asked : String→Prop} {s t : State} (h : Change asked s t)
    (hs : ∀ id type, s.nodeTypes.find id=some type → id∈s.graph.ids) {id : String} {type : GateType}
    (htype : t.nodeTypes.find id=some type) : id∈t.graph.ids := by
  cases h with
  | step hstep =>
    by_contra hid
    have hkept := hstep.extends.nodeTypes (Nat.zero_le _) id hid
    exact hid (hstep.extends.ids.subset (hs id type (hkept ▸ htype)))
  | scope scope h => exact hs id type htype
  | define v => exact hs id type htype
  | guard guarded inGuard => exact hs id type htype

theorem Reachable.typed {s : State} (hs : Reachable s) {id : String} {type : GateType}
    (htype : s.nodeTypes.find id=some type) : id∈s.graph.ids := by
  suffices h : ∀ id type, s.nodeTypes.find id=some type → id∈s.graph.ids from h id type htype
  clear htype
  induction hs with
  | refl => exact nofun
  | tail _ hchange ih => exact fun id type htype => hchange.typed ih htype

namespace State

variable {s t u : State} {x id : String}

/-- Only one name changed. If it has a type, it stood for its node with that type before, or the node has that type or
none. -/
structure Assigned (x : String) (s t : State) : Prop where
  nodeOf : ∀ y≠x, t.nodeOf.find y=s.nodeOf.find y
  aliases : ∀ y≠x, t.aliases.find y=s.aliases.find y
  nameTypes : ∀ y≠x, t.nameTypes.find y=s.nameTypes.find y
  own : ∀ type, t.nameTypes.find x=some type→¬t.Free x ∧ ∀ id, t.Stands x id →
    s.Stands x id ∧ s.nameTypes.find x=some type ∨ t.nodeTypes.find id=some type ∨ t.nodeTypes.find id=none

end State

/-- A name with a type stands for something. If that is a node, it has the same type or none. -/
structure Matched (s : State) : Prop where
  stands : ∀ {x type}, s.nameTypes.find x=some type→¬s.Free x
  agrees : ∀ {x id type}, s.Stands x id → s.nameTypes.find x=some type →
    s.nodeTypes.find id=some type ∨ s.nodeTypes.find id=none

namespace State

variable {s t u : State} {x id : String} {d : Dialect}

/-- The name stands for nothing, or has the type that it takes. -/
def Takes (s : State) (x : String) (type : Option GateType) : Prop :=
  s.Free x ∨ ∀ t∈type, s.nameTypes.find x=some t

/-- If the name has a type, it stands for something. -/
def Known (s : State) (x : String) : Prop := ∀ type, s.nameTypes.find x=some type→¬s.Free x

end State

namespace Matched

variable {s t u : State} {x id : String} {type : GateType}

theorem initial : Matched State.initial := ⟨nofun,nofun⟩

end Matched

namespace State.Assigned

variable {s t : State} {x : String} {type : Option GateType} {refers : Prop}

theorem of_same (h : s.SameNames t) (hs : s.Known x) : s.Assigned x t where
  nodeOf y _ := by rw [h.nodeOf]
  aliases y _ := by rw [h.aliases]
  nameTypes y _ := by rw [h.nameTypes]
  own type hx := by
    rw [h.nameTypes] at hx
    exact ⟨fun hfree => hs type hx (hfree.of_same h.symm),fun id hid => .inl ⟨hid.of_same h.symm,hx⟩⟩

/-- A name that becomes an alias stands for no node. One that is bound stands for the node it had or for the new one. -/
theorem of_binds (h : Binds x type refers s t) (hs : s.Known x) (hx : s.Takes x type)
    (hnew : s.nodeTypes.find (s.graph.nextId "VARIABLE").1=none) : s.Assigned x t := by
  cases h with
  | same h => exact .of_same h hs
  | renamed _ target hnodeOf haliases hnames =>
    have halias : t.aliases.find x=some target := by rw [haliases,Table.find_put_self]
    refine ⟨fun y hy => ?_,fun y hy => by rw [haliases,Table.find_put_ne _ _ hy],hnames,fun _ _ => ⟨fun hfree => ?_,?_⟩⟩
    · rcases hnodeOf with hnodeOf | ⟨id,hnodeOf⟩
      · rw [hnodeOf]
      · rw [hnodeOf,Table.find_putNew,if_neg hy]
    · cases halias.symm.trans hfree.aliases
    · exact fun id hid => nomatch halias.symm.trans hid.aliases
  | node id kind hkind hnodeOf haliases hnames htypes =>
    have hown : t.nodeOf.find x=some ((s.nodeOf.find x).getD id) := by rw [hnodeOf,Table.find_putNew,if_pos rfl]
    have hbefore : ∀ {place}, t.Stands x place → s.Free x ∧ place=id ∨ s.Stands x place := by
      intro place hplace
      have hplaced := hown.symm.trans hplace.nodeOf
      have halias : s.aliases.find x=none := haliases ▸ hplace.aliases
      cases hnode : s.nodeOf.find x with
      | none =>
        rw [hnode] at hplaced
        exact .inl ⟨⟨hnode,halias⟩,(Option.some.inj hplaced).symm⟩
      | some node =>
        rw [hnode] at hplaced
        exact .inr ⟨hnode.trans hplaced,halias⟩
    refine ⟨fun y hy => by rw [hnodeOf,Table.find_putNew,if_neg hy],fun y _ => by rw [haliases],fun y hy => ?_,
      fun _ htype => ⟨fun hfree => (nomatch hown.symm.trans hfree.nodeOf),fun place hplace => ?_⟩⟩
    · rw [hnames]
      cases kind with
      | none => rfl
      | some k => exact Table.find_put_ne _ _ hy
    · rw [hnames] at htype
      cases kind with
      | none => exact .inl ⟨(hbefore hplace).resolve_left fun ⟨hfree,_⟩ => hs _ htype hfree,htype⟩
      | some k =>
        obtain rfl := Option.some.inj ((Table.find_put_self s.nameTypes x k).symm.trans htype)
        rcases hbefore hplace with ⟨-,rfl⟩ | hstands
        · exact .inr ((htypes k rfl).imp_right fun h => h.trans hnew)
        · rcases hx with hfree | hall
          · cases hfree.nodeOf.symm.trans hstands.nodeOf
          · exact .inl ⟨hstands,hall k (hkind.resolve_left nofun).symm⟩

end State.Assigned

section Runs
variable {d : Dialect} {s : State} {stmt : Stmt} {stmts : List Stmt}

end Runs

end ChipForge.Wiring
