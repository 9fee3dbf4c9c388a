import ChipForge.Proofs.Assignment

/-! What assignments and declarations do to names: a name stays as it was, is bound to a node unless it has one, or becomes
an alias, which only a reference makes it. No other name changes. -/
namespace ChipForge.Wiring
open Script List

variable {d : Dialect} {s t u : State} {x : String} {type : Option GateType} {refers : Prop}

def Ref.IsNode (ref : Ref) : Prop := ∃ id port, ref=.node id port

/-- Does an expression stand for what a name or a port stands for? -/
def isReference : Expr→Bool
  | .name _ => true
  | .subscript _ _ => true
  | .unary _ .plus operand => isReference operand
  | .boolOp _ _ [value] => isReference value
  | _ => false

section Nodes
variable {b : State}

/-- References are worth whether they may be those of names. -/
abbrev nameWorth (d : Dialect) (b : State) : Worth d b where
  Val := Bool
  leaf _ := true
  constant _ := false
  made _ _ _ := false
  output _ _ := true
  Makes _ _ _ := True
  makes _ _ := trivial

theorem isReference_of_literal {e : Expr} {v : Literal} (h : (Literal.ofExpr? e).filter isConstant=some v) :
    isReference e=false := by
  cases e with
  | name | subscript | boolOp => cases h
  | unary line op operand =>
    obtain ⟨c,rfl⟩ := literal_unary (Option.filter_eq_some_iff.1 h).1
    cases op <;> rfl
  | _ => rfl

theorem foldl_pair_false (module : String) (vs : List Bool) : vs.foldl ((nameWorth d b).pair module) false=false := by
  induction vs with
  | nil => rfl
  | cons v vs ih => exact ih

theorem row_false {v w : (nameWorth d b).Val} {rest : List (CompareOp×(nameWorth d b).Val)} {ws : List (nameWorth d b).Val}
    (h : (nameWorth d b).Row v rest (w::ws)) : w=false := by
  cases h
  rfl

theorem isReference_values : (nameWorth d b).Values isReference where
  name _ := rfl
  port _ := rfl
  output _ := rfl
  logic {line op first rest} := by
    cases rest with
    | nil =>
      rw [isReference]
      rfl
    | cons second rest => exact (foldl_pair_false _ (rest.map isReference)).symm
  row {line left rest v vs} h := by
    rw [row_false h]
    exact (foldl_pair_false _ vs).symm
  choice _ := rfl
  negation := rfl
  literal h := isReference_of_literal h
  opposite _ := rfl
  plus _ := by rw [isReference]
  operator _ := rfl
  function {_ _ _ _ form _} _ _ := by
    unfold Worth.ofForm
    cases form.shape <;> rfl
  call _ := rfl

theorem isNode_acts {p q : Bench (nameWorth d b).Val×State} (h : Acts (nameWorth d b) p q)
    (hp : ∀ r∈p.1.held, r.2=false → r.1.IsNode) : ∀ r∈q.1.held, r.2=false → r.1.IsNode := by
  induction h with
  | refl => exact hp
  | tail _ hact ih =>
    cases hact with
    | order hperm => exact fun r hr => ih r (hperm.mem_iff.2 hr)
    | port => exact forall_mem_cons.2 ⟨nofun,ih⟩
    | output => exact forall_mem_cons.2 ⟨nofun,(forall_mem_cons.1 ih).2⟩
    | constant | close => exact forall_mem_cons.2 ⟨fun _ => ⟨_,_,rfl⟩,ih⟩
    | wire => exact (forall_mem_cons.1 ih).2
    | _ => exact ih

theorem emits_named (b : State) (e : Expr) : Emits (nameWorth d b) (emitExpr d e) (isReference e) := by
  refine emitExpr_emits isReference_values e fun call _ => ⟨fun _ _ _ _ _ _ _ _ => trivial,fun hcall _ _ => ?_⟩
  cases call with
  | call => rfl
  | _ => cases hcall

/-- An expression that does not stand for what a name or a port stands for yields a node. -/
theorem isNode_of_emitExpr {e : Expr} {ref : Ref} (h : isReference e=false) (hrun : outcome (emitExpr d e) s=(.ok ref,t)) :
    ref.IsNode := by
  obtain ⟨S,hacts,hout⟩ := emits_named s e (F := []) (R := []) s ⟨rfl,Nat.le_refl _⟩
  rw [hrun] at hout
  obtain rfl := hout ref rfl
  exact isNode_acts hacts (forall_mem_nil _) _ mem_cons_self h

end Nodes

theorem State.SameNames.of_works {α : Type} {m : Compile α} {Q : α → Bench (nameWorth d s).Val→Prop}
    (h : Works (nameWorth d s) ⟨[],[]⟩ m Q) : s.SameNames (outcome m s).2 := by
  obtain ⟨S,hacts,-⟩ := h s ⟨rfl,Nat.le_refl _⟩
  have hscope := (Acts.next hacts ⟨rfl,Nat.le_refl _⟩).scope
  exact ⟨congrArg Scope.nodeOf hscope,congrArg Scope.aliases hscope,congrArg Scope.nameTypes hscope⟩

theorem emitWrite_same (d : Dialect) (name : String) (value : Expr) (s : State) : s.SameNames (outcome (emitWrite d none
    [⟨some (.name name),emitExpr d (.name name)⟩,⟨some value,emitExpr d value⟩] []) s).2 := by
  refine .of_works (emitWrite_works (forall_mem_cons.2 ⟨⟨_,emits_named s _⟩,?_⟩) (forall_mem_nil _))
  exact forall_mem_singleton.2 ⟨_,emits_named s value⟩

theorem State.SameNames.emitConstant (d : Dialect) (v : Literal) (s : State) :
    ∃ id t, outcome (emitConstant d v none) s=(.ok id,t) ∧ SameNames s t := by
  rcases outcome_emitConstant d v none s with ⟨-,id,-,-,h⟩ | ⟨-,-,h⟩ | ⟨-,h⟩ <;> exact ⟨_,_,h,rfl,rfl,rfl⟩

theorem State.SameNames.connect (s : State) (ref : Ref) (id port : String) (line : Option Nat) :
    SameNames s (s.connect ref id port line) := by
  cases ref <;> exact ⟨rfl,rfl,rfl⟩

theorem State.SameNames.typeNow (h : SameNames s t) (d : Dialect) (e : Expr) : t.typeNow d e=s.typeNow d e := by
  rw [State.typeNow,State.typeNow,h.nameTypes]

/-- What becomes of a name that takes a type if it is bound to a node. A new node for a variable has no type of its own. -/
inductive Binds (x : String) (type : Option GateType) (refers : Prop) (s t : State) : Prop
  | same (h : s.SameNames t)
  | node (id : String) (kind : Option GateType) (hkind : kind=none ∨ kind=type) (hnodeOf : t.nodeOf=s.nodeOf.putNew x id)
    (haliases : t.aliases=s.aliases) (hnames : t.nameTypes=kind.elim s.nameTypes (s.nameTypes.put x))
    (htypes : ∀ k∈kind, t.nodeTypes.find id=some k ∨ t.nodeTypes.find id=s.nodeTypes.find (s.graph.nextId "VARIABLE").1)
  | renamed (href : refers) (target : String×String) (hnodeOf : t.nodeOf=s.nodeOf ∨ ∃ id, t.nodeOf=s.nodeOf.putNew x id)
    (haliases : t.aliases=s.aliases.put x target) (hnames : ∀ y≠x, t.nameTypes.find y=s.nameTypes.find y)

namespace Binds

theorem assign {kind : Option GateType} (h : s.SameNames u) (id : String) (hkind : kind=none ∨ kind=type) :
    Binds x type refers s (u.assign x id kind) := by
  have hnodeOf : u.nodeOf.putNew x id=s.nodeOf.putNew x id := by rw [h.nodeOf]
  cases kind with
  | none => exact .node id none hkind hnodeOf h.aliases h.nameTypes nofun
  | some k =>
    refine .node id (some k) hkind hnodeOf h.aliases (congrArg (·.put x k) h.nameTypes) ?_
    rintro _ ⟨⟩
    exact .inl (Table.find_put_self ..)

theorem then_same (h : Binds x type refers s t) (htu : t.SameNames u) (htypes : u.nodeTypes=t.nodeTypes) :
    Binds x type refers s u := by
  cases h with
  | same h => exact .same (h.trans htu)
  | node id kind hkind hnodeOf haliases hnames hnode =>
    exact .node id kind hkind (htu.nodeOf.trans hnodeOf) (htu.aliases.trans haliases) (htu.nameTypes.trans hnames)
      (htypes ▸ hnode)
  | renamed href target hnodeOf haliases hnames =>
    exact .renamed href target (htu.nodeOf ▸ hnodeOf) (htu.aliases.trans haliases) (htu.nameTypes ▸ hnames)

end Binds

theorem feedVariable_same (d : Dialect) (line : Nat) (x : String) (ref : Ref) (s : State) :
    s.SameNames (outcome (feedVariable d line x ref) s).2 := by
  unfold feedVariable
  rw [outcome_get_bind]
  split
  · split_ifs
    · rename_i id _ _
      let fed := s.connect ref id "Value" (some line)
      obtain ⟨source,t,hrun,ht⟩ := State.SameNames.emitConstant d (.float 1.0) fed
      have hon : outcome (alwaysOn d) fed=(.ok (.node source "Output"),t) := outcome_bind_ok hrun
      rw [outcome_modify_bind,outcome_bind_ok hon]
      have hset : t.SameNames ((t.connect (.node source "Output") id "Set" (some line)).markWritten x) := ⟨rfl,rfl,rfl⟩
      exact ((State.SameNames.connect s ref id _ _).trans ht).trans hset
    · exact ⟨rfl,rfl,rfl⟩
  · exact ⟨rfl,rfl,rfl⟩

theorem assignCall_binds (line : Nat) (call fn : Expr) (keywords : List Keyword) :
    Binds x (s.typeNow d call) refers s (outcome (assignCall d line x call fn keywords) s).2 := by
  have hsame := State.SameNames.emitExpr d call s
  rw [assignCall,outcome_bind]
  rcases hrun : outcome (emitExpr d call) s with ⟨issue | ref,u⟩ <;> rw [hrun] at hsame
  · exact .same hsame
  dsimp only at hsame ⊢
  rw [outcome_bind_ok (outcome_typeIfAny _ call u),hsame.typeNow]
  cases ref with
  | name up port => exact .same hsame
  | node id port =>
    dsimp only
    rw [outcome_get_bind]
    split_ifs with hinput hvariable
    · exact .same (hsame.trans (feedVariable_same d line x _ u))
    · rw [outcome_modify_bind,outcome_bind_ok (outcome_rememberType x id _ u)]
      obtain ⟨w,hrun,hw,htypes⟩ := defineCalled_same x keywords (u.assign x id (s.typeNow d call))
      rw [hrun]
      exact (Binds.assign hsame id (.inr rfl)).then_same hw htypes
    · rw [outcome_modify_bind,outcome_bind_ok (outcome_rememberType x id _ u)]
      exact .assign hsame id (.inr rfl)

theorem assignPort_binds (href : refers) (value slice : Expr) :
    Binds x type refers s (outcome (assignPort d x value slice) s).2 := by
  unfold assignPort
  split
  · exact .same ⟨rfl,rfl,rfl⟩
  · split
    · exact .renamed href _ (.inl rfl) rfl fun _ _ => rfl
    · rename_i port _ _ line fn args keywords
      have hsame := State.SameNames.emitExpr d (.call line fn args keywords) s
      rw [outcome_bind]
      rcases hrun : outcome (emitExpr d (.call line fn args keywords)) s with ⟨issue | ref,u⟩ <;> rw [hrun] at hsame
      · exact .same hsame
      · cases ref with
        | name up port => exact .same hsame
        | node id out =>
          exact .renamed href (x,port) (.inr ⟨id,congrArg (·.putNew x id) hsame.nodeOf⟩) (congrArg (·.put x (x,port)) hsame.aliases)
            fun y _ => congrArg (·.find y) hsame.nameTypes
    · exact .same ⟨rfl,rfl,rfl⟩

theorem rememberType_names (x : String) (type : Option GateType) (id : Option String) (s : State) :
    let t := (outcome (rememberType x type id) s).2
    t.nodeOf=s.nodeOf ∧ t.aliases=s.aliases ∧ ∀ y≠x, t.nameTypes.find y=s.nameTypes.find y := by
  cases type with
  | none => exact ⟨rfl,rfl,fun _ _ => rfl⟩
  | some type => cases id <;> exact ⟨rfl,rfl,fun y hy => Table.find_put_ne _ _ hy⟩

theorem assignValue_binds (value : Expr) :
    Binds x (s.typeNow d value) (isReference value=true) s (outcome (assignValue d x value) s).2 := by
  have hsame := State.SameNames.emitExpr d value s
  rw [assignValue,outcome_bind,outcome_emitOrSkip]
  rcases hrun : outcome (emitExpr d value) s with ⟨issue | ref,u⟩ <;> rw [hrun] at hsame
  · dsimp only
    split_ifs <;> exact .same hsame
  cases ref with
  | node id port =>
    show Binds x _ _ s (outcome (do
      modify fun s => s.bindNew x id
      let t ← typeIfAny d value
      rememberType x t (some id)) u).2
    rw [outcome_bindTyped,hsame.typeNow]
    exact .assign hsame id (.inr rfl)
  | name up port =>
    have href : isReference value=true := by
      by_contra hvalue
      obtain ⟨id,out,hnode⟩ := isNode_of_emitExpr (by simpa using hvalue) hrun
      cases hnode
    -- The name becomes an alias, whatever type it takes.
    have haliases : u.aliases.put x (up,port)=s.aliases.put x (up,port) := by rw [hsame.aliases]
    dsimp only
    rw [outcome_modify_bind,outcome_get_bind]
    cases u.nodeOf.find up with
    | none =>
      obtain ⟨hnode,halias,hnames⟩ := rememberType_names x (u.nameTypes.find up) (u.nodeOf.find x)
        { u with aliases := u.aliases.put x (up,port) }
      exact .renamed href _ (.inl (hnode.trans hsame.nodeOf)) (halias.trans haliases) (hsame.nameTypes ▸ hnames)
    | some id =>
      obtain ⟨hnode,halias,hnames⟩ := rememberType_names x (u.nameTypes.find up) ((u.bindNew x id).nodeOf.find x)
        ({ u with aliases := u.aliases.put x (up,port) }.bindNew x id)
      exact .renamed href _ (.inr ⟨id,hnode.trans (congrArg (·.putNew x id) hsame.nodeOf)⟩) (halias.trans haliases)
        (hsame.nameTypes ▸ hnames)

theorem assignOther_binds (value : Expr) :
    Binds x (s.typeNow d value) (isReference value=true) s (outcome (assignOther d x value) s).2 := by
  unfold assignOther
  dsimp only
  split
  · unfold defineFrom
    split
    · rename_i key gateType _ _
      obtain ⟨u,hrun,hsame,-⟩ := outcome_defineVariable d key gateType _ x s
      rw [hrun]
      exact .assign hsame _ (.inl rfl)
    · exact .same ⟨rfl,rfl,rfl⟩
  · split
    · rename_i v _
      obtain ⟨id,u,hrun,hsame⟩ := State.SameNames.emitConstant d v s
      rw [outcome_bind_ok hrun,outcome_bindTyped,hsame.typeNow]
      exact .assign hsame id (.inr rfl)
    · exact assignValue_binds value

theorem compileAssign_binds (d : Dialect) (line : Nat) (x : String) (value : Expr) (s : State) :
    Binds x (s.typeNow d value) (isReference value=true) s (outcome (compileAssign d line [.name x] value) s).2 := by
  unfold compileAssign
  dsimp only
  rw [outcome_get_bind]
  split_ifs
  · rw [outcome_discard]
    exact .same (emitWrite_same d x value s)
  · split
    · exact assignCall_binds line _ _ _
    · exact assignPort_binds rfl _ _
    · exact assignOther_binds _

theorem declareValue_binds (d : Dialect) (line : Nat) (x : String) (type : GateType) (isFinal : Bool) (init : Option Expr)
    (s : State) : Binds x (some type) refers s (outcome (declareValue d line x type isFinal init) s).2 := by
  unfold declareValue
  cases initialValue x line type init with
  | error issue => exact .same ⟨rfl,rfl,rfl⟩
  | ok v =>
    cases isFinal with
    | true =>
      cases init with
      | none => exact .same ⟨rfl,rfl,rfl⟩
      | some e =>
        obtain ⟨id,u,hrun,hsame⟩ := State.SameNames.emitConstant d v s
        show Binds x _ _ s (outcome (do bindDeclared x (← emitConstant d v none) type) s).2
        rw [outcome_bind_ok hrun]
        exact .assign hsame id (.inr rfl)
    | false =>
      let define (_ : Unit) : Compile Unit := do
        defineVariable d x type.name v (some x)
        modify fun s => s.setNameType x type
      show Binds x _ _ s (outcome (if s.graph.definitions.any (·.key == x) then throw (.declaredTwice x line) >>= define
        else define ()) s).2
      split_ifs
      · exact .same ⟨rfl,rfl,rfl⟩
      · obtain ⟨u,hrun,hsame,htypes⟩ := outcome_defineVariable d x type.name v x s
        simp only [define]
        rw [outcome_bind_ok hrun]
        exact .node _ (some type) (.inr rfl) (congrArg (·.putNew x (s.graph.nextId "VARIABLE").1) hsame.nodeOf)
          hsame.aliases (congrArg (·.put x type) hsame.nameTypes) fun _ _ => .inr (congrArg (·.find (s.graph.nextId "VARIABLE").1) htypes)

theorem compileDeclare_binds (d : Dialect) (line : Nat) (x : String) (typeNote : Expr) (init : Option Expr) (s : State) :
    ∃ type, Binds x type False s (outcome (compileDeclare d line (.name x) typeNote init) s).2 := by
  unfold compileDeclare
  dsimp only
  split
  · rename_i type isFinal _
    refine ⟨some type,?_⟩
    cases init with
    | none => exact declareValue_binds d line x type isFinal none s
    | some e =>
      rw [compileDeclaration_some]
      split_ifs with hinput
      · have hsame := State.SameNames.emitExpr d e s
        rw [outcome_bind]
        rcases hrun : outcome (emitExpr d e) s with ⟨issue | ref,u⟩ <;> rw [hrun] at hsame
        · exact .same hsame
        · -- Inputs are nodes.
          obtain ⟨_,_,_,_,-,-,hemit⟩ := emitExpr_input d hinput
          rw [hemit] at hrun
          obtain ⟨id,_,-,hpure⟩ := outcome_bind_eq_ok.1 hrun
          cases hpure
          exact .assign hsame id (.inr rfl)
      · exact declareValue_binds d line x type isFinal (some e) s
  · exact ⟨none,.same ⟨rfl,rfl,rfl⟩⟩

theorem compileAssign_same (line : Nat) {targets : List Expr} (h : ¬∃ x, targets=[.name x]) (value : Expr) (s : State) :
    s.SameNames (outcome (compileAssign d line targets value) s).2 := by
  unfold compileAssign
  split
  · exact absurd ⟨_,rfl⟩ h
  · exact ⟨rfl,rfl,rfl⟩

theorem compileDeclare_same (line : Nat) {target : Expr} (h : ¬∃ x, target=.name x) (typeNote : Expr) (init : Option Expr)
    (s : State) : s.SameNames (outcome (compileDeclare d line target typeNote init) s).2 := by
  unfold compileDeclare
  split
  · exact absurd ⟨_,rfl⟩ h
  · exact ⟨rfl,rfl,rfl⟩

theorem compileExprStmt_same (d : Dialect) (value : Expr) (s : State) :
    s.SameNames (outcome (compileExprStmt d value) s).2 := by
  have hemitted : s.SameNames (outcome (discard (emitExpr d value)) s).2 := by
    rw [outcome_discard]
    exact .emitExpr d value s
  unfold compileExprStmt
  split
  · unfold defineFrom
    split <;> exact ⟨rfl,rfl,rfl⟩
  · split
    · exact hemitted
    · exact ⟨rfl,rfl,rfl⟩

end ChipForge.Wiring
