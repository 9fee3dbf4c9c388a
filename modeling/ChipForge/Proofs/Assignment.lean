import ChipForge.Proofs.Placement

/-! A name that stood for nothing and is assigned an output of a node stands for that node; whether it also denotes that
output depends on the form of the expression. -/
namespace ChipForge.Wiring
open Script

namespace State

variable {s t u : State} {name id : String}

def isConstantNode (s : State) (id : String) : Bool := (s.graph.lastNode? id).any (·.type == "Constant")

/-- A reference in which the output of a constant goes by one name. -/
def canonical (s : State) : Ref→Ref
  | .node id port => .node id (if port=autoPort ∧ s.isConstantNode id=true then "Output" else port)
  | .name id port => .name id port

theorem canonical_auto_eq_iff (s : State) (id port : String) :
    s.canonical (.node id autoPort)=s.canonical (.node id port) ↔
      port=autoPort ∨ port = "Output" ∧ s.isConstantNode id=true := by
  by_cases hport : port=autoPort
  · simp [hport]
  · by_cases hconstant : s.isConstantNode id=true
    · simpa [canonical,hport,hconstant] using eq_comm
    · simpa [canonical,hport,hconstant] using fun h => hport h.symm

/-- A name that stands for nothing. -/
structure Free (s : State) (name : String) : Prop where
  nodeOf : s.nodeOf.find name=none
  aliases : s.aliases.find name=none

/-- A name that stands for a node and is no alias. -/
structure Stands (s : State) (name id : String) : Prop where
  nodeOf : s.nodeOf.find name=some id
  aliases : s.aliases.find name=none

theorem Stands.refOfName (h : s.Stands name id) : s.refOfName name=.node id autoPort := by
  rw [State.refOfName,h.aliases,h.nodeOf]

/-- Names stand for what they stood for and have the types they had. -/
structure SameNames (s t : State) : Prop where
  nodeOf : t.nodeOf=s.nodeOf
  aliases : t.aliases=s.aliases
  nameTypes : t.nameTypes=s.nameTypes

theorem SameNames.symm (h : SameNames s t) : SameNames t s := ⟨h.nodeOf.symm,h.aliases.symm,h.nameTypes.symm⟩

theorem SameNames.trans (hst : SameNames s t) (htu : SameNames t u) : SameNames s u :=
  ⟨htu.nodeOf.trans hst.nodeOf,htu.aliases.trans hst.aliases,htu.nameTypes.trans hst.nameTypes⟩

theorem SameNames.emitExpr (d : Dialect) (e : Expr) (s : State) : SameNames s (outcome (emitExpr d e) s).2 :=
  let h := emitExpr_extends d e s
  ⟨h.nodeOf,h.aliases,h.nameTypes⟩

theorem SameNames.noteName (s : State) (name : String) : SameNames s (s.noteName name) := by
  unfold State.noteName
  split <;> exact ⟨rfl,rfl,rfl⟩

theorem Free.of_same (h : s.Free name) (hst : s.SameNames t) : t.Free name :=
  ⟨hst.nodeOf ▸ h.nodeOf,hst.aliases ▸ h.aliases⟩

theorem Stands.of_same (h : s.Stands name id) (hst : s.SameNames t) : t.Stands name id :=
  ⟨hst.nodeOf ▸ h.nodeOf,hst.aliases ▸ h.aliases⟩

theorem Free.emitted {d : Dialect} {e : Expr} {result : Except Issue Ref} (h : s.Free name)
    (hrun : outcome (emitExpr d e) s=(result,t)) : t.Free name := by
  have hsame := SameNames.emitExpr d e s
  rw [hrun] at hsame
  exact h.of_same hsame

theorem Free.bindNew (h : s.Free name) (id : String) : (s.bindNew name id).Stands name id := by
  refine ⟨?_,h.aliases⟩
  show (s.nodeOf.putNew name id).find name=some id
  rw [Table.find_putNew,if_pos rfl,h.nodeOf]
  rfl

/-- The name is given a node unless it has one, and both are given the type. -/
def assign (s : State) (name id : String) : Option GateType→State
  | none => s.bindNew name id
  | some type => ((s.bindNew name id).setNameType name type).setNodeType id type

theorem Free.assign (h : s.Free name) (id : String) (type : Option GateType) : (s.assign name id type).Stands name id := by
  have hstands := h.bindNew id
  cases type <;> exact ⟨hstands.nodeOf,hstands.aliases⟩

end State

section Assigned
variable {d : Dialect} {s u : State} {name id port : String} {value slice : Expr} {e : Expr} {v : Literal} {ref : Ref}

theorem outcome_rememberType (name id : String) (type : Option GateType) (s : State) :
    outcome (rememberType name type (some id)) (s.bindNew name id)=(.ok (),s.assign name id type) := by
  cases type <;> rfl

theorem outcome_bindTyped (d : Dialect) (name id : String) (value : Expr) (s : State) :
    outcome (do
      modify fun s => s.bindNew name id
      let t ← typeIfAny d value
      rememberType name t (some id)) s=(.ok (),s.assign name id (s.typeNow d value)) := by
  rw [outcome_modify_bind,outcome_bind_ok (outcome_typeIfAny d value _)]
  exact outcome_rememberType name id (s.typeNow d value) s

theorem defineCalled_same (name : String) (keywords : List Keyword) (s : State) :
    ∃ t, outcome (defineCalled name keywords) s=(.ok (),t) ∧ s.SameNames t ∧ t.nodeTypes=s.nodeTypes := by
  have hnote : ∀ s : State, (s.noteName name).nodeTypes=s.nodeTypes := by
    intro s
    unfold State.noteName
    split <;> rfl
  rw [defineCalled,outcome_get_bind]
  dsimp only
  split_ifs
  · cases valueSetting? keywords with
    | none => exact ⟨_,rfl,.noteName s name,hnote s⟩
    | some v =>
      let defined := s.define ⟨name,(variableType v).name,v,some name⟩
      exact ⟨_,rfl,.trans (t := defined) ⟨rfl,rfl,rfl⟩ (.noteName defined name),hnote defined⟩
  · exact ⟨_,rfl,.noteName s name,hnote s⟩

theorem assignCall_stands {call : Expr} (line : Nat) (fn : Expr) (keywords : List Keyword) (hfree : s.Free name)
    (hrun : outcome (emitExpr d call) s=(.ok (.node id port),u)) :
    ∃ t, outcome (assignCall d line name call fn keywords) s=(.ok (),t) ∧ t.Stands name id := by
  have hu : u.Free name := hfree.emitted hrun
  have hhas : u.nodeOf.has name=false := by rw [Table.has_eq_isSome,hu.nodeOf]; rfl
  rw [assignCall,outcome_bind_ok hrun,outcome_bind_ok (outcome_typeIfAny d call u)]
  dsimp only
  rw [outcome_get_bind,hhas,Bool.and_false,if_neg (by decide),outcome_modify_bind,
    outcome_bind_ok (outcome_rememberType name id _ u)]
  split_ifs
  · obtain ⟨t,hrun,hsame,-⟩ := defineCalled_same name keywords (u.assign name id (u.typeNow d call))
    exact ⟨t,hrun,(hu.assign id _).of_same hsame⟩
  · exact ⟨_,rfl,hu.assign id _⟩

theorem assignValue_stands (hfree : s.Free name) (hrun : outcome (emitExpr d value) s=(.ok (.node id port),u)) :
    ∃ t, outcome (assignValue d name value) s=(.ok (),t) ∧ t.Stands name id := by
  have hu : u.Free name := hfree.emitted hrun
  have hvalue : outcome (emitOrSkip d value) s=(.ok (some (.node id port)),u) := by
    rw [outcome_emitOrSkip,hrun]
  rw [assignValue,outcome_bind_ok hvalue]
  exact ⟨_,outcome_bindTyped d name id value u,hu.assign id _⟩

theorem emitExpr_literal (d : Dialect) (h : (Literal.ofExpr? e).filter isConstant=some v) :
    emitExpr d e=(do
      let id ← emitConstant d v none
      pure (.node id "Output")) := by
  have hor : ∀ otherwise, constantOr d e otherwise=(do
      let id ← emitConstant d v none
      pure (.node id "Output")) := by
    intro otherwise
    rw [constantOr,h]
  cases e with
  | name | subscript | boolOp | compare | cond => cases h
  | call line fn args keywords => exact nomatch (literal_call line fn args keywords).symm.trans h
  | binary left op right => exact nomatch (literal_binary left right op).symm.trans h
  | unary line op operand =>
    rw [emitExpr_unary,if_neg]
    · exact hor _
    · cases op with
      | not => cases h
      | _ => simp
  | _ =>
    rw [emitExpr]
    · exact hor _
    all_goals simp

/-- Is the expression a table that defines a variable? -/
def definesVariable (e : Expr) : Bool := (Literal.ofExpr? e).any isDefinition

theorem definesVariable_call (line : Nat) (fn : Expr) (args : List Expr) (keywords : List Keyword) :
    definesVariable (.call line fn args keywords)=false := by
  unfold definesVariable Literal.ofExpr? Literal.ofExpr
  split <;> first | rfl | contradiction

theorem filter_isDefinition (h : definesVariable value=false) : (Literal.ofExpr? value).filter isDefinition=none := by
  cases hv : Literal.ofExpr? value with
  | none => rfl
  | some v =>
    rw [definesVariable,hv] at h
    exact Option.filter_some_neg (by simpa using h)

theorem isConstant_of_isScalar (h : isScalar v=true) : isConstant v=true := by
  simp only [isScalar,Bool.or_eq_true] at h
  simp only [isConstant,Bool.or_eq_true]
  tauto

theorem outcome_defineVariable (d : Dialect) (key gateType : String) (v : Literal) (name : String) (s : State) :
    ∃ u, outcome (defineVariable d key gateType v (some name)) s=(.ok (),u.bindNew name (s.graph.nextId "VARIABLE").1) ∧
      s.SameNames u ∧ u.nodeTypes=s.nodeTypes := by
  obtain ⟨f,hrun⟩ := outcome_emitVariable d name (s.define ⟨key,gateType,v,some name⟩)
  rw [defineVariable,addVariable,outcome_modify_bind]
  exact ⟨_,outcome_bind_ok hrun,⟨rfl,rfl,rfl⟩,rfl⟩

theorem defineFrom_refOfName (d : Dialect) (table : Literal) (hfree : s.Free name) :
    ∃ t, outcome (defineFrom d table (some name)) s=(.ok (),t) ∧
      (t.refOfName name=.node (s.graph.nextId "VARIABLE").1 autoPort ∨ t.refOfName name=.name name autoPort) := by
  unfold defineFrom
  split
  · rename_i key gateType _ _
    obtain ⟨u,hrun,hsame,-⟩ := outcome_defineVariable d key gateType ((table.get? "Value").getD .none) name s
    exact ⟨_,hrun,.inl ((hfree.of_same hsame).bindNew _).refOfName⟩
  · refine ⟨s,rfl,.inr ?_⟩
    rw [State.refOfName,hfree.aliases,hfree.nodeOf]

theorem assignOther_stands (hdefines : definesVariable value=false) (hfree : s.Free name)
    (hrun : outcome (emitExpr d value) s=(.ok (.node id port),u)) :
    ∃ t, outcome (assignOther d name value) s=(.ok (),t) ∧ t.Stands name id := by
  rw [assignOther,filter_isDefinition hdefines]
  dsimp only
  cases hscalar : (Literal.ofExpr? value).filter isScalar with
  | none => exact assignValue_stands hfree hrun
  | some v =>
    obtain ⟨hv,hscalar⟩ := Option.filter_eq_some_iff.1 hscalar
    rw [emitExpr_literal d (Option.filter_eq_some_iff.2 ⟨hv,isConstant_of_isScalar hscalar⟩)] at hrun
    obtain ⟨id',w,hemit,hpure⟩ := outcome_bind_eq_ok.1 hrun
    obtain ⟨href,rfl⟩ := Prod.mk.inj hpure
    obtain ⟨rfl,-⟩ := Ref.node.inj (Except.ok.inj href)
    have hw : w.Free name := by
      obtain ⟨hadds,hnodeOf⟩ := Adds.constant hemit
      exact ⟨hnodeOf ▸ hfree.nodeOf,hadds.aliases ▸ hfree.aliases⟩
    dsimp only
    rw [outcome_bind_ok hemit]
    exact ⟨_,outcome_bindTyped d name id' value w,hw.assign id' _⟩

theorem emitExpr_portOfName {up : String} (h : outcome (emitExpr d (.subscript (.name up) slice)) s=(.ok ref,u)) :
    ∃ text, (Literal.ofExpr? slice).bind portText?=some text ∧ ref=s.refOfPort up text := by
  rw [emitExpr] at h
  obtain ⟨v,w,hslice,hport⟩ := outcome_bind_eq_ok.1 h
  obtain ⟨hv,rfl⟩ := subscriptPort_eq_ok hslice
  rw [hv,Option.bind_some]
  cases htext : portText? v with
  | none =>
    rw [htext] at hport
    cases hport
  | some text =>
    rw [htext] at hport
    dsimp only at hport
    rw [outcome_get_bind] at hport
    exact ⟨text,rfl,(Except.ok.inj (Prod.mk.inj hport).1).symm⟩

theorem emitExpr_portOfCall {line : Nat} {fn : Expr} {args : List Expr} {keywords : List Keyword}
    (h : outcome (emitExpr d (.subscript (.call line fn args keywords) slice)) s=(.ok ref,u)) :
    ∃ text called, (Literal.ofExpr? slice).bind portText?=some text ∧
      outcome (emitExpr d (.call line fn args keywords)) s=(.ok called,u) ∧ ref=outputOf called text := by
  have hcall : emitExpr d (.call line fn args keywords) =
      emitWritten d line fn (operands d args) (namedOperands d keywords) := by
    rw [emitExpr]
  rw [emitExpr,← hcall] at h
  obtain ⟨called,w,hrun,hafter⟩ := outcome_bind_eq_ok.1 h
  obtain ⟨v,w',hslice,hport⟩ := outcome_bind_eq_ok.1 hafter
  obtain ⟨hv,rfl⟩ := subscriptPort_eq_ok hslice
  rw [hv,Option.bind_some]
  cases htext : portText? v with
  | none =>
    rw [htext] at hport
    cases called <;> cases hport
  | some text =>
    rw [htext] at hport
    obtain ⟨href,rfl⟩ := Prod.mk.inj hport
    exact ⟨text,called,rfl,hrun,(Except.ok.inj href).symm⟩

theorem assignPort_refOfName (hfree : s.Free name)
    (hrun : outcome (emitExpr d (.subscript value slice)) s=(.ok (.node id port),u)) :
    ∃ t, outcome (assignPort d name value slice) s=(.ok (),t) ∧ t.refOfName name=.node id port := by
  cases value with
  | name up =>
    obtain ⟨text,htext,href⟩ := emitExpr_portOfName hrun
    rw [assignPort,htext,href]
    refine ⟨_,rfl,?_⟩
    rw [State.refOfName,Table.find_put_self]
    rfl
  | call line fn args keywords =>
    obtain ⟨text,called,htext,hcall,href⟩ := emitExpr_portOfCall hrun
    have hu : u.Free name := hfree.emitted hcall
    cases called with
    | name up out => cases href
    | node id' out =>
      obtain ⟨rfl,rfl⟩ := Ref.node.inj href
      rw [assignPort,htext]
      dsimp only
      rw [outcome_bind_ok hcall]
      refine ⟨_,rfl,?_⟩
      rw [State.refOfName,Table.find_put_self]
      dsimp only
      rw [(hu.bindNew id).nodeOf]
  | _ =>
    rw [emitExpr] at hrun
    · cases hrun
    all_goals simp

/-- Is the expression an output that is named by its port? -/
def isPort : Expr→Bool
  | .subscript _ _ => true
  | _ => false

private theorem assignOther_refOfName (hfree : s.Free name) (hrun : outcome (emitExpr d value) s=(.ok (.node id port),u)) :
    ∃ t, outcome (assignOther d name value) s=(.ok (),t) ∧
      (definesVariable value=false → t.refOfName name=.node id autoPort) ∧
      (definesVariable value=true →
        t.refOfName name=.node (s.graph.nextId "VARIABLE").1 autoPort ∨ t.refOfName name=.name name autoPort) := by
  cases hdefines : definesVariable value with
  | false =>
    obtain ⟨t,ht,hstands⟩ := assignOther_stands hdefines hfree hrun
    exact ⟨t,ht,fun _ => hstands.refOfName,fun h => nomatch h⟩
  | true =>
    obtain ⟨table,htable,hdefinition⟩ := (Option.any_eq_true _ _).1 hdefines
    obtain ⟨t,ht,hname⟩ := defineFrom_refOfName d table hfree
    refine ⟨t,?_,(fun h => nomatch h),fun _ => hname⟩
    rw [assignOther,htable,Option.filter_some_pos hdefinition]
    exact ht

/-- What a name that stood for nothing denotes after it is assigned an output of a node. -/
theorem compileStmt_assign_refOfName (line : Nat) (hfree : s.Free name) (hdeclared : s.declares name=false)
    (hrun : outcome (emitExpr d e) s=(.ok (.node id port),u)) :
    ∃ t, outcome (compileStmt d (.assign line [.name name] e)) s=(.ok (),t) ∧
      (definesVariable e=false → t.refOfName name=.node id (if isPort e then port else autoPort)) ∧
      (definesVariable e=true →
        t.refOfName name=.node (s.graph.nextId "VARIABLE").1 autoPort ∨ t.refOfName name=.name name autoPort) := by
  rw [compileStmt]
  unfold compileAssign
  dsimp only
  rw [outcome_get_bind,hdeclared,Bool.and_false,if_neg (by decide)]
  cases e with
  | call line' fn args keywords =>
    obtain ⟨t,ht,hstands⟩ := assignCall_stands line fn keywords hfree hrun
    refine ⟨t,ht,fun _ => hstands.refOfName,fun hdefines => ?_⟩
    rw [definesVariable_call] at hdefines
    cases hdefines
  | subscript value slice =>
    obtain ⟨t,ht,href⟩ := assignPort_refOfName hfree hrun
    exact ⟨t,ht,fun _ => href,fun hdefines => nomatch hdefines⟩
  | _ => exact assignOther_refOfName hfree hrun

theorem compileLines_refOfName {type : Option GateType} (htype : outcome (typeOf d e) s=(.ok type,s))
    (hrun : outcome (emitExpr d e) s=(.ok (.node id port),u)) :
    ∃ t, outcome (compileLines d [⟨name,e⟩]) s=(.ok [⟨name,.node id port,type⟩],t) ∧
      t.refOfName name=.node id autoPort := by
  have hstands : (u.bindBranch name (.node id port) type).Stands name id := by
    constructor <;> cases type <;> simp [State.bindBranch,State.setNameType,State.setNodeType]
  refine ⟨_,?_,hstands.refOfName⟩
  rw [compileLines,outcome_bind_ok htype,outcome_bind_ok hrun,outcome_modify_bind,compileLines,
    outcome_bind_ok (outcome_pure _ _),outcome_pure]

end Assigned

/-- A name that stood for nothing is assigned an output of a node. Outside of branches the name denotes that output if
the expression names the port, or if the output is the one found by itself; in a branch only in the second case. A table
that defines a variable is not assigned at all. -/
theorem assign_denotes_iff {d : Dialect} {s u : State} {name id port : String} {e : Expr} (line : Nat)
    (hfree : s.Free name) (hdeclared : s.declares name = false)
    (hrun : outcome (emitExpr d e) s = (.ok (.node id port), u)) :
    (∃ t, outcome (compileStmt d (.assign line [.name name] e)) s = (.ok (), t) ∧
      (definesVariable e = false → (t.canonical (t.refOfName name) = t.canonical (.node id port) ↔
        isPort e = true ∨ port = autoPort ∨ port = "Output" ∧ t.isConstantNode id = true)) ∧
      (definesVariable e = true →
        t.refOfName name = .node (s.graph.nextId "VARIABLE").1 autoPort ∨ t.refOfName name = .name name autoPort)) ∧
    ∀ type, outcome (typeOf d e) s = (.ok type, s) →
      ∃ t, outcome (compileLines d [⟨name, e⟩]) s = (.ok [⟨name, .node id port, type⟩], t) ∧
        (t.canonical (t.refOfName name) = t.canonical (.node id port) ↔
          port = autoPort ∨ port = "Output" ∧ t.isConstantNode id = true) := by
  constructor
  · obtain ⟨t,ht,hassigned,hdefined⟩ := compileStmt_assign_refOfName line hfree hdeclared hrun
    refine ⟨t,ht,fun hdefines => ?_,hdefined⟩
    rw [hassigned hdefines]
    cases isPort e with
    | true => simp
    | false => simpa using t.canonical_auto_eq_iff id port
  · intro type htype
    obtain ⟨t,ht,href⟩ := compileLines_refOfName htype hrun
    refine ⟨t,ht,?_⟩
    rw [href]
    exact t.canonical_auto_eq_iff id port

def portScript : List Stmt :=
  [.assign 1 [.name "n"] (.call 1 (.name "Foo") [.const (.int 1)] []),
    .assign 2 [.name "a"] (.subscript (.name "n") (.const (.str "P" false)))]

private theorem free_portScript : (outcome (compileScript (.full []) portScript) State.initial).2.Free "b" :=
  ⟨by decide +kernel,by decide +kernel⟩

private theorem run_portScript : ∃ u, outcome (emitExpr (.full []) (.name "a"))
    (outcome (compileScript (.full []) portScript) State.initial).2=(.ok (.node "foo_0" "P"),u) :=
  ⟨_,outcome_eq_ok (by decide +kernel)⟩

/-- The name of an output can be assigned by its port, but not by the name it has. -/
theorem assign_denotes_portScript : ∃ s t t', s = (outcome (compileScript (.full []) portScript) State.initial).2 ∧
    outcome (compileStmt (.full []) (.assign 3 [.name "b"] (.subscript (.name "n") (.const (.str "P" false))))) s =
      (.ok (), t) ∧
    t.canonical (t.refOfName "b") = t.canonical (.node "foo_0" "P") ∧
    outcome (compileStmt (.full []) (.assign 3 [.name "b"] (.name "a"))) s = (.ok (), t') ∧
    t'.canonical (t'.refOfName "b") ≠ t'.canonical (.node "foo_0" "P") := by
  obtain ⟨u,hrun⟩ := run_portScript
  have hport := outcome_eq_ok (m := emitExpr (.full []) (.subscript (.name "n") (.const (.str "P" false))))
    (a := .node "foo_0" "P") (s := (outcome (compileScript (.full []) portScript) State.initial).2) (by decide +kernel)
  obtain ⟨⟨t,ht,hiff,-⟩,-⟩ := assign_denotes_iff 3 free_portScript (by decide +kernel) hport
  obtain ⟨⟨t',ht',hiff',-⟩,-⟩ := assign_denotes_iff 3 free_portScript (by decide +kernel) hrun
  refine ⟨_,t,t',rfl,ht,(hiff rfl).2 (.inl rfl),ht',fun hsame => ?_⟩
  rcases (hiff' rfl).1 hsame with h | h | ⟨h,-⟩
  · cases h
  · exact absurd h (by decide)
  · exact absurd h (by decide)

/-- Not every assignment hands on the output that the expression stands for. -/
theorem assign_loses_port : ¬∀ (d : Dialect) (s u : State) (name id port : String) (line : Nat) (e : Expr), s.Free name →
    s.declares name = false → outcome (emitExpr d e) s = (.ok (.node id port), u) →
    ∃ t, outcome (compileStmt d (.assign line [.name name] e)) s = (.ok (), t) ∧
      t.canonical (t.refOfName name) = t.canonical (.node id port) := by
  intro hall
  obtain ⟨u,hrun⟩ := run_portScript
  obtain ⟨t,ht,hsame⟩ := hall _ _ u "b" _ _ 3 _ free_portScript (by decide +kernel) hrun
  obtain ⟨t',ht',hassigned,-⟩ := compileStmt_assign_refOfName 3 free_portScript (by decide +kernel) hrun
  obtain ⟨-,rfl⟩ := Prod.mk.inj (ht.symm.trans ht')
  rw [hassigned rfl] at hsame
  rcases (t.canonical_auto_eq_iff "foo_0" "P").1 hsame with h | ⟨h,-⟩
  · exact absurd h (by decide)
  · exact absurd h (by decide)

end ChipForge.Wiring
