import ChipForge.Proofs.TrackedEmission

/-! Statements stay on every track, and so do whole scripts, whether they end well or are refused. -/
namespace ChipForge.Wiring
open Script List Text Table

variable {d : Dialect} {C : Track d} {call : Expr}

mutual

def bindsOf : Stmt→List String
  | .assign _ [.name name] _ => [name]
  | .declare _ (.name name) _ _ => [name]
  | .ifElse _ _ body orelse => bindsOfAll body++bindsOfAll orelse
  | .block _ _ body => bindsOfAll body
  | _ => []

def bindsOfAll : List Stmt→List String
  | [] => []
  | stmt::rest => bindsOf stmt++bindsOfAll rest

end

def State.define (s : State) (v : VariableDef) : State :=
  { s with graph := { s.graph with definitions := s.graph.definitions++[v] } }

namespace Track

/-- The nodes that names stand for in a scope are finished. -/
def Holds (C : Track d) {σ : List Frame} (c : C.Point σ) (scope : Scope) : Prop :=
  ∀ name x, scope.nodeOf.find name=some x → C.Node c x ∧ C.Name name

/-- What single changes of statements do at the points of a run. -/
structure Statements (C : Track d) : Prop where
  note : ∀ (c : C.Point []) {x g}, (∀ attrs, attr? (g attrs) "value" = attr? attrs "value") →
    (∀ attrs, attr? (g attrs) "data_type" = attr? attrs "data_type") → C.Node c x →
      C.Moves c [] ((C.state c).mapAttrs x g)
  nodeType : ∀ (c : C.Point []) {x} t, C.Node c x → C.Moves c [] ((C.state c).setNodeType x t)
  scope : ∀ (c : C.Point []) {scope}, C.Holds c scope → C.Moves c [] ((C.state c).withScope scope)
  define : ∀ (c : C.Point []) v, C.Moves c [] ((C.state c).define v)
  guard : ∀ (c : C.Point []) guarded inGuard,
    C.Moves c [] { C.state c with guarded := guarded, inGuard := inGuard }

/-- What it does there if an input is fed into a variable. -/
structure Feeding (C : Track d) : Prop where
  fed : ∀ (c : C.Point []) {x}, C.Node c x→((C.state c).graph.typeAt? x).any (lower · == "variable") → C.Fed c x
  fed_later : ∀ x, C.Lasting fun c => C.Fed c x
  feed : ∀ (c : C.Point []) {x y} out port line, C.Source c x → C.Fed c y →
    C.Moves c [] ((C.state c).connect (.node x out) y port line)

def FeedsFrom (C : Track d) {σ : List Frame} (c : C.Point σ) (ref : Ref) : Prop := ∃ x port, ref=.node x port ∧ C.Source c x

def Feeds (C : Track d) (call : Expr) : Prop := C.Feeding ∧
  Follows C (fun _ => True) (emitExpr d call) fun ref c => C.FeedsFrom c ref

/-- What a track asks of a call in a script. -/
structure Runs (C : Track d) (call : Expr) : Prop where
  admits : C.Admits call
  feeds : isInputCall call=true→(∀ other∈call.calls, C.Admits other) → C.Feeds call

variable {σ : List Frame} {c : C.Point σ}

theorem holds (c : C.Point σ) : C.Holds c (C.state c).scope := fun _ _ hname => C.names c hname

namespace Holds

variable {scope : Scope} {x name : String} {aliases : Table (String×String)} {nameTypes : Table GateType}

theorem same (h : C.Holds c scope) : C.Holds c ⟨scope.nodeOf,aliases,nameTypes⟩ := h

theorem put (h : C.Holds c scope) (hx : C.Node c x) (hname : C.Name name) :
    C.Holds c ⟨scope.nodeOf.put name x,aliases,nameTypes⟩ := by
  intro other y hother
  simp only [find_put] at hother
  split_ifs at hother with heq
  · cases hother
    exact ⟨hx,heq ▸ hname⟩
  · exact h other y hother

theorem putNew (h : C.Holds c scope) (hx : C.Node c x) (hname : C.Name name) :
    C.Holds c ⟨scope.nodeOf.putNew name x,aliases,nameTypes⟩ := by
  intro other y hother
  simp only [find_putNew] at hother
  split_ifs at hother with heq
  · subst heq
    cases hold : scope.nodeOf.find other with
    | none =>
      rw [hold] at hother
      cases hother
      exact ⟨hx,hname⟩
    | some z =>
      rw [hold] at hother
      cases hother
      exact h other z hold
  · exact h other y hother

theorem drop (h : C.Holds c scope) (name : String) : C.Holds c ⟨scope.nodeOf.drop name,aliases,nameTypes⟩ := by
  intro other y hother
  simp only [find_drop] at hother
  split_ifs at hother
  exact h other y hother

end Holds

theorem lasting_holds (scope : Scope) : C.Lasting fun c => C.Holds c scope :=
  fun _ _ hlater h name x hname => (h name x hname).imp (C.node_later hlater) id

end Track

variable {P : C.Point []→Prop} {name : String} (S : C.Statements)

/-- From points with `P` the step stays on the track. -/
abbrev Passes (C : Track d) (P : C.Point []→Prop) (m : Compile Unit) : Prop := Follows C P m fun _ _ => True

theorem Form.find?_input {module : String} (h : lower module = "input") : Form.find? module=none := by
  unfold Form.find?
  rw [h]
  rfl

theorem emitExpr_input (d : Dialect) (hinput : isInputCall call=true) :
    ∃ line fn args keywords, call=.call line fn args keywords ∧
      lower (canonicalModule (calledName fn)) = "input" ∧ emitExpr d call=(do
        pure (.node (← emitCall d ⟨some line,canonicalModule (calledName fn),operands d args,namedOperands d keywords⟩)
          autoPort)) := by
  obtain ⟨line,fn,args,keywords,rfl⟩ : ∃ line fn args keywords, call=.call line fn args keywords := by
    cases call
    case call line fn args keywords => exact ⟨line,fn,args,keywords,rfl⟩
    all_goals cases hinput
  have hmodule : lower (canonicalModule (calledName fn)) = "input" := beq_iff_eq.1 hinput
  refine ⟨line,fn,args,keywords,rfl,hmodule,?_⟩
  rw [emitExpr,emitWritten,if_neg (by rw [hmodule]; decide),Form.find?_input hmodule]

theorem Track.feeds_of_source (F : C.Feeding) (hadmits : ∀ other∈call.calls, C.Admits other)
    (hinput : isInputCall call=true) (hsource : ∀ {c : C.Point []} {x}, C.Node c x → C.Source c x) : C.Feeds call := by
  refine ⟨F,fun c hc => ?_⟩
  obtain ⟨c',hlater,hstate,hknows⟩ := emitExpr_follows call hadmits (P := fun _ => True) c hc
  refine ⟨c',hlater,hstate,fun ref href => ?_⟩
  have hnode := hknows ref href
  obtain ⟨t,hrun⟩ : ∃ t, outcome (emitExpr d call) (C.state c)=(.ok ref,t) := ⟨_,Prod.ext href rfl⟩
  obtain ⟨line,fn,args,keywords,-,-,hemit⟩ := emitExpr_input d hinput
  rw [hemit] at hrun
  obtain ⟨x,u,-,hpure⟩ := outcome_bind_eq_ok.1 hrun
  cases hpure
  exact ⟨x,_,rfl,hsource hnode⟩

theorem Follows.done : Passes C P (Pure.pure ()) := .pure fun _ _ => trivial

section Names
variable {x : String} {f : State→State} {given : Option String}

theorem modify_passes (h : ∀ c : C.Point [], C.Moves c [] (f (C.state c))) : Passes C P (modify f) :=
  (Follows.modify C.lasting_true fun c _ => h c).pre fun _ _ => trivial

theorem modifyNode_passes (h : ∀ c : C.Point [], C.Node c x → C.Moves c [] (f (C.state c))) :
    Passes C (fun c => C.Node c x) (modify f) :=
  (Follows.modify (C.lasting_node x) h).imp (fun _ h => h) fun _ _ _ => trivial

include S

theorem bindNew_follows (hname : C.Name name) :
    Follows C (fun c => C.Node c x) (modify fun s => s.bindNew name x) fun _ c => C.Node c x :=
  .modify (C.lasting_node x) fun c hx => S.scope c ((C.holds c).putNew hx hname)

theorem moves_typed {c : C.Point []} {scope : Scope} (t : GateType) (hscope : C.Holds c scope)
    (hx : C.Node c x) : C.Moves c [] (((C.state c).withScope scope).setNodeType x t) := by
  refine C.moves_trans (S.scope c hscope) fun c' hlater hstate => ?_
  rw [← hstate]
  exact S.nodeType c' t (C.node_later hlater hx)

theorem rememberType_passes (name : String) (t : Option GateType) (id : Option String) :
    Passes C (fun c => ∀ x∈id, C.Node c x) (rememberType name t id) := by
  unfold rememberType
  cases t with
  | none => exact .done
  | some t =>
    have hlasting : C.Lasting fun c => ∀ x∈id, C.Node c x := fun _ _ hlater h x hx => C.node_later hlater (h x hx)
    refine (Follows.modify hlasting fun c h => ?_).imp (fun _ h => h) fun _ _ _ => trivial
    cases id with
    | none => exact S.scope c (C.holds c).same
    | some x => exact moves_typed S t (C.holds c).same (h x rfl)

theorem bindTyped_passes (hname : C.Name name) (value : Expr) : Passes C (fun c => C.Node c x) (do
      modify fun s => s.bindNew name x
      rememberType name (← typeIfAny d value) (some x)) :=
  .bind (bindNew_follows S hname) fun _ => .reads (typeIfAny_reads d value) fun t =>
    (rememberType_passes S name t (some x)).pre fun _ h _ hy => Option.some.inj hy ▸ h

theorem addVariable_passes (v : VariableDef) : Passes C P (addVariable v) :=
  modify_passes fun c => S.define c v

theorem defineVariable_passes (key gateType : String) (value : Literal)
    (hname : ∀ x, given=some x → C.Name x) : Passes C P (defineVariable d key gateType value given) := by
  refine .bind (addVariable_passes S _) fun _ => ?_
  cases given with
  | none => exact .done
  | some name =>
    refine .bind (emitVariable_follows name) fun x => ?_
    exact (bindNew_follows S (hname name rfl)).imp (fun _ h => h) fun _ _ _ => trivial

theorem defineFrom_passes (table : Literal) (hname : ∀ x, given=some x → C.Name x) :
    Passes C P (defineFrom d table given) := by
  unfold defineFrom
  split
  · exact defineVariable_passes S _ _ _ hname
  · exact .done

end Names

section Declarations
variable {x : String} {value : Option Expr}

def declareValue (d : Dialect) (line : Nat) (name : String) (t : GateType) (isFinal : Bool) (value : Option Expr) :
    Compile Unit := do
  let v ← initialValue name line t value
  if isFinal then
    if value.isNone then throw (.finalWithoutValue name line)
    let id ← emitConstant d v none
    bindDeclared name id t
  else
    let s ← get
    if s.graph.definitions.any (·.key == name) then throw (.declaredTwice name line)
    defineVariable d name t.name v (some name)
    modify fun s => s.setNameType name t

theorem compileDeclaration_some (d : Dialect) (line : Nat) (name : String) (t : GateType) (isFinal : Bool) (e : Expr) :
    compileDeclaration d line name t isFinal (some e) =
      if isInputCall e then (do
        match ← emitExpr d e with
        | .node id _ => bindDeclared name id t
        | .name _ _ => declareValue d line name t isFinal (some e))
      else declareValue d line name t isFinal (some e) := rfl

theorem Follows.of_ref {α : Type} {m : Ref → Compile α} {Q : α → C.Point []→Prop}
    (hnode : ∀ x port, Follows C (fun c => C.Node c x) (m (.node x port)) Q)
    (hname : ∀ x port, Follows C (fun _ => True) (m (.name x port)) Q) (ref : Ref) :
    Follows C (fun c => C.Knows c ref) (m ref) Q := by
  intro c h
  cases ref with
  | node x port => exact hnode x port c h
  | name x port => exact hname x port c trivial

include S

theorem bindDeclared_passes (hname : C.Name name) (t : GateType) :
    Passes C (fun c => C.Node c x) (bindDeclared name x t) :=
  modifyNode_passes fun c hx => moves_typed S t ((C.holds c).putNew hx hname) hx

theorem declareValue_passes (line : Nat) (hname : C.Name name) (t : GateType) (isFinal : Bool)
    (value : Option Expr) : Passes C P (declareValue d line name t isFinal value) := by
  unfold declareValue
  refine .lift fun v hv => ?_
  have hconstant : Passes C P (do bindDeclared name (← emitConstant d v none) t) :=
    .bind (emitConstant_follows v none) fun x => (bindDeclared_passes S hname t).pre fun _ h => C.source_node h
  have hvariable : Passes C P (do
        defineVariable d name t.name v (some name)
        modify fun s => s.setNameType name t) :=
    .bind (defineVariable_passes S _ _ _ fun x hx => Option.some.inj hx ▸ hname) fun _ =>
      modify_passes fun c => S.scope c (C.holds c).same
  cases isFinal with
  | true =>
    cases value.isNone with
    | true => exact .bind (Q := fun _ => P) .throw fun _ => hconstant
    | false => exact hconstant
  | false =>
    refine .get fun c hP => ?_
    cases (C.state c).graph.definitions.any (·.key == name) with
    | true => exact .bind (Q := fun _ => P) .throw fun _ => hvariable
    | false => exact hvariable.pre fun _ h => h ▸ hP

theorem compileDeclaration_passes (line : Nat) (hname : C.Name name) (t : GateType)
    (isFinal : Bool) (hcalls : ∀ e, value=some e→∀ call∈e.calls, C.Admits call) :
    Passes C P (compileDeclaration d line name t isFinal value) := by
  cases value with
  | none => exact declareValue_passes S line hname t isFinal none
  | some e =>
    rw [compileDeclaration_some]
    split_ifs
    · exact .bind (emitExpr_follows e (hcalls e rfl)) (Follows.of_ref (fun _ _ => bindDeclared_passes S hname t)
        fun _ _ => declareValue_passes S line hname t isFinal (some e))
    · exact declareValue_passes S line hname t isFinal (some e)

theorem compileDeclare_passes (line : Nat) (target typeNote : Expr)
    (hnames : ∀ name, target=.name name → C.Name name) (hcalls : ∀ e, value=some e→∀ call∈e.calls, C.Admits call) :
    Passes C P (compileDeclare d line target typeNote value) := by
  unfold compileDeclare
  split
  · split
    · exact compileDeclaration_passes S line (hnames _ rfl) _ _ hcalls
    · exact .throw
  · exact .throw

end Declarations

section Assignments
variable {value : Expr}

def State.noteName (s : State) (name : String) : State :=
  match s.nodeOf.find name with
  | some id => s.setAttrNew id "dsl_name" (.str name)
  | none => s

theorem feedVariable_passes (F : C.Feeding) (line : Nat) (name : String) (ref : Ref) :
    Passes C (fun c => C.FeedsFrom c ref) (feedVariable d line name ref) := by
  refine .get fun c hfeed => ?_
  obtain ⟨x,port,rfl,hx⟩ := hfeed
  cases hname : (C.state c).nodeOf.find name with
  | none => exact .throw
  | some y =>
    have htype : ((C.state c).graph.lastNode? y).any (fun n => lower n.type == "variable") =
        ((C.state c).graph.typeAt? y).any (lower · == "variable") := by
      rw [Graph.typeAt?,Option.any_map]
    dsimp only
    rw [htype]
    split_ifs with hvariable
    · have hlasting := F.fed_later y
      have hfed := F.fed c (C.names c hname).1 hvariable
      refine Follows.bind ((Follows.modify ((C.lasting_source x).and hlasting) fun c h =>
        F.feed c port "Value" (some line) h.1 h.2).imp (fun c' (h : c'=c) => h ▸ ⟨hx,hfed⟩) fun _ _ h => h.2) fun _ => ?_
      refine .bindKeep hlasting alwaysOn_follows fun trigger => ?_
      rintro c ⟨⟨z,rfl,hz⟩,hy⟩
      obtain ⟨c',hlater,hstate⟩ :
          C.Moves c [] (((C.state c).connect (.node z "Output") y "Set" (some line)).markWritten name) := by
        refine C.moves_trans (F.feed c "Output" "Set" (some line) hz hy) fun c' _ hstate => ?_
        rw [← hstate]
        exact C.written c' name
      exact ⟨c',hlater,hstate,fun _ _ => trivial⟩
    · exact .throw

theorem outcome_emitOrSkip (d : Dialect) (e : Expr) (s : State) :
    outcome (emitOrSkip d e) s =
      match outcome (emitExpr d e) s with
      | (.ok ref,t) => (.ok (some ref),t)
      | (.error issue,t) => (if issue.isMisuse then .ok none else .error issue,t) := by
  rw [emitOrSkip,outcome_tryCatch,outcome_map]
  rcases outcome (emitExpr d e) s with ⟨issue | ref,t⟩
  · dsimp only [Except.map]
    split_ifs <;> rfl
  · rfl

theorem emitOrSkip_follows (hcalls : ∀ call∈value.calls, C.Admits call) :
    Follows C P (emitOrSkip d value) fun result c => ∀ ref∈result, C.Knows c ref := by
  intro c hP
  obtain ⟨c',hlater,hstate,hknows⟩ := emitExpr_follows value hcalls c hP
  rw [outcome_emitOrSkip]
  rcases hrun : outcome (emitExpr d value) (C.state c) with ⟨e | ref,t⟩ <;> rw [hrun] at hstate hknows <;>
    refine ⟨c',hlater,hstate,fun a ha => ?_⟩
  · dsimp only at ha
    split_ifs at ha
    cases ha
    exact fun _ h => nomatch h
  · cases ha
    exact fun _ h => Option.some.inj h ▸ hknows ref rfl

include S

theorem noteName_passes (name : String) : Passes C P (modify fun s => s.noteName name) := by
  refine modify_passes fun c => ?_
  unfold State.noteName
  cases hname : (C.state c).nodeOf.find name with
  | none => exact C.moves_refl c
  | some x =>
    let g (attrs : Attrs) :=
      if (attr? attrs "dsl_name").isSome then attrs else setAttr attrs "dsl_name" (.str name)
    have hg : ∀ key, "dsl_name" ≠ key→∀ attrs, attr? (g attrs) key=attr? attrs key := by
      intro key hkey attrs
      simp only [g]
      split_ifs
      · rfl
      · exact attr?_setAttr_ne hkey
    exact S.note c (g := g) (hg "value" (by decide)) (hg "data_type" (by decide)) (C.names c hname).1

theorem defineCalled_passes (name : String) (keywords : List Keyword) :
    Passes C P (defineCalled name keywords) := by
  refine .get fun c _ => ?_
  dsimp only
  split_ifs
  · cases valueSetting? keywords with
    | none => exact noteName_passes S name
    | some v => exact .bind (addVariable_passes S _) fun _ => noteName_passes S name
  · exact noteName_passes S name

theorem bindCalled_passes (hname : C.Name name) (fn : Expr) (keywords : List Keyword) (x : String)
    (t : Option GateType) : Passes C (fun c => C.Node c x)
      (do
        modify fun s => s.bindNew name x
        rememberType name t (some x)
        if latinUpper (calledName fn) == "VARIABLE" then defineCalled name keywords) := by
  refine .bind (bindNew_follows S hname) fun _ => ?_
  refine .bind ((rememberType_passes S name t (some x)).pre fun _ h y hy => Option.some.inj hy ▸ h) fun _ => ?_
  split_ifs
  · exact defineCalled_passes S name keywords
  · exact .done

theorem assignInput_passes (line : Nat) (hname : C.Name name) (fn : Expr) (keywords : List Keyword)
    (hinput : isInputCall value=true) (hfeeds : C.Feeds value) :
    Passes C P (assignCall d line name value fn keywords) := by
  obtain ⟨F,hrun⟩ := hfeeds
  unfold assignCall
  rw [hinput]
  refine .bind (hrun.pre fun _ _ => trivial) fun ref => ?_
  refine Follows.reads (typeIfAny_reads d value) fun t => ?_
  intro c h
  obtain ⟨x,port,rfl,hsource⟩ := h
  refine Follows.get (P := fun c' => c'=c) (fun c' heq => ?_) c rfl
  subst heq
  cases (C.state c').nodeOf.has name with
  | true => exact (feedVariable_passes F line name _).pre fun _ heq => heq ▸ ⟨x,port,rfl,hsource⟩
  | false => exact (bindCalled_passes S hname fn keywords x t).pre fun _ heq => heq ▸ C.source_node hsource

theorem assignCall_passes (line : Nat) (hname : C.Name name) (fn : Expr) (keywords : List Keyword)
    (hcalls : ∀ call∈value.calls, C.Admits call) (hinput : isInputCall value=false) :
    Passes C P (assignCall d line name value fn keywords) := by
  unfold assignCall
  rw [hinput]
  refine .bind (emitExpr_follows value hcalls) fun ref => ?_
  refine .reads (typeIfAny_reads d value) fun t => ?_
  revert ref
  refine Follows.of_ref (fun x _ => ?_) fun _ _ => .done
  exact .get fun c h => (bindCalled_passes S hname fn keywords x t).pre fun _ heq => heq ▸ h

theorem assignPort_passes (hname : C.Name name) (slice : Expr)
    (hcalls : ∀ call∈value.calls, C.Admits call) : Passes C P (assignPort d name value slice) := by
  unfold assignPort
  cases (Literal.ofExpr? slice).bind portText? with
  | none => exact .done
  | some port =>
    cases value with
    | name up => exact modify_passes fun c => S.scope c (C.holds c).same
    | call =>
      refine .bind (emitExpr_follows _ hcalls) (Follows.of_ref (fun x _ => ?_) fun _ _ => .done)
      exact modifyNode_passes fun c hx => S.scope c ((C.holds c).putNew hx hname)
    | _ => exact .done

theorem assignValue_passes (hname : C.Name name) (hcalls : ∀ call∈value.calls, C.Admits call) :
    Passes C P (assignValue d name value) := by
  refine .bind (emitOrSkip_follows hcalls) fun result => ?_
  cases result with
  | none => exact .done
  | some ref =>
    refine Follows.pre ?_ fun _ h => h ref rfl
    revert ref
    refine Follows.of_ref (fun _ _ => bindTyped_passes S hname value) fun up _ => ?_
    refine .bind (modify_passes fun c => ?_) fun _ => ?_
    · dsimp only
      cases hup : (C.state c).nodeOf.find up with
      | none => exact S.scope c (C.holds c).same
      | some x => exact S.scope c ((C.holds c).putNew (C.names c hup).1 hname)
    · refine .get fun c _ => ?_
      exact (rememberType_passes S name _ _).pre fun _ heq x hx => heq ▸ (C.names c hx).1

theorem assignOther_passes (hname : C.Name name) (hcalls : ∀ call∈value.calls, C.Admits call) :
    Passes C P (assignOther d name value) := by
  unfold assignOther
  dsimp only
  split
  · exact defineFrom_passes S _ fun x hx => Option.some.inj hx ▸ hname
  · split
    · exact .bind (emitConstant_follows _ none) fun x => (bindTyped_passes S hname value).pre fun _ h => C.source_node h
    · exact assignValue_passes S hname hcalls

theorem compileAssign_passes (line : Nat) (targets : List Expr)
    (hnames : ∀ name, targets=[.name name] → C.Name name) (hcalls : ∀ call∈value.calls, C.Admits call)
    (hinput : isInputCall value=true→∀ {name place fn args keywords}, targets=[.name name] →
      value=.call place fn args keywords→Passes C P (assignCall d line name value fn keywords)) :
    Passes C P (compileAssign d line targets value) := by
  unfold compileAssign
  split
  · rename_i name
    have hname := hnames name rfl
    refine .get fun c hc => ?_
    split_ifs
    · exact Follows.discard (emitWrite_follows none name hcalls)
    · refine Follows.pre (P := P) ?_ fun _ heq => heq ▸ hc
      cases value with
      | call place fn args keywords =>
        cases hvalue : isInputCall (.call place fn args keywords) with
        | true => exact hinput hvalue rfl rfl
        | false => exact assignCall_passes S line hname fn keywords hcalls hvalue
      | subscript inner slice =>
        exact assignPort_passes S hname slice fun call hcall =>
          hcalls call (Expr.mem_calls_of_part (mem_singleton.2 rfl) hcall)
      | _ => exact assignOther_passes S hname hcalls
  · exact .done

end Assignments

section Branches
variable {c : C.Point []} {lines : List BranchLine} {stmts : List Stmt}
  {seen : List String} {stmt : Stmt} {test : Ref}

/-- Values that branches give to names. -/
def Track.Rows (C : Track d) {σ : List Frame} (c : C.Point σ) (values : List BranchValue) : Prop :=
  ∀ v∈values, C.Knows c v.ref ∧ C.Name v.name

theorem Track.lasting_rows (values : List BranchValue) : C.Lasting fun c => C.Rows c values :=
  fun _ _ hlater h v hv => (h v hv).imp (C.lasting_knows v.ref hlater ·) id

/-- A branch holds statements that do nothing and assignments to names not assigned before. -/
theorem branchLines_cons_eq_ok {rest : List Stmt} (h : branchLines seen (stmt::rest)=.ok lines) :
    branchLines seen rest=.ok lines ∨
      ∃ place name value others, stmt=.assign place [.name name] value ∧ name∉seen ∧
        branchLines (name::seen) rest=.ok others ∧ lines=⟨name,value⟩::others := by
  unfold branchLines at h
  split at h
  · rename_i heq
    cases heq
  · rename_i heq
    cases heq
    exact .inl h
  · rename_i place name value rest' heq
    cases heq
    split_ifs at h with hseen
    obtain ⟨others,hothers,hlines⟩ := bind_eq_ok.1 h
    cases hlines
    exact .inr ⟨place,name,value,others,rfl,by simpa using hseen,hothers,rfl⟩
  · cases h

theorem branchLines_mem (h : branchLines seen stmts=.ok lines) {line : BranchLine} (hline : line∈lines) :
    ∃ place, .assign place [.name line.name] line.value∈stmts := by
  induction stmts generalizing seen lines with
  | nil =>
    cases h
    cases hline
  | cons stmt rest ih =>
    rcases branchLines_cons_eq_ok h with hrest | ⟨place,name,value,others,rfl,-,hothers,rfl⟩
    · obtain ⟨place,hplace⟩ := ih hrest hline
      exact ⟨place,mem_cons_of_mem _ hplace⟩
    · rcases mem_cons.1 hline with rfl | hline
      · exact ⟨place,mem_cons_self⟩
      · obtain ⟨place',hplace⟩ := ih hothers hline
        exact ⟨place',mem_cons_of_mem _ hplace⟩

theorem binds_calls_of_mem (h : stmt∈stmts) : bindsOf stmt ⊆ bindsOfAll stmts ∧ stmt.calls ⊆ callsOfStmts stmts := by
  induction stmts with
  | nil => cases h
  | cons first rest ih =>
    rw [bindsOfAll,callsOfStmts]
    rcases mem_cons.1 h with rfl | h
    · exact ⟨subset_append_left _ _,subset_append_left _ _⟩
    · exact ⟨subset_append_of_subset_right _ (ih h).1,subset_append_of_subset_right _ (ih h).2⟩

include S

theorem moves_bindBranch (hname : C.Name name) {ref : Ref} (t : Option GateType)
    (href : C.Knows c ref) : C.Moves c [] ((C.state c).bindBranch name ref t) := by
  cases ref with
  | node x port =>
    cases t with
    | none => exact S.scope c ((C.holds c).put href hname)
    | some t => exact moves_typed S t ((C.holds c).put href hname) href
  | name up port =>
    unfold State.bindBranch
    dsimp only
    cases hup : (C.state c).nodeOf.find up with
    | none =>
      dsimp only
      cases t.orElse fun _ => (C.state c).nameTypes.find up with
      | none => exact S.scope c ((C.holds c).drop name)
      | some u =>
        simp only [State.setNameType,find_drop,if_true]
        exact S.scope c ((C.holds c).drop name)
    | some x =>
      have hx := (C.names c hup).1
      dsimp only
      cases t.orElse fun _ => (C.state c).nameTypes.find up with
      | none => exact S.scope c ((C.holds c).put hx hname)
      | some u =>
        simp only [State.setNameType,find_put_self]
        exact moves_typed S u ((C.holds c).put hx hname) hx

theorem compileLines_follows (hnames : ∀ line∈lines, C.Name line.name)
    (hcalls : ∀ line∈lines, ∀ call∈line.value.calls, C.Admits call) :
    Follows C P (compileLines d lines) fun values c => C.Rows c values := by
  induction lines generalizing P with
  | nil => exact .pure fun _ _ => forall_mem_nil _
  | cons line rest ih =>
    rw [forall_mem_cons] at hnames hcalls
    unfold compileLines
    refine .reads (typeOf_reads d line.value) fun t => ?_
    refine .bind (emitExpr_follows line.value hcalls.1) fun ref => ?_
    have hlasting := C.lasting_knows ref
    refine .bind (.modify hlasting fun c h => moves_bindBranch S hnames.1 t h) fun _ => ?_
    refine .bindKeep hlasting (ih hnames.2 hcalls.2) fun others => .pure fun c h => ?_
    exact forall_mem_cons.2 ⟨⟨h.2,hnames.1⟩,h.1⟩

theorem compileBranch_follows (scope : Scope) (hnames : ∀ name∈bindsOfAll stmts, C.Name name)
    (hcalls : ∀ call∈callsOfStmts stmts, C.Admits call) :
    Follows C (fun c => C.Holds c scope) (compileBranch d scope stmts)
      fun values c => C.Rows c values := by
  refine .bind (.modify (C.lasting_holds scope) fun c h => S.scope c h) fun _ => ?_
  refine .lift fun lines hlines => ?_
  have hmem : ∀ line∈lines, line.name∈bindsOfAll stmts ∧ line.value.calls ⊆ callsOfStmts stmts := by
    intro line hline
    obtain ⟨place,hplace⟩ := branchLines_mem hlines hline
    obtain ⟨hbinds,hcalled⟩ := binds_calls_of_mem hplace
    rw [bindsOf] at hbinds
    rw [Stmt.calls] at hcalled
    exact ⟨hbinds (mem_singleton.2 rfl),hcalled⟩
  exact compileLines_follows S (fun line hline => hnames _ (hmem line hline).1)
    fun line hline call hcall => hcalls call ((hmem line hline).2 hcall)

theorem valueOrEmpty_follows (t : GateType) (value : Option BranchValue) :
    Follows C (fun c => ∀ v∈value, C.Knows c v.ref) (valueOrEmpty d t value)
      fun ref c => C.Knows c ref := by
  cases value with
  | some v => exact .pure fun c h => h v rfl
  | none =>
    refine .bind (emitConstant_follows _ (some t)) fun x => ?_
    exact .bind (.modify (C.lasting_source x) fun c h => S.nodeType c t (C.source_node h)) fun _ =>
      .pure fun _ h => C.source_node h

private theorem mergeName_passes (line : Nat) {yes no : Option BranchValue} (hname : C.Name name) :
    Passes C (fun c => C.Knows c test ∧ (∀ v∈yes, C.Knows c v.ref) ∧ ∀ v∈no, C.Knows c v.ref)
      (mergeName d line test yes no name) := by
  have hvalue : ∀ value : Option BranchValue, C.Lasting fun c => ∀ v∈value, C.Knows c v.ref :=
    fun value _ _ hlater h v hv => C.lasting_knows v.ref hlater (h v hv)
  have hlasting := (C.lasting_knows test).and ((hvalue yes).and (hvalue no))
  refine .get fun c h => ?_
  refine .reads (mergedType_reads _ _ _ line) fun u => ?_
  refine Follows.pre ?_ fun c' (heq : c'=c) => heq ▸ h
  cases u with
  | none => exact .throw
  | some u =>
    refine .bindKeep hlasting ((valueOrEmpty_follows S u yes).pre fun _ h => h.2.1) fun a => ?_
    refine .bindKeep ((C.lasting_knows a).and hlasting) ((valueOrEmpty_follows S u no).pre fun _ h => h.2.2.2) fun b => ?_
    refine .bind (emitChoice_follows.pre fun c h => ⟨h.2.2.1,h.2.1,h.1⟩) fun x => ?_
    refine .get fun c hx => ?_
    split_ifs
    · exact emitWriteRef_follows.pre fun _ heq => heq ▸ hx
    · exact (modifyNode_passes fun c hx => moves_typed S u ((C.holds c).put hx hname) hx).pre fun _ heq => heq ▸ hx

theorem mergeNames_passes (line : Nat) {yes no : List BranchValue} {names : List String}
    (hnames : ∀ name∈names, C.Name name) :
    Passes C (fun c => C.Knows c test ∧ C.Rows c yes ∧ C.Rows c no) (mergeNames d line test yes no names) := by
  induction names with
  | nil => exact .done
  | cons name rest ih =>
    rw [forall_mem_cons] at hnames
    have hlasting := (C.lasting_knows test).and ((C.lasting_rows yes).and (C.lasting_rows no))
    have hfound : ∀ {c : C.Point []} {values}, C.Rows c values →
        ∀ v∈values.find? (·.name == name), C.Knows c v.ref :=
      fun h v hv => (h v (mem_of_find?_eq_some hv)).1
    refine .bind (((mergeName_passes S line hnames.1).keep hlasting).imp (fun c h => ⟨?_,h⟩) fun _ _ h => h.2)
      fun _ => ih hnames.2
    exact ⟨h.1,hfound h.2.1,hfound h.2.2⟩

theorem compileIf_passes (line : Nat) {test : Expr} {body orelse : List Stmt}
    (hnames : ∀ name∈bindsOfAll body++bindsOfAll orelse, C.Name name) (htest : ∀ call∈test.calls, C.Admits call)
    (hbodyCalls : ∀ call∈callsOfStmts body, C.Admits call) (horelseCalls : ∀ call∈callsOfStmts orelse, C.Admits call) :
    Passes C P (compileIf d line test body orelse) := by
  rw [forall_mem_append] at hnames
  have hmerge : Passes C P
      (do
        let testRef ← emitExpr d test
        let scope := (← get).scope
        let yes ← compileBranch d scope body
        let no ← compileBranch d scope orelse
        modify fun s => s.withScope scope
        mergeNames d line testRef yes no (((yes++no).map (·.name)).eraseDups)) := by
    refine .bind (emitExpr_follows test htest) fun testRef => ?_
    refine .get fun c href => ?_
    let scope := (C.state c).scope
    have hstart := (C.lasting_knows testRef).and (C.lasting_holds scope)
    refine Follows.pre (P := fun c => C.Knows c testRef ∧ C.Holds c scope) ?_ fun _ heq => heq ▸ ⟨href,C.holds c⟩
    refine .bindKeep hstart ((compileBranch_follows S scope hnames.1 hbodyCalls).pre fun _ h => h.2) fun yes => ?_
    have hyes := (C.lasting_rows yes).and hstart
    refine .bindKeep hyes ((compileBranch_follows S scope hnames.2 horelseCalls).pre fun _ h => h.2.2) fun no => ?_
    have hno := (C.lasting_rows no).and hyes
    refine .bind (.modify hno fun c h => S.scope c h.2.2.2) fun _ => ?_
    refine .assume (φ := ∀ v∈yes++no, C.Name v.name) (fun c h => ?_) fun hbound => ?_
    · exact forall_mem_append.2 ⟨fun v hv => (h.2.1 v hv).2,fun v hv => (h.1 v hv).2⟩
    · refine (mergeNames_passes S line fun name hname => ?_).pre fun _ h => ⟨h.2.2.1,h.2.1,h.1⟩
      obtain ⟨v,hv,rfl⟩ := mem_map.1 (mem_eraseDups.1 hname)
      exact hbound v hv
  unfold compileIf
  cases (body++orelse).any isBranch with
  | true => exact .bind (Q := fun _ => P) .throw fun _ => hmerge
  | false => exact hmerge

end Branches

section Scripts
variable {stmts : List Stmt} {ι : Type}

theorem binds_calls_of_mainBlock {main : MainBlock} (h : main∈stmts.filterMap mainBlock?) :
    bindsOfAll main.body ⊆ bindsOfAll stmts ∧ callsOfStmts main.body ⊆ callsOfStmts stmts := by
  obtain ⟨block,hblock,hsome⟩ := mem_filterMap.1 h
  obtain ⟨hbinds,hcalls⟩ := binds_calls_of_mem hblock
  unfold mainBlock? at hsome
  split at hsome
  · split_ifs at hsome
    cases hsome
    rw [bindsOf] at hbinds
    rw [Stmt.calls] at hcalls
    exact ⟨fun x hx => hbinds (mem_append_left _ hx),
      fun x hx => hcalls (mem_append_right _ (mem_append_left _ hx))⟩
  · cases hsome

theorem compileExprStmt_passes (S : C.Statements) {value : Expr} (hcalls : ∀ call∈value.calls, C.Admits call) :
    Passes C P (compileExprStmt d value) := by
  unfold compileExprStmt
  split
  · exact defineFrom_passes S _ fun x hx => nomatch hx
  · split
    · exact Follows.discard (emitExpr_follows _ hcalls)
    · exact .done

/-- How steps of a script go on from an index for what was compiled before them to that after them, if the names that are bound
in them and the calls in them are such as they should be. -/
structure Walk (d : Dialect) (after : ι→Stmt→ι) (N : String→Prop) (R : Expr→Prop) (Goes : ι → Compile Unit→ι→Prop) :
    Prop where
  block : ∀ i line kind body, after i (.block line kind body)=body.foldl after i
  branches : ∀ i line test body orelse, after i (.ifElse line test body orelse)=(body++orelse).foldl after i
  reads : ∀ i (stmts : List Stmt) {m}, Reads m→Goes i m (stmts.foldl after i)
  bind : ∀ {i j m f} (stmts : List Stmt), Goes i m j→Goes j (f ()) (stmts.foldl after j) →
    Goes i (m >>= f) (stmts.foldl after j)
  guard : ∀ i (guarded inGuard : State→Bool),
    Goes i (modify fun s => { s with guarded := guarded s, inGuard := inGuard s }) i
  assign : ∀ i line targets {value}, (∀ name, targets=[.name name]→N name)→(∀ call∈value.calls, R call) →
    Goes i (compileAssign d line targets value) (after i (.assign line targets value))
  declare : ∀ i line target typeNote {value}, (∀ name, target=.name name→N name) →
    (∀ e, value=some e→∀ call∈e.calls, R call) →
      Goes i (compileDeclare d line target typeNote value) (after i (.declare line target typeNote value))
  expr : ∀ i line {value}, (∀ call∈value.calls, R call)→Goes i (compileExprStmt d value) (after i (.expr line value))
  choose : ∀ i line {test body orelse}, (∀ name∈bindsOfAll body++bindsOfAll orelse, N name) →
    (∀ call∈test.calls, R call)→(∀ call∈callsOfStmts body++callsOfStmts orelse, R call) →
      Goes i (compileIf d line test body orelse) (after i (.ifElse line test body orelse))

/-- The statements of a script in the order in which they are compiled: those beside a main block come first. -/
def compiledOrder (stmts : List Stmt) : List Stmt :=
  match stmts.filterMap mainBlock? with
  | [main] => stmts.filter isDeclaration++main.body
  | _ => stmts

theorem isDeclaration_of_skipped {stmt : Stmt} (h : ((mainBlock? stmt).isSome || isSilent stmt)=true) :
    isDeclaration stmt=false := by
  rcases Bool.or_eq_true_iff.1 h with hmain | hsilent
  · unfold mainBlock? at hmain
    split at hmain
    · rfl
    · cases hmain
  · unfold isSilent at hsilent
    split at hsilent
    · rfl
    · rfl
    · rfl
    · cases hsilent

namespace Walk

variable {after : ι→Stmt→ι} {N : String→Prop} {R : Expr→Prop} {Goes : ι → Compile Unit→ι→Prop}

mutual

theorem goes_stmt (W : Walk d after N R Goes) : ∀ stmt i, (∀ name∈bindsOf stmt, N name)→(∀ call∈stmt.calls, R call) →
    Goes i (compileStmt d stmt) (after i stmt)
  | .assign line targets value, i, hnames, hcalls => by
    rw [Stmt.calls] at hcalls
    rw [compileStmt]
    refine W.assign i line targets ?_ hcalls
    rintro name rfl
    exact hnames name (by rw [bindsOf]; exact mem_singleton.2 rfl)
  | .declare line target typeNote value, i, hnames, hcalls => by
    rw [compileStmt]
    refine W.declare i line target typeNote ?_ ?_
    · rintro name rfl
      exact hnames name (by rw [bindsOf]; exact mem_singleton.2 rfl)
    · rintro e rfl
      rwa [Stmt.calls] at hcalls
  | .expr line value, i, _, hcalls => by
    rw [Stmt.calls] at hcalls
    rw [compileStmt]
    exact W.expr i line hcalls
  | .ifElse line test body orelse, i, hnames, hcalls => by
    rw [Stmt.calls,forall_mem_append] at hcalls
    rw [bindsOf] at hnames
    rw [compileStmt]
    split_ifs
    · exact W.choose i line hnames hcalls.1 hcalls.2
    · rw [forall_mem_append] at hnames
      obtain ⟨hbody,horelse⟩ := forall_mem_append.1 hcalls.2
      rw [W.branches,foldl_append]
      exact W.bind orelse (goes_stmts W body i hnames.1 hbody) (goes_stmts W orelse _ hnames.2 horelse)
  | .block line kind body, i, hnames, hcalls => by
    rw [Stmt.calls] at hcalls
    rw [bindsOf] at hnames
    rw [compileStmt,W.block]
    exact goes_stmts W body i hnames hcalls
  | .pass _, i, _, _ | .imports _, i, _, _ | .other _, i, _, _ => by
    rw [compileStmt]
    exact W.reads i [_] fun _ => rfl

theorem goes_stmts (W : Walk d after N R Goes) : ∀ stmts i, (∀ name∈bindsOfAll stmts, N name) →
    (∀ call∈callsOfStmts stmts, R call)→Goes i (compileStmts d stmts) (stmts.foldl after i)
  | [], i, _, _ => by
    rw [compileStmts]
    exact W.reads i [] fun _ => rfl
  | stmt::rest, i, hnames, hcalls => by
    rw [callsOfStmts,forall_mem_append] at hcalls
    rw [bindsOfAll,forall_mem_append] at hnames
    rw [compileStmts]
    exact W.bind rest (goes_stmt W stmt i hnames.1 hcalls.1) (goes_stmts W rest _ hnames.2 hcalls.2)

end

variable (W : Walk d after N R Goes) (i : ι) (hnames : ∀ name∈bindsOfAll stmts, N name)
  (hcalls : ∀ call∈callsOfStmts stmts, R call)
include W hnames hcalls

theorem goes_beside : Goes i (compileBeside d stmts) ((stmts.filter isDeclaration).foldl after i) := by
  induction stmts generalizing i with
  | nil => exact W.reads i [] fun _ => rfl
  | cons stmt rest ih =>
    rw [callsOfStmts,forall_mem_append] at hcalls
    rw [bindsOfAll,forall_mem_append] at hnames
    unfold compileBeside
    dsimp only
    split_ifs with hskip hdeclaration
    · rw [filter_cons_of_neg (by rw [isDeclaration_of_skipped hskip]; decide)]
      exact ih i hnames.2 hcalls.2
    · rw [filter_cons_of_pos hdeclaration]
      exact W.bind (rest.filter isDeclaration) (W.goes_stmt stmt i hnames.1 hcalls.1) (ih _ hnames.2 hcalls.2)
    · rw [filter_cons_of_neg hdeclaration]
      exact W.bind _ (W.reads i [] fun _ => rfl) (ih i hnames.2 hcalls.2)

theorem goes_main : Goes i (compileMain d stmts) (stmts.foldl after i) := by
  induction stmts generalizing i with
  | nil => exact W.reads i [] fun _ => rfl
  | cons stmt rest ih =>
    rw [callsOfStmts,forall_mem_append] at hcalls
    rw [bindsOfAll,forall_mem_append] at hnames
    have hstmts : Goes i (do compileStmt d stmt; compileMain d rest) ((stmt::rest).foldl after i) :=
      W.bind rest (W.goes_stmt stmt i hnames.1 hcalls.1) (ih _ hnames.2 hcalls.2)
    unfold compileMain
    cases isFlow stmt with
    | true => exact W.bind (stmt::rest) (W.reads i [] fun _ => rfl) hstmts
    | false => exact hstmts

/-- Scripts go on to what is compiled last. -/
theorem goes_script : Goes i (compileScript d stmts) ((compiledOrder stmts).foldl after i) := by
  have hmem := fun main (h : main∈stmts.filterMap mainBlock?) => binds_calls_of_mainBlock h
  unfold compileScript compiledOrder
  generalize stmts.filterMap mainBlock?=mains at hmem ⊢
  match mains with
  | [] => exact W.goes_stmts stmts i hnames hcalls
  | [main] =>
    obtain ⟨hbinds,hcalled⟩ := hmem main (mem_singleton.2 rfl)
    have hguarded : ∀ j, Goes j (do
          modify fun s => { s with inGuard := true }
          compileMain d main.body
          modify fun s => { s with inGuard := false }) (main.body.foldl after j) := by
      refine fun j => W.bind main.body (W.guard j (·.guarded) fun _ => true) (W.bind [] (W.goes_main j ?_ ?_) ?_)
      · exact fun name h => hnames name (hbinds h)
      · exact fun call h => hcalls call (hcalled h)
      · exact W.guard _ (·.guarded) fun _ => false
    refine W.bind (stmts.filter isDeclaration++main.body) (W.guard i (fun _ => true) (·.inGuard)) ?_
    rw [foldl_append]
    refine W.bind main.body (W.goes_beside i hnames hcalls) ?_
    cases main.orelse.isEmpty with
    | true => exact hguarded _
    | false => exact W.bind main.body (W.reads _ [] fun _ => rfl) (hguarded _)
  | _ :: _ :: _ => exact W.reads i stmts fun _ => rfl

end Walk

theorem Track.Statements.walk (S : C.Statements) :
    Walk d (fun (_ : Unit) _ => ()) C.Name C.Runs fun _ m _ => ∀ P, Passes C P m where
  block _ _ _ _ := rfl
  branches _ _ _ _ _ := rfl
  reads i stmts m hm P := .still hm fun _ _ _ => trivial
  bind _ hm hf P := .bind (hm P) fun _ => hf _
  guard i _ _ P := modify_passes fun c => S.guard c _ _
  assign i line targets value hnames hcalls P := by
    refine compileAssign_passes S line targets hnames (fun call hcall => (hcalls call hcall).admits) ?_
    rintro hinput name place fn args keywords htargets rfl
    exact assignInput_passes S line (hnames name htargets) fn keywords hinput
      ((hcalls _ (Expr.self_mem_calls place fn args keywords)).feeds hinput fun call hcall => (hcalls call hcall).admits)
  declare i line target typeNote value hnames hcalls P :=
    compileDeclare_passes S line target typeNote hnames fun e he call hcall => (hcalls e he call hcall).admits
  expr i line value hcalls P := compileExprStmt_passes S fun call hcall => (hcalls call hcall).admits
  choose i line test body orelse hnames htest hcalls P := by
    rw [forall_mem_append] at hcalls
    exact compileIf_passes S line hnames (fun call hcall => (htest call hcall).admits)
      (fun call hcall => (hcalls.1 call hcall).admits) fun call hcall => (hcalls.2 call hcall).admits

end Scripts

end ChipForge.Wiring
