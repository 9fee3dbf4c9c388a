import ChipForge.Proofs.Tracks
import ChipForge.Proofs.Translation

/-! Compiling an expression is a row of single acts: nodes are begun, what is in hand is wired to them, and then they are
in hand themselves. What a reference is worth follows from the acts that led to it, and an invariant of the acts is one of
every run. That compilation consists of such acts is proved here once. -/
namespace ChipForge.Wiring
open Script List Text
open Relation (ReflTransGen)

/-- What references are worth, by how they come about, and which nodes may be made for them. -/
structure Worth (d : Dialect) (b : State) where
  Val : Type
  leaf : Ref→Val
  constant : Literal→Val
  made : String→Attrs→List (String×Val)→Val
  output : String→Val→Val
  Makes : String→Option String→List String→Prop
  makes : ∀ {module names}, Wirable [] module names → module ≠ "Constant" → Makes module none names

/-- A node under construction, with what is wired to it and the ports that are still to be wired. -/
structure Begun (V : Type) where
  id : String
  module : String
  attrs : Attrs
  fed : List (String×V)
  ports : List String

/-- What a run has before it: the nodes under construction, the last one first, and the references in hand. -/
structure Bench (V : Type) where
  begun : List (Begun V)
  held : List (Ref×V)

section Acts
variable {d : Dialect} {b : State}

/-- One act of compilation on the way from `b`. -/
inductive Act (W : Worth d b) : Bench W.Val×State→Bench W.Val×State→Prop
  | order (h : Perm R R') : Act W (⟨F,R⟩,s) (⟨F,R'⟩,s)
  | port (name port : String) : Act W (⟨F,R⟩,s) (⟨F,(s.refOfPort name port,W.leaf (s.refOfPort name port))::R⟩,s)
  | constant (v : Literal) (h : outcome (emitConstant d v none) s=(.ok x,t)) :
    Act W (⟨F,R⟩,s) (⟨F,(.node x "Output",W.constant v)::R⟩,t)
  | output (port : String) : Act W (⟨F,(ref,v)::R⟩,s) (⟨F,(outputOf ref port,W.output port v)::R⟩,s)
  | place (attrs : Attrs) (h : W.Makes module plan.id names) (hports : Sublist ports names) :
    Act W (⟨F,R⟩,s) (⟨⟨(s.place module plan attrs).1,module,attrs,[],ports⟩::F,R⟩,(s.place module plan attrs).2)
  | wire (line : Option Nat) :
    Act W (⟨⟨x,module,attrs,fed,port::ports⟩::F,(ref,v)::R⟩,s)
      (⟨⟨x,module,attrs,fed++[(port,v)],ports⟩::F,R⟩,s.connect ref x port line)
  | inputs (ports : List String) (h : b.graph.nodes.length ≤ place) : Act W (S,s) (S,s.setInputs place ports)
  | attrs (h : ∀ attrs, attr? (g attrs) "value" = attr? attrs "value") :
    Act W (⟨⟨x,module,attrs,fed,ports⟩::F,R⟩,s) (⟨⟨x,module,g attrs,fed,ports⟩::F,R⟩,s.mapAttrs x g)
  | nodeType (t : GateType) : Act W (⟨f::F,R⟩,s) (⟨f::F,R⟩,s.setNodeType f.id t)
  | close : Act W (⟨f::F,R⟩,s) (⟨F,(.node f.id autoPort,W.made f.module f.attrs f.fed)::R⟩,s)
  | written (name : String) : Act W (S,s) (S,s.markWritten name)

abbrev Acts (W : Worth d b) : Bench W.Val×State→Bench W.Val×State→Prop := ReflTransGen (Act W)

/-- A state on the way from `b` while an expression is compiled. -/
structure From (b s : State) : Prop where
  scope : s.scope=b.scope
  length : b.graph.nodes.length ≤ s.graph.nodes.length

theorem outcome_emitConstant_ok (d : Dialect) (v : Literal) (t : Option GateType) (s : State) :
    ∃ id u, outcome (emitConstant d v t) s=(.ok id,u) ∧ From s u := by
  have hdraw : From s (s.drawConstant v t) := by
    refine ⟨by cases t <;> rfl,?_⟩
    rw [s.drawConstant_graph]
    show _ ≤ (s.graph.nodes++[_]).length
    rw [length_append]
    exact Nat.le_add_right _ _
  rcases outcome_emitConstant d v t s with ⟨-,id,-,-,h⟩ | ⟨-,-,h⟩ | ⟨-,h⟩
  · exact ⟨id,s,h,rfl,Nat.le_refl _⟩
  · exact ⟨_,_,h,hdraw.scope,hdraw.length⟩
  · exact ⟨_,_,h,hdraw⟩

variable {W : Worth d b} {x y : Bench W.Val×State}

theorem Act.next (h : Act W x y) (hx : From b x.2) : From b y.2 := by
  have hids : ∀ {s t : State}, From b s → t.scope=s.scope → t.graph.ids=s.graph.ids → From b t := by
    intro s t hs hscope hids
    have hlength := congrArg length hids
    rw [Graph.ids,Graph.ids,length_map,length_map] at hlength
    exact ⟨hscope.trans hs.scope,hlength ▸ hs.length⟩
  cases h with
  | order | port | output | close => exact hx
  | constant v h =>
    obtain ⟨id,u,hrun,hu⟩ := outcome_emitConstant_ok d v none _
    rw [hrun] at h
    cases h
    exact ⟨hu.scope.trans hx.scope,Nat.le_trans hx.length hu.length⟩
  | place attrs h hports =>
    refine ⟨hx.scope,Nat.le_trans hx.length ?_⟩
    show _ ≤ ((chooseId _ _ _).2.nodes++[_]).length
    rw [chooseId_nodes,length_append]
    exact Nat.le_add_right _ _
  | @wire _ _ _ _ _ _ _ ref =>
    cases ref with
    | node | name => exact ⟨hx.scope,hx.length⟩
  | inputs ports h => exact hids hx rfl (State.setInputs_ids _ _ _)
  | attrs h => exact hids hx rfl (State.mapAttrs_ids _ _ _)
  | nodeType | written => exact ⟨hx.scope,hx.length⟩

theorem Acts.next (h : Acts W x y) (hx : From b x.2) : From b y.2 := by
  induction h with
  | refl => exact hx
  | tail _ hact ih => exact hact.next ih

end Acts

section Rules
variable {d : Dialect} {b : State} {W : Worth d b} {α β : Type} {S S' : Bench W.Val} {m : Compile α} {f : α → Compile β}
  {Q Q' : α→Bench W.Val→Prop} {P : β→Bench W.Val→Prop} {F : List (Begun W.Val)} {R : List (Ref×W.Val)}

/-- However the step ends, it has consisted of acts, and if it ends well, it leaves what `Q` says. -/
def Works (W : Worth d b) (S : Bench W.Val) (m : Compile α) (Q : α→Bench W.Val→Prop) : Prop :=
  ∀ s, From b s → ∃ S', Acts W (S,s) (S',(outcome m s).2) ∧ ∀ a, (outcome m s).1=.ok a→Q a S'

namespace Works

theorem pure {a : α} (h : Q a S) : Works W S (pure a) Q := by
  refine fun s _ => ⟨S,.refl,fun a' ha => ?_⟩
  cases ha
  exact h

theorem throw {e : Issue} : Works W S (throw e : Compile α) Q := fun _ _ => ⟨S,.refl,fun _ h => nomatch h⟩

theorem bind (hm : Works W S m Q) (hf : ∀ a S', Q a S'→Works W S' (f a) P) : Works W S (m >>= f) P := by
  intro s hs
  obtain ⟨S',hacts,hQ⟩ := hm s hs
  rw [outcome_bind]
  rcases hrun : outcome m s with ⟨e | a,t⟩ <;> rw [hrun] at hacts hQ
  · exact ⟨S',hacts,fun _ h => nomatch h⟩
  · obtain ⟨S'',hrest,hP⟩ := hf a S' (hQ a rfl) t (Acts.next hacts hs)
    exact ⟨S'',hacts.trans hrest,hP⟩

theorem seq {B : α→Bench W.Val} (hm : Works W S m fun a S' => S'=B a) (hf : ∀ a, Works W (B a) (f a) P) :
    Works W S (m >>= f) P :=
  .bind hm fun a _ h => h ▸ hf a

theorem reads (hm : Reads m) (hf : ∀ a s, From b s → outcome m s=(.ok a,s)→Works W S (f a) P) :
    Works W S (m >>= f) P := by
  intro s hs
  rw [outcome_bind]
  rcases hrun : outcome m s with ⟨e | a,t⟩ <;> obtain rfl := hm.eq hrun
  · exact ⟨S,.refl,fun _ h => nomatch h⟩
  · exact hf a t hs hrun t hs

theorem lift {x : Except Issue α} (hf : ∀ a, x=.ok a→Works W S (f a) P) : Works W S (liftM x >>= f) P := by
  refine .reads (fun s => by rw [outcome_lift]) fun a s _ h => hf a ?_
  rw [outcome_lift] at h
  exact congrArg Prod.fst h

theorem modify {f : State→State} (h : ∀ s, Acts W (S,s) (S',f s)) : Works W S (modify f) fun _ S => S=S' :=
  fun s _ => ⟨S',h s,fun _ _ => rfl⟩

theorem after (h : ∀ s, Acts W (S,s) (S',s)) (hm : Works W S' m Q) : Works W S m Q := by
  intro s hs
  obtain ⟨S'',hacts,hQ⟩ := hm s hs
  exact ⟨S'',(h s).trans hacts,hQ⟩

theorem order {R' : List (Ref×W.Val)} (h : Perm R R') (hm : Works W ⟨F,R'⟩ m Q) : Works W ⟨F,R⟩ m Q :=
  hm.after fun _ => .single (.order h)

theorem imp (h : Works W S m Q) (hQ : ∀ {s a t S'}, outcome m s=(.ok a,t)→Q a S'→Q' a S') : Works W S m Q' := by
  intro s hs
  obtain ⟨S',hacts,hpost⟩ := h s hs
  exact ⟨S',hacts,fun a ha => hQ (Prod.ext ha rfl) (hpost a ha)⟩

/-- The last step of building a node puts it in hand. -/
theorem close {m : Compile String} {module : String} {attrs : Attrs} {fed : List (String×W.Val)}
    (h : Works W S m fun x S' => S'=⟨⟨x,module,attrs,fed,[]⟩::F,R⟩) :
    Works W S m fun x S' => S'=⟨F,(.node x autoPort,W.made module attrs fed)::R⟩ := by
  intro s hs
  obtain ⟨S',hacts,hpost⟩ := h s hs
  rcases hrun : outcome m s with ⟨e | x,t⟩ <;> rw [hrun] at hacts hpost
  · exact ⟨S',hacts,fun _ h => nomatch h⟩
  · obtain rfl := hpost x rfl
    refine ⟨_,hacts.tail .close,fun a ha => ?_⟩
    cases ha
    rfl

end Works

/-- The step yields a reference that is worth so much. -/
abbrev Emits (W : Worth d b) (m : Compile Ref) (v : W.Val) : Prop := ∀ {F R}, Works W ⟨F,R⟩ m fun ref S => S=⟨F,(ref,v)::R⟩

abbrev EmitsNode (W : Worth d b) (m : Compile String) (v : W.Val) : Prop :=
  ∀ {F R}, Works W ⟨F,R⟩ m fun x S => S=⟨F,(.node x autoPort,v)::R⟩

theorem emits_node {m : Compile String} {v : W.Val} (h : EmitsNode W m v) :
    Emits W (do let x ← m; pure (.node x autoPort)) v :=
  .seq h fun _ => .pure rfl

end Rules

section Nodes
variable {d : Dialect} {b : State} {W : Worth d b} {F : List (Begun W.Val)} {R : List (Ref×W.Val)} {x module : String}
  {attrs : Attrs} {line : Option Nat} {ports : List (String×Operand)} {fed done : List (String×W.Val)} {names rest : List String}
  {args : List Operand} {keywords : List NamedOperand} {plan : CallPlan}

/-- The arguments that are not left open yield references of these values. -/
def Carries (W : Worth d b) (ports : List (String×Operand)) (fed : List (String×W.Val)) : Prop :=
  Forall₂ (fun p f => p.1=f.1 ∧ Emits W p.2.run f.2) (ports.filter (!·.2.isOpen)) fed

theorem Carries.sublist (h : Carries W ports fed) : (fed.map (·.1)).Sublist (ports.map (·.1)) := by
  have hnames : (ports.filter (!·.2.isOpen)).map (·.1)=fed.map (·.1) := by
    rw [← List.forall₂_eq_eq_eq,List.forall₂_map_left_iff,List.forall₂_map_right_iff]
    exact h.imp fun _ _ hp => hp.1
  exact hnames ▸ filter_sublist.map _

theorem connectPorts_works (h : Carries W ports fed) :
    Works W ⟨⟨x,module,attrs,done,fed.map (·.1)++rest⟩::F,R⟩ (connectPorts x line ports)
      fun _ S => S=⟨⟨x,module,attrs,done++fed,rest⟩::F,R⟩ := by
  induction ports generalizing done fed with
  | nil =>
    cases h
    rw [append_nil]
    exact .pure rfl
  | cons p ports ih =>
    obtain ⟨port,o⟩ := p
    rw [connectPorts_cons]
    unfold Carries at h
    cases hopen : o.isOpen with
    | true =>
      rw [filter_cons_of_neg (by simp [hopen])] at h
      exact ih h
    | false =>
      rw [filter_cons_of_pos (by simp [hopen])] at h
      obtain ⟨⟨_,v⟩,others,⟨rfl,ho⟩,hothers,rfl⟩ := List.forall₂_cons_left_iff.1 h
      have hrest := @ih others (done++[(port,v)]) hothers
      rw [append_assoc,singleton_append] at hrest
      exact .seq ho fun _ => .seq (.modify fun _ => .single (.wire line)) fun _ => hrest

/-- A call begins one node. -/
theorem emitCall_works (hplan : planCall ⟨line,module,args,keywords⟩=.ok plan) (h : Carries W plan.ports fed)
    (hmakes : W.Makes module plan.id names) (hnames : (fed.map (·.1)++rest).Sublist names) :
    Works W ⟨F,R⟩ (emitCall d ⟨line,module,args,keywords⟩)
      fun x S => S=⟨⟨x,module,b.attrsOf d (lower module) plan,fed,rest⟩::F,R⟩ := by
  intro s hs
  rw [outcome_emitCall hplan,State.attrsOf_congr (congrArg Scope.nameTypes hs.scope)]
  let attrs := b.attrsOf d (lower module) plan
  have hplace : Act W (⟨F,R⟩,s) (⟨⟨(s.place module plan attrs).1,module,attrs,[],fed.map (·.1)++rest⟩::F,R⟩,
    (s.place module plan attrs).2) := .place attrs hmakes hnames
  have hwork : ∀ x, Works W ⟨⟨x,module,attrs,[],fed.map (·.1)++rest⟩::F,R⟩ (do
      connectPorts x line plan.ports
      modify fun t => t.setInputs s.graph.nodes.length (plan.ports.map (·.1))
      pure x) fun x S => S=⟨⟨x,module,attrs,fed,rest⟩::F,R⟩ := fun x =>
    .seq (connectPorts_works h) fun _ => .seq (.modify fun _ => .single (.inputs _ hs.length)) fun _ => .pure rfl
  obtain ⟨S,hacts,hS⟩ := hwork _ _ (hplace.next hs)
  exact ⟨S,.head hplace hacts,hS⟩

theorem emitModule_works (hwirable : Wirable [] module (ports.map (·.1))) (hne : module ≠ "Constant")
    (hplain : PlainPorts module ports) (h : Carries W ports fed) : EmitsNode W (emitModule d module ports) (W.made module [] fed) := by
  intro F R
  refine Works.close (emitCall_works (planCall_plain hplain) h (W.makes hwirable hne) ?_)
  rw [append_nil]
  exact h.sublist

theorem emitOpen_works {ports : List String} (hwirable : Wirable [] module names) (hne : module ≠ "Constant")
    (hplain : PlainPorts module (ports.map fun port => (port,Operand.open))) :
    Works W ⟨F,R⟩ (emitOpen d module ports) fun x S => S=⟨⟨x,module,[],[],names⟩::F,R⟩ := by
  refine emitCall_works (planCall_plain hplain) ?_ (W.makes hwirable hne) (Sublist.refl _)
  have hopen : (ports.map fun port => (port,Operand.open)).filter (!·.2.isOpen)=[] := by simp [Operand.open,Operand.isOpen]
  rw [Carries,hopen]
  exact .nil

theorem acts_wires (line : Option Nat) (wires : List (String×Ref×W.Val)) (s : State) :
    Acts W (⟨⟨x,module,attrs,done,wires.map (·.1)⟩::F,wires.map (·.2)++R⟩,s)
      (⟨⟨x,module,attrs,done++wires.map fun w => (w.1,w.2.2),[]⟩::F,R⟩,
        (wires.map fun w => (w.1,w.2.1)).foldl (fun s (port,ref) => s.connect ref x port line) s) := by
  induction wires generalizing done s with
  | nil =>
    simp only [map_nil,append_nil]
    exact .refl
  | cons w wires ih =>
    have hrest := @ih (done++[(w.1,w.2.2)]) (s.connect w.2.1 x w.1 line)
    rw [append_assoc,singleton_append] at hrest
    exact .head (.wire line) hrest

theorem emitWired_works (wires : List (String×Ref×W.Val)) (hwirable : Wirable [] module (wires.map (·.1)))
    (hne : module ≠ "Constant") (hplain : PlainPorts module wires) :
    Works W ⟨F,wires.map (·.2)++R⟩ (emitWired d module (wires.map fun w => (w.1,w.2.1)) line)
      fun ref S => S=⟨F,(ref,W.made module [] (wires.map fun w => (w.1,w.2.2)))::R⟩ := by
  have hnames : (wires.map fun w => (w.1,w.2.1)).map (·.1)=wires.map (·.1) := by
    rw [map_map]
    rfl
  have hopen : PlainPorts module ((wires.map (·.1)).map fun port => (port,Operand.open)) := by
    refine ⟨hplain.module,fun p hp => ?_⟩
    simp only [map_map,mem_map] at hp
    obtain ⟨w,hw,rfl⟩ := hp
    exact hplain.ports w hw
  unfold emitWired
  rw [hnames]
  refine .seq (emitOpen_works hwirable hne hopen) fun x => .seq (.modify fun s => acts_wires line wires s) fun _ => ?_
  exact .after (fun _ => .single .close) (.pure rfl)

def Worth.pair (W : Worth d b) (module : String) (left right : W.Val) : W.Val := W.made module [] [("A",left),("B",right)]

theorem emitPair_works {left right : Ref} {v w : W.Val} {line : Nat} (hwirable : Wirable [] module ["A","B"])
    (hne : module ≠ "Constant") (hplain : lower module ≠ "input" ∧ lower module ≠ "output") :
    Works W ⟨F,(left,v)::(right,w)::R⟩ (emitWired d module [("A",left),("B",right)] (some line))
      fun ref S => S=⟨F,(ref,W.pair module v w)::R⟩ :=
  emitWired_works [("A",left,v),("B",right,w)] hwirable hne ⟨hplain,by simp⟩

theorem emitChoice_works {test yes no : Ref} {t : GateType} {v vyes vno : W.Val} :
    Works W ⟨F,(test,v)::(yes,vyes)::(no,vno)::R⟩ (emitChoice d test yes no t line)
      fun x S => S=⟨F,(.node x autoPort,W.made "Branch" [(.str "data_type",.str t.name)] [("If",v),("A",vyes),("B",vno)])::R⟩ := by
  refine .seq (emitOpen_works .choice (by decide) ⟨by decide,by simp⟩) fun x => ?_
  refine .seq (B := fun _ => ⟨⟨x,"Branch",[(.str "data_type",.str t.name)],[],["If","A","B"]⟩::F,(test,v)::(yes,vyes)::(no,vno)::R⟩)
    (.modify fun s => ?_) fun _ => ?_
  · exact .tail (.single (.attrs (g := fun attrs => setAttr attrs "data_type" (.str t.name))
      fun _ => attr?_setAttr_ne (by decide))) (.nodeType t)
  · refine .seq (.modify fun s => acts_wires line [("If",test,v),("A",yes,vyes),("B",no,vno)] s) fun _ => ?_
    exact .after (fun _ => .single .close) (.pure rfl)

theorem emitConstant_works (v : Literal) :
    Works W ⟨F,R⟩ (emitConstant d v none) fun x S => S=⟨F,(.node x "Output",W.constant v)::R⟩ := by
  intro s hs
  obtain ⟨x,u,hrun,-⟩ := outcome_emitConstant_ok d v none s
  rw [hrun]
  refine ⟨_,.single (.constant v hrun),fun a ha => ?_⟩
  cases ha
  rfl

theorem alwaysOn_emits : Emits W (alwaysOn d) (W.constant (.float 1.0)) := .seq (emitConstant_works _) fun _ => .pure rfl

/-- A new variable is given its name before anything is wired to it. -/
theorem emitVariable_works (hwirable : Wirable [] "VARIABLE" names) (name : String) :
    Works W ⟨F,R⟩ (emitVariable d name) fun x S => S=⟨⟨x,"VARIABLE",[(.str "dsl_name",.str name)],[],names⟩::F,R⟩ := by
  refine .seq (emitOpen_works hwirable (by decide) ⟨by decide,by simp⟩) fun x => ?_
  refine .seq (.modify fun s => .single (.attrs
    (g := fun attrs => if (attr? attrs "dsl_name").isSome then attrs else setAttr attrs "dsl_name" (.str name)) fun attrs => ?_))
    fun _ => .pure rfl
  split_ifs
  · rfl
  · exact attr?_setAttr_ne (by decide)

theorem setTrigger_works {trigger : Ref} {v : W.Val} (name : String) :
    Works W ⟨⟨x,module,attrs,fed,["Set"]⟩::F,(trigger,v)::R⟩ (modify fun s => (s.connect trigger x "Set" line).markWritten name)
      fun _ S => S=⟨F,(.node x autoPort,W.made module attrs (fed++[("Set",v)]))::R⟩ :=
  .modify fun _ => ((ReflTransGen.single (.wire line)).tail (.written name)).tail .close

theorem emitWriteRef_works {name : String} {value : Ref} {v : W.Val} {line : Nat} :
    Works W ⟨F,(value,v)::R⟩ (emitWriteRef d name value line) fun _ S => ∃ R', S=⟨F,R'⟩ := by
  refine .reads (checkWritable_reads name (some line)) fun _ _ _ _ => ?_
  refine .seq (emitVariable_works .write name) fun x => ?_
  refine .seq (.modify fun s => .single (.wire (some line))) fun _ => .seq alwaysOn_emits fun trigger => ?_
  exact (setTrigger_works name).imp fun _ h => ⟨_,h⟩

theorem emitWrite_works (hargs : ∀ o∈args, ∃ v, Emits W o.run v) (hkeywords : ∀ k∈keywords, ∃ v, Emits W k.operand.run v) :
    Works W ⟨F,R⟩ (emitWrite d line args keywords) fun ref S => ∃ attrs fed, S=⟨F,(ref,W.made "VARIABLE" attrs fed)::R⟩ := by
  unfold emitWrite
  refine .lift fun w hw => ?_
  obtain ⟨hvalue,htrigger⟩ := writeArgs_mem hw
  split
  · rename_i name _
    obtain ⟨v,hv⟩ := hargs _ hvalue
    refine .reads (checkWritable_reads name none) fun _ _ _ _ => ?_
    refine .seq (emitVariable_works .write name) fun x => .seq hv fun value => ?_
    refine .seq (.modify fun s => .single (.wire line)) fun _ => ?_
    have hset : ∀ trigger w, Works W ⟨⟨x,"VARIABLE",[(.str "dsl_name",.str name)],[("Value",v)],["Set"]⟩::F,(trigger,w)::R⟩ (do
          modify fun s => (s.connect trigger x "Set" line).markWritten name
          pure (Ref.node x autoPort)) fun ref S => ∃ attrs fed, S=⟨F,(ref,W.made "VARIABLE" attrs fed)::R⟩ :=
      fun _ _ => .seq (setTrigger_works name) fun _ => .pure ⟨_,_,rfl⟩
    cases ho : w.trigger with
    | none => exact .seq alwaysOn_emits fun trigger => hset trigger _
    | some o =>
      obtain ⟨w,hw⟩ : ∃ w, Emits W o.run w := by
        rcases htrigger o ho with ho | ⟨k,hk,rfl⟩
        · exact hargs o ho
        · exact hkeywords k hk
      exact .seq hw fun trigger => hset trigger w
  · exact .throw

end Nodes

section Rows
variable {d : Dialect} {b : State} {W : Worth d b} {F : List (Begun W.Val)} {R : List (Ref×W.Val)} {v : W.Val} {line : Nat}

/-- What the comparisons of neighbours in a row are worth. -/
inductive Worth.Row (W : Worth d b) : W.Val→List (CompareOp×W.Val)→List W.Val→Prop
  | nil : W.Row left [] []
  | cons (h : comparisonModule op=.ok module) (hrest : W.Row right rest vs) :
    W.Row left ((op,right)::rest) (W.pair module left right::vs)

theorem joinLogic_works (op : BoolOp) {os : List Operand} {vs : List W.Val} (h : Forall₂ (fun o v => Emits W o.run v) os vs)
    (acc : Ref) : Works W ⟨F,(acc,v)::R⟩ (joinLogic d (logicModule op) line acc os)
      fun ref S => S=⟨F,(ref,vs.foldl (W.pair (logicModule op)) v)::R⟩ := by
  have hplain : lower (logicModule op) ≠ "input" ∧ lower (logicModule op) ≠ "output" := by cases op <;> decide
  induction h generalizing acc v with
  | nil => exact .pure rfl
  | cons ho _ ih =>
    refine .seq ho fun right => .order (.swap _ _ _) ?_
    exact .seq (emitPair_works (.logic op) (by cases op <;> decide) hplain) fun next => ih next

theorem comparisonModule_plain {op : CompareOp} {module : String} (h : comparisonModule op=.ok module) :
    module ≠ "Constant" ∧ lower module ≠ "input" ∧ lower module ≠ "output" := by
  cases op <;> cases h <;> decide

theorem compareEach_works {left : Operand} {rest : List (CompareOp×Operand)} {vs : List (CompareOp×W.Val)}
    (hleft : Emits W left.run v) (hrest : Forall₂ (fun c w => c.1=w.1 ∧ Emits W c.2.run w.2) rest vs) :
    Works W ⟨F,R⟩ (compareEach d line left rest) fun refs S =>
      ∃ pairs, pairs.map (·.1)=refs ∧ W.Row v vs (pairs.map (·.2)) ∧ S=⟨F,pairs++R⟩ := by
  induction hrest generalizing left v R with
  | nil => exact .pure ⟨[],rfl,.nil,rfl⟩
  | @cons c w rest vs hc _ ih =>
    obtain ⟨op,right⟩ := c
    obtain ⟨_,vright⟩ := w
    obtain ⟨rfl,hright⟩ := hc
    refine .seq hleft fun l => .seq hright fun r => .lift fun module hmodule => .order (.swap _ _ _) ?_
    obtain ⟨hne,hplain⟩ := comparisonModule_plain hmodule
    refine .seq (emitPair_works (.comparison hmodule) hne hplain) fun first => .bind (ih hright) ?_
    rintro _ _ ⟨pairs,rfl,hrow,rfl⟩
    exact .order perm_middle (.pure ⟨(first,_)::pairs,rfl,.cons hmodule hrow,rfl⟩)

theorem joinComparisons_works (pairs : List (Ref×W.Val)) (acc : Ref) :
    Works W ⟨F,(acc,v)::(pairs++R)⟩ (joinComparisons d line acc (pairs.map (·.1)))
      fun ref S => S=⟨F,(ref,(pairs.map (·.2)).foldl (W.pair "AND") v)::R⟩ := by
  induction pairs generalizing acc v with
  | nil => exact .pure rfl
  | cons p pairs ih => exact .seq (emitPair_works (.logic .and) (by decide) (by decide)) fun next => ih next

end Rows

section Values
variable {d : Dialect} {b : State}

namespace Worth

/-- What is fed to the ports by written arguments. -/
def fed (W : Worth d b) (value : Expr→W.Val) (ports : List (String×Expr)) : List (String×W.Val) :=
  (ports.filter fun p => !leavesOpen p.2).map fun p => (p.1,value p.2)

def ofForm (W : Worth d b) (value : Expr→W.Val) (form : Form) (ports : List (String×Expr)) : W.Val :=
  match form.shape with
  | .negatedMax =>
    W.made "Negate" [] [("Input",W.made form.module [] (ports.map fun p =>
      (p.1,W.made "Negate" [] (W.fed value [("Input",p.2)]))))]
  | _ => W.made form.module [] (W.fed value ports)

/-- Expressions have values that come about as their references do. -/
structure Values (W : Worth d b) (value : Expr→W.Val) : Prop where
  name : ∀ name, value (.name name)=W.leaf (b.refOfName name)
  port : ∀ {name slice port}, (Literal.ofExpr? slice).bind portText?=some port →
    value (.subscript (.name name) slice)=W.leaf (b.refOfPort name port)
  output : ∀ {line fn args keywords slice port}, (Literal.ofExpr? slice).bind portText?=some port →
    value (.subscript (.call line fn args keywords) slice)=W.output port (value (.call line fn args keywords))
  logic : ∀ {line op first rest},
    value (.boolOp line op (first::rest))=(rest.map value).foldl (W.pair (logicModule op)) (value first)
  row : ∀ {line left rest v vs}, W.Row (value left) (rest.map fun c => (c.op,value c.right)) (v::vs) →
    value (.compare line left rest)=vs.foldl (W.pair "AND") v
  choice : ∀ {line test body orelse t}, b.choiceType? d line body orelse=some t →
    value (.cond line test body orelse)=W.made "Branch" [(.str "data_type",.str t.name)]
      [("If",value test),("A",value body),("B",value orelse)]
  negation : ∀ {line e}, value (.unary line .not e)=W.made "NOT" [] [("A",value e)]
  literal : ∀ {e v}, (Literal.ofExpr? e).filter isConstant=some v → value e=W.constant v
  opposite : ∀ {line e}, (Literal.ofExpr? (.unary line .minus e)).filter isConstant=none →
    value (.unary line .minus e)=W.made "Negate" [] (W.fed value [("Input",e)])
  plus : ∀ {line e}, (Literal.ofExpr? (.unary line .plus e)).filter isConstant=none → value (.unary line .plus e)=value e
  operator : ∀ {left op right module first second}, operatorPorts? op=some (module,first,second) →
    value (.binary left op right)=W.made module [] (W.fed value [(first,left),(second,right)])
  function : ∀ {line fn args keywords form ports}, Form.find? (canonicalModule (calledName fn))=some form →
    form.ports? args (keywords.map Keyword.pair)=some ports → value (.call line fn args keywords)=W.ofForm value form ports
  call : ∀ {line fn args keywords}, Form.find? (canonicalModule (calledName fn))=none →
    value (.call line fn args keywords)=W.made (canonicalModule (calledName fn))
      (b.settings d (canonicalModule (calledName fn)) args (keywords.map Keyword.pair))
      (W.fed value (callPorts (lower (canonicalModule (calledName fn))) args (keywords.map Keyword.pair)))

/-- What is asked of a call: its node may be made, and a write is worth what its variable is. -/
structure Admits (W : Worth d b) (value : Expr→W.Val) (call : Expr) : Prop where
  makes : ∀ ⦃line fn args keywords⦄, call=.call line fn args keywords →
    Form.find? (canonicalModule (calledName fn))=none→∀ asked : Option String, (∀ x∈asked, x∈call.ownIds) →
      W.Makes (canonicalModule (calledName fn)) asked (wiredPorts (lower (canonicalModule (calledName fn))) args keywords)
  write : isWrite call=true→∀ attrs fed, value call=W.made "VARIABLE" attrs fed

end Worth

variable {W : Worth d b} {value : Expr→W.Val} {F : List (Begun W.Val)} {R : List (Ref×W.Val)} {form : Form} {line : Nat}
  {fn : Expr} {args : List Expr} {keywords : List Keyword} {ports : List (String×Expr)}

theorem carries_written (h : ∀ p∈ports, Emits W (emitExpr d p.2) (value p.2)) :
    Carries W (ports.map (Prod.map id (operandOf (emitExpr d)))) (W.fed value ports) := by
  have hports : (ports.map (Prod.map id (operandOf (emitExpr d)))).filter (!·.2.isOpen) =
      (ports.filter fun p => !leavesOpen p.2).map (Prod.map id (operandOf (emitExpr d))) := by
    rw [filter_map]
    simp [Function.comp_def,operandOf_isOpen]
  rw [Carries,hports,Worth.fed,forall₂_map_map]
  exact fun p hp => ⟨rfl,h p (mem_of_mem_filter hp)⟩

/-- A sum or difference of numbers that is a literal is complex, and no constant is. -/
theorem literal_binary (left right : Expr) (op : BinaryOp) :
    (Literal.ofExpr? (.binary left op right)).filter isConstant=none := by
  have hsum : ∀ subtract, ((Literal.ofSum left right subtract).toOption).filter isConstant=none := by
    intro subtract
    cases hv : Literal.ofSum left right subtract with
    | error why => rfl
    | ok v =>
      obtain ⟨l,r,-,-,hv⟩ := bind_bind_eq_ok.1 hv
      cases l with
      | int _ | float _ =>
        cases r with
        | complex a b =>
          cases hv
          cases subtract <;> rfl
        | _ => cases hv
      | _ => cases hv
  unfold Literal.ofExpr?
  cases op <;> simp only [Literal.ofExpr] <;> first | exact hsum _ | rfl

theorem literal_call (line : Nat) (fn : Expr) (args : List Expr) (keywords : List Keyword) :
    (Literal.ofExpr? (.call line fn args keywords)).filter isConstant=none := by
  rw [Literal.ofExpr?,Literal.ofExpr.eq_def]
  split <;> first | rfl | trivial

theorem literal_unary {line : Nat} {op : UnaryOp} {operand : Expr} {v : Literal}
    (h : Literal.ofExpr? (.unary line op operand)=some v) : ∃ c, operand=.const c := by
  have hnumber : ∃ w, Literal.ofNumber operand=.ok w := by
    unfold Literal.ofExpr? at h
    cases op with
    | plus | minus =>
      simp only [Literal.ofExpr,Literal.ofSigned] at h
      cases hv : Literal.ofNumber operand with
      | ok w => exact ⟨w,rfl⟩
      | error why => simp [hv,Except.map,Except.toOption] at h
    | invert | not => simp [Literal.ofExpr,Literal.ofSigned,Literal.ofNumber,Except.toOption] at h
  obtain ⟨w,hw⟩ := hnumber
  unfold Literal.ofNumber at hw
  split at hw
  · exact ⟨_,rfl⟩
  · exact ⟨_,rfl⟩
  · exact ⟨_,rfl⟩
  · cases hw

theorem constantOr_emits (V : W.Values value) (e : Expr) {otherwise : Compile Ref}
    (h : (Literal.ofExpr? e).filter isConstant=none→Emits W otherwise (value e)) :
    Emits W (constantOr d e otherwise) (value e) := by
  intro F R
  unfold constantOr
  split
  · rename_i v hv
    rw [V.literal hv]
    exact .seq (emitConstant_works v) fun _ => .pure rfl
  · rename_i hnone
    exact h hnone

theorem emitModule_missing {module port x : String} {rest : List (String×Operand)} {s u : State}
    (hplain : PlainPorts module ((port,Operand.missing)::rest)) :
    outcome (emitModule d module ((port,Operand.missing)::rest)) s≠(.ok x,u) := by
  intro h
  rw [emitModule,outcome_emitCall (planCall_plain hplain)] at h
  cases h

theorem Form.ports?_names {α : Type} {args : List α} {keywords : List (Option String×α)} {ports : List (String×α)}
    (h : form.ports? args keywords=some ports) : ports.map (·.1)=form.portNames := by
  unfold ports? at h
  unfold portNames
  split_ifs at h ⊢
  · obtain ⟨a,-,rfl⟩ := Option.map_eq_some_iff.1 h
    rfl
  · generalize form.slots=slots at h ⊢
    induction slots generalizing ports with
    | nil =>
      cases h
      rfl
    | cons slot rest ih =>
      rw [mapM_cons] at h
      obtain ⟨first,hfirst,h⟩ := Option.bind_eq_some_iff.1 h
      obtain ⟨others,hothers,h⟩ := Option.bind_eq_some_iff.1 h
      obtain ⟨a,-,rfl⟩ := Option.map_eq_some_iff.1 hfirst
      cases h
      rw [map_cons,map_cons,ih hothers]

theorem callOf_written (d : Dialect) (line : Nat) (module : String) (args : List Expr) (keywords : List Keyword) :
    (⟨some line,module,operands d args,namedOperands d keywords⟩ : ModuleCall) =
      callOf (emitExpr d) (some line) module args (keywords.map Keyword.pair) := by
  rw [operands_eq,namedOperands_eq,callOf,map_map]
  rfl

theorem carries_negated (h : ∀ p∈ports, Emits W (emitExpr d p.2) (value p.2)) :
    Carries W ((ports.map (Prod.map id (operandOf (emitExpr d)))).map fun p => (p.1,Form.nested d "Negate" [("Input",p.2)]))
      (ports.map fun p => (p.1,W.made "Negate" [] (W.fed value [("Input",p.2)]))) := by
  rw [Carries,map_map,filter_eq_self.2 fun q hq => ?_,forall₂_map_map]
  · intro p hp
    have hinput : ∀ q∈[("Input",p.2)], Emits W (emitExpr d q.2) (value q.2) := forall_mem_singleton.2 (h p hp)
    exact ⟨rfl,emits_node (emitModule_works .opposite (by decide) ⟨by decide,by simp⟩ (carries_written hinput))⟩
  · obtain ⟨p,-,rfl⟩ := mem_map.1 hq
    rfl

section Calls
variable (V : W.Values value)
  (hparts : ∀ x∈(Expr.call line fn args keywords).parts, Emits W (emitExpr d x) (value x))
include hparts

theorem emits_argument {x : Expr} (hx : x∈args ∨ ∃ k∈keywords.map Keyword.pair, k.2=x) : Emits W (emitExpr d x) (value x) := by
  rcases hx with hx | ⟨k,hk,rfl⟩
  · exact hparts x (mem_append_left _ hx)
  · obtain ⟨keyword,hkeyword,rfl⟩ := mem_map.1 hk
    exact hparts keyword.value (mem_append_right _ (mem_map_of_mem hkeyword))

include V

theorem Form.emit_works (hform : Form.find? (canonicalModule (calledName fn))=some form) :
    EmitsNode W (form.emit d (operands d args) (namedOperands d keywords)) (value (.call line fn args keywords)) := by
  intro F R
  refine .lift fun ports hports => ?_
  have hisPlain := Form.find?_isPlain form hform
  have hne : form.module ≠ "Constant" := Form.find?_module_ne form hform
  have hargs : operands d args=args.map (operandOf (emitExpr d)) := operands_eq d args
  rcases Form.arguments_eq_ok hports with hports | ⟨hshape,rfl⟩
  · rw [hargs,namedOperands_pair,Form.ports?_map] at hports
    obtain ⟨ports,hfit,rfl⟩ := Option.map_eq_some_iff.1 hports
    have hemits : ∀ p∈ports, Emits W (emitExpr d p.2) (value p.2) :=
      fun p hp => emits_argument hparts (Form.mem_of_ports? hfit hp).2
    have hnamed : ∀ {α : Type} {l : List (String×α)}, l.map (·.1)=ports.map (·.1) →
        PlainPorts form.module l ∧ Wirable [] form.module (l.map (·.1)) := by
      intro α l hl
      refine ⟨⟨hisPlain.module,fun p hp => ?_⟩,hl ▸ Form.ports?_names hfit ▸ .function hform⟩
      obtain ⟨q,hq,hqp⟩ := mem_map.1 (hl ▸ mem_map_of_mem hp)
      exact hqp ▸ (hisPlain.plainPorts hfit).ports q hq
    have hwritten := hnamed (l := ports.map (Prod.map id (operandOf (emitExpr d)))) (by rw [map_map]; rfl)
    have hnode : EmitsNode W (emitModule d form.module _) (W.made form.module [] (W.fed value ports)) :=
      emitModule_works hwritten.2 hne hwritten.1 (carries_written hemits)
    rw [V.function hform hfit,Worth.ofForm]
    cases form.shape with
    | negatedMax =>
      have hinner := hnamed (l := (ports.map (Prod.map id (operandOf (emitExpr d)))).map fun p =>
        (p.1,Form.nested d "Negate" [("Input",p.2)])) (by rw [map_map,map_map]; rfl)
      have hmost : Emits W (Form.nested d form.module _).run _ :=
        emits_node (emitModule_works hinner.2 hne hinner.1 (carries_negated hemits))
      have hport : Carries W [("Input",Form.nested d form.module _)] [("Input",_)] := .cons ⟨rfl,hmost⟩ .nil
      exact emitModule_works .opposite (by decide) ⟨by decide,by simp⟩ hport
    | node => exact hnode
    | twice => exact hnode
  · rw [hshape]
    have hmissing : Emits W Operand.missing.run (value fn) := .throw
    have hplain : PlainPorts form.module [("A",Operand.missing),("B",Operand.missing)] := ⟨hisPlain.module,by simp⟩
    have hwirable : Wirable [] form.module ["A","B"] := by
      have hnames : form.portNames=["A","B"] := by simp [Form.portNames,hshape]
      exact hnames ▸ .function hform
    have hports : Carries W [("A",Operand.missing),("B",Operand.missing)] [("A",value fn),("B",value fn)] :=
      .cons ⟨rfl,hmissing⟩ (.cons ⟨rfl,hmissing⟩ .nil)
    refine (emitModule_works hwirable hne hplain hports).imp fun hrun _ => ?_
    exact absurd hrun (emitModule_missing hplain)

theorem emitCall_emits (hform : Form.find? (canonicalModule (calledName fn))=none)
    (hcall : W.Admits value (.call line fn args keywords)) :
    EmitsNode W (emitCall d ⟨some line,canonicalModule (calledName fn),operands d args,namedOperands d keywords⟩)
      (value (.call line fn args keywords)) := by
  intro F R
  cases hplan : planCall ⟨some line,canonicalModule (calledName fn),operands d args,namedOperands d keywords⟩ with
  | error issue =>
    intro s hs
    rw [outcome_emitCall_error hplan]
    exact ⟨_,.refl,fun _ h => nomatch h⟩
  | ok plan =>
    have hmakes := hcall.makes rfl hform plan.id fun x hx => mem_ownIds_of_planCall hplan hx
    have hargs : operands d args=args.map (operandOf (emitExpr d)) := operands_eq d args
    have hports := planCall_ports hplan
    rw [hargs,namedOperands_pair,callPorts_map] at hports
    dsimp only at hports
    have hcarries : Carries W plan.ports (W.fed value (callPorts (lower (canonicalModule (calledName fn))) args
        (keywords.map Keyword.pair))) := by
      rw [hports]
      exact carries_written fun p hp => emits_argument hparts (mem_of_mem_callPorts hp)
    rw [V.call hform,← attrsOf_eq_settings (callOf_written d line _ args keywords ▸ hplan) b]
    refine Works.close (emitCall_works hplan hcarries hmakes ?_)
    rw [append_nil,Worth.fed,map_map]
    exact Sublist.refl _

theorem call_emits (hcall : W.Admits value (.call line fn args keywords)) :
    Emits W (emitWritten d line fn (operands d args) (namedOperands d keywords)) (value (.call line fn args keywords)) := by
  intro F R
  unfold emitWritten
  dsimp only
  split_ifs with hwrite
  · refine (emitWrite_works (fun o ho => ?_) fun k hk => ?_).imp fun _ h => ?_
    · rw [operands_eq] at ho
      obtain ⟨e,he,rfl⟩ := mem_map.1 ho
      exact ⟨_,hparts e (mem_append_left _ he)⟩
    · rw [namedOperands_eq] at hk
      obtain ⟨k,hmem,rfl⟩ := mem_map.1 hk
      exact ⟨_,hparts k.value (mem_append_right _ (mem_map_of_mem hmem))⟩
    · obtain ⟨attrs,fed,rfl⟩ := h
      rw [hcall.write hwrite attrs fed]
  · split
    · rename_i form hform
      exact emits_node (Form.emit_works V hparts hform)
    · rename_i hform
      exact emits_node (emitCall_emits V hparts hform hcall)

end Calls

theorem From.refOfPort {s : State} (hs : From b s) (name port : String) : s.refOfPort name port=b.refOfPort name port := by
  rw [State.refOfPort,State.refOfPort,show s.nodeOf=b.nodeOf from congrArg Scope.nodeOf hs.scope]

theorem From.refOfName {s : State} (hs : From b s) (name : String) :
    s.refOfName name=b.refOfName name ∧ ∃ up port, s.refOfName name=s.refOfPort up port := by
  have haliases : s.aliases=b.aliases := congrArg Scope.aliases hs.scope
  have hnodeOf : s.nodeOf=b.nodeOf := congrArg Scope.nodeOf hs.scope
  refine ⟨by rw [State.refOfName,State.refOfName,haliases,hnodeOf],?_⟩
  unfold State.refOfName
  cases s.aliases.find name with
  | none => exact ⟨name,autoPort,rfl⟩
  | some target => exact ⟨target.1,target.2,rfl⟩

theorem port_emits {f : State→Ref} (hf : ∀ s, From b s → f s=f b ∧ ∃ name port, f s=s.refOfPort name port) :
    Emits W (do pure (f (← get))) (W.leaf (f b)) := by
  intro F R s hs
  obtain ⟨hsame,name,port,hport⟩ := hf s hs
  refine ⟨⟨F,(f s,W.leaf (f s))::R⟩,.single ?_,fun a ha => ?_⟩
  · rw [hport]
    exact .port name port
  · cases ha
    rw [hsame]

section Steps
variable {s u : State}

theorem typeOf_eq_ok {e : Expr} {t : Option GateType} (h : outcome (typeOf d e) s=(.ok t,u)) :
    typeOfExpr ⟨s.nameTypes,d.outputs⟩ e=.ok t := by
  rw [typeOf,outcome_get_bind] at h
  cases htype : typeOfExpr ⟨s.nameTypes,d.outputs⟩ e <;> rw [htype] at h <;> cases h
  rfl

theorem mergedType_eq_ok {left right target t : Option GateType} (h : outcome (mergedType left right target line) s=(.ok t,u)) :
    mergeTypes left right target (some line)=.ok t := by
  unfold mergedType at h
  cases htype : mergeTypes left right target (some line) <;> rw [htype] at h <;> cases h
  rfl

theorem subscriptPort_eq_ok {slice : Expr} {v : Literal} (h : outcome (subscriptPort slice) s=(.ok v,u)) :
    Literal.ofExpr? slice=some v ∧ u=s := by
  unfold subscriptPort at h
  unfold Literal.ofExpr?
  cases hv : Literal.ofExpr slice <;> rw [hv] at h <;> cases h
  exact ⟨rfl,rfl⟩

end Steps

variable (V : W.Values value)
include V

theorem cond_emits {test body orelse : Expr} (htest : Emits W (emitExpr d test) (value test))
    (hbody : Emits W (emitExpr d body) (value body)) (horelse : Emits W (emitExpr d orelse) (value orelse)) :
    Emits W (emitExpr d (.cond line test body orelse)) (value (.cond line test body orelse)) := by
  intro F R
  rw [emitExpr]
  split_ifs
  · refine .seq htest fun testRef => .seq hbody fun yes => .seq horelse fun no => ?_
    refine .reads (typeOf_reads d body) fun bodyType s hs hleft => ?_
    refine .reads (typeOf_reads d orelse) fun elseType t ht hright => ?_
    refine .reads (mergedType_reads _ _ _ _) fun merged _ _ hmerged => ?_
    have htype : b.choiceType? d line body orelse=merged := by
      have hleft := typeOf_eq_ok hleft
      have hright := typeOf_eq_ok hright
      rw [show s.nameTypes=b.nameTypes from congrArg Scope.nameTypes hs.scope] at hleft
      rw [show t.nameTypes=b.nameTypes from congrArg Scope.nameTypes ht.scope] at hright
      rw [State.choiceType?,hleft,hright]
      dsimp only
      rw [mergedType_eq_ok hmerged]
      rfl
    cases merged with
    | none => exact .throw
    | some t =>
      rw [V.choice htype]
      refine .order ((reverse_perm [(testRef,value test),(yes,value body),(no,value orelse)]).append_right R) ?_
      exact .seq emitChoice_works fun _ => .pure rfl
  · exact .throw

theorem subscript_emits {e slice : Expr} (h : Emits W (emitExpr d e) (value e)) :
    Emits W (emitExpr d (.subscript e slice)) (value (.subscript e slice)) := by
  have hport : ∀ {port : Literal} {text : String} {s : State}, outcome (subscriptPort slice) s=(.ok port,s) →
      portText? port=some text → (Literal.ofExpr? slice).bind portText?=some text := by
    intro port text s hrun htext
    rw [(subscriptPort_eq_ok hrun).1,Option.bind_some,htext]
  have hliteral : Emits W (constantOr d (.subscript e slice) (unsupported (.subscript e slice))) (value (.subscript e slice)) :=
    constantOr_emits V _ fun _ => .throw
  intro F R
  cases e with
  | name name =>
    rw [emitExpr]
    refine .reads (subscriptPort_reads slice) fun port s _ hrun => ?_
    cases htext : portText? port with
    | none => exact .throw
    | some text =>
      rw [V.port (hport hrun htext)]
      exact port_emits (f := fun s => s.refOfPort name text) fun s hs => ⟨hs.refOfPort name text,_,_,rfl⟩
  | call line fn args keywords =>
    simp only [emitExpr] at h
    rw [emitExpr]
    refine .seq h fun ref => .reads (subscriptPort_reads slice) fun port s _ hrun => ?_
    cases htext : portText? port with
    | none => cases ref <;> exact .throw
    | some text =>
      rw [V.output (hport hrun htext)]
      exact .after (fun _ => .single (.output text)) (.pure rfl)
  | _ =>
    rw [emitExpr]
    · exact hliteral
    all_goals simp

/-- Compiling an expression whose calls are admitted consists of acts, and the reference it yields is worth what the
expression is. -/
theorem emitExpr_emits (e : Expr) (hcalls : ∀ call∈e.calls, W.Admits value call) : Emits W (emitExpr d e) (value e) := by
  induction e using Expr.induction_parts with
  | step e ih =>
    have hparts : ∀ x∈e.parts, Emits W (emitExpr d x) (value x) :=
      fun x hx => ih x hx fun call hcall => hcalls call (Expr.mem_calls_of_part hx hcall)
    have hliteral : Emits W (constantOr d e (unsupported e)) (value e) := constantOr_emits V e fun _ => .throw
    intro F R
    cases e with
    | name name =>
      rw [emitExpr,V.name]
      exact port_emits fun s hs => hs.refOfName name
    | boolOp line op values =>
      rw [emitExpr,operands_eq]
      split_ifs
      · cases values with
        | nil => exact .throw
        | cons first rest =>
          rw [V.logic]
          refine .seq (hparts first mem_cons_self) fun left => joinLogic_works op ?_ left
          rw [forall₂_map_map]
          exact fun x hx => hparts x (mem_cons_of_mem _ hx)
      · exact .throw
    | compare line left rest =>
      rw [emitExpr,comparisons_eq]
      split_ifs
      · have hrest : Forall₂ (fun (c : CompareOp×Operand) (w : CompareOp×W.Val) => c.1=w.1 ∧ Emits W c.2.run w.2)
            (rest.map fun c => (c.op,⟨some c.right,emitExpr d c.right⟩)) (rest.map fun c => (c.op,value c.right)) := by
          rw [forall₂_map_map]
          exact fun c hc => ⟨rfl,hparts c.right (mem_cons_of_mem _ (mem_map_of_mem hc))⟩
        refine .bind (compareEach_works (hparts left mem_cons_self) hrest) ?_
        rintro _ _ ⟨pairs,rfl,hrow,rfl⟩
        cases pairs with
        | nil => exact .throw
        | cons p pairs =>
          rw [V.row hrow]
          exact joinComparisons_works pairs p.1
      · exact .throw
    | cond line test body orelse =>
      exact cond_emits V (hparts test (by simp [Expr.parts])) (hparts body (by simp [Expr.parts]))
        (hparts orelse (by simp [Expr.parts]))
    | unary line op operand =>
      have hoperand : Emits W (emitExpr d operand) (value operand) := hparts operand (mem_singleton.2 rfl)
      rw [emitExpr_unary]
      split_ifs with hnot
      · obtain rfl : op=.not := by simpa using (Bool.and_eq_true_iff.1 hnot).1
        rw [V.negation]
        exact .seq hoperand fun ref => emitWired_works [("A",ref,_)] .negation (by decide) ⟨by decide,by simp⟩
      · refine constantOr_emits V _ fun hnone {F R} => ?_
        cases op with
        | minus =>
          have hinput : ∀ p∈[("Input",operand)], Emits W (emitExpr d p.2) (value p.2) := forall_mem_singleton.2 hoperand
          rw [V.opposite hnone]
          exact emits_node (emitModule_works .opposite (by decide) ⟨by decide,by simp⟩ (carries_written hinput))
        | plus =>
          rw [V.plus hnone]
          exact hoperand
        | invert => exact .throw
        | not => exact .throw
    | binary left op right =>
      rw [emitExpr]
      refine constantOr_emits V _ fun _ => .lift ?_
      rintro ⟨module,first,second⟩ hform
      have hports := operatorForm_eq_ok hform
      have hne : module ≠ "Constant" := by cases op <;> cases hports <;> decide
      have hemits : ∀ p∈[(first,left),(second,right)], Emits W (emitExpr d p.2) (value p.2) :=
        forall_mem_cons.2 ⟨hparts left (by simp [Expr.parts]),forall_mem_singleton.2 (hparts right (by simp [Expr.parts]))⟩
      rw [V.operator hports]
      exact emits_node (emitModule_works (.operator hports) hne (plainPorts_of_operator hports _ _) (carries_written hemits))
    | call line fn args keywords =>
      rw [emitExpr]
      exact call_emits V hparts (hcalls _ (Expr.self_mem_calls line fn args keywords))
    | subscript e slice => exact subscript_emits V (hparts e (mem_singleton.2 rfl))
    | _ =>
      rw [emitExpr]
      · exact hliteral
      all_goals simp

/-- The acts of compiling an expression put its reference in hand. -/
theorem emitExpr_acts (e : Expr) (hcalls : ∀ call∈e.calls, W.Admits value call) {ref : Ref} {t : State}
    (hrun : outcome (emitExpr d e) b=(.ok ref,t)) : Acts W (⟨[],[]⟩,b) (⟨[],[(ref,value e)]⟩,t) := by
  obtain ⟨S,hacts,hout⟩ := emitExpr_emits V e hcalls (F := []) (R := []) b ⟨rfl,Nat.le_refl _⟩
  rw [hrun] at hacts hout
  exact hout ref rfl ▸ hacts

end Values

end ChipForge.Wiring
