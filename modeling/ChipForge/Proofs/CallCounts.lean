import ChipForge.Proofs.ExpressionTrees
import ChipForge.Proofs.Placement
import Mathlib.Algebra.BigOperators.Group.List.Basic
import Mathlib.Algebra.GroupWithZero.Nat
import Mathlib.Algebra.Order.BigOperators.Group.List
import Mathlib.Algebra.Order.Group.Nat

/-! The nodes of a module that an expression adds are the calls of that module, each counted as often as it is compiled.
An argument that two ports share and the inner operands of a row of comparisons are compiled twice. -/
namespace ChipForge.Wiring
open Script List Text

variable {ns : List Nat} {name : String} {line : Nat} {form : Form} {args : List Nat}
  {keywords : List (Option String×Nat)}

def Graph.countOf (g : Graph) (module : String) : Nat := (g.nodes.map (·.type)).count module

theorem Graph.countOf_addNode (g : Graph) (node : Node) (module : String) :
    (g.addNode node).countOf module=g.countOf module+if node.type=module then 1 else 0 := by
  simp [countOf,addNode,count_append,count_singleton]

theorem Graph.countOf_congr {g g' : Graph} (h : g.nodes.map (·.type)=g'.nodes.map (·.type)) (module : String) :
    g.countOf module=g'.countOf module := by
  rw [countOf,h,countOf]

/-- A module whose nodes come from written calls only: no operator, no choice, no literal and no function makes one. -/
structure OnlyWritten (module : String) : Prop where
  operator : ∀ op a b, operatorPorts? op≠some (module,a,b)
  comparison : ∀ op, comparisonModule op≠.ok module
  logic : ∀ op, logicModule op≠module
  negation : "NOT" ≠ module ∧ "Negate" ≠ module
  choice : "Branch" ≠ module
  constant : "Constant" ≠ module
  function : ∀ name form, Form.find? name=some form → form.module≠module

def portSum (ports : List (String×Nat)) : Nat := (ports.map (·.2)).sum

@[simp] theorem portSum_nil : portSum []=0 := rfl

@[simp] theorem portSum_cons (p : String×Nat) (rest : List (String×Nat)) : portSum (p::rest)=p.2+portSum rest := by
  rw [portSum,map_cons,sum_cons,portSum]

def neighbourSum : Nat→List Nat→Nat
  | _, [] => 0
  | left, right::rest => left+right+neighbourSum right rest

/-- How often calls of a module are compiled with a call, from how often they are with each of its arguments. -/
def callCount (module name : String) (args : List Nat) (keywords : List (Option String×Nat)) : Nat :=
  match Form.find? name with
  | some form => ((form.ports? args keywords).map portSum).getD 0
  | none => (if name=module then 1 else 0)+portSum (callPorts (lower name) args keywords)

mutual

/-- How often calls of a module are compiled with an expression. -/
def compiledCalls (module : String) : Expr→Nat
  | .boolOp _ _ values => (compiledEach module values).sum
  | .compare _ left rest => neighbourSum (compiledCalls module left) (compiledCompared module rest)
  | .cond _ test body orelse => compiledCalls module test+(compiledCalls module body+compiledCalls module orelse)
  | .unary _ _ operand => compiledCalls module operand
  | .binary left _ right => compiledCalls module left+compiledCalls module right
  | .call _ fn args keywords =>
    callCount module (canonicalModule (calledName fn)) (compiledEach module args) (compiledNamed module keywords)
  | .subscript value _ => compiledCalls module value
  | _ => 0

def compiledEach (module : String) : List Expr→List Nat
  | [] => []
  | e::rest => compiledCalls module e::compiledEach module rest

def compiledNamed (module : String) : List Keyword→List (Option String×Nat)
  | [] => []
  | .mk name value::rest => (name,compiledCalls module value)::compiledNamed module rest

def compiledCompared (module : String) : List Comparison→List Nat
  | [] => []
  | .mk _ right::rest => compiledCalls module right::compiledCompared module rest

end

theorem compiledEach_eq (module : String) (es : List Expr) : compiledEach module es=es.map (compiledCalls module) := by
  induction es with
  | nil => simp [compiledEach]
  | cons e rest ih => simp [compiledEach,ih]

theorem compiledNamed_eq (module : String) (ks : List Keyword) :
    compiledNamed module ks=(ks.map Keyword.pair).map (Prod.map id (compiledCalls module)) := by
  induction ks with
  | nil => simp [compiledNamed]
  | cons k rest ih => cases k with | mk name value => simp [compiledNamed,ih,Keyword.pair,Keyword.name,Keyword.value]

theorem compiledCompared_eq (module : String) (cs : List Comparison) :
    compiledCompared module cs=(cs.map Comparison.right).map (compiledCalls module) := by
  induction cs with
  | nil => simp [compiledCompared]
  | cons c rest ih => cases c with | mk op right => simp [compiledCompared,ih,Comparison.right]

section Counts
variable {d : Dialect} {b s t : State} {module : String} {e : Expr}

/-- References are worth the nodes of a module that were made for them. -/
abbrev countWorth (d : Dialect) (b : State) (module : String) : Worth d b where
  Val := Nat
  leaf _ := 0
  constant _ := 0
  made name _ fed := (if name=module then 1 else 0)+portSum fed
  output _ n := n
  Makes _ _ _ := True
  makes _ _ := trivial

def Bench.count (module : String) (S : Bench Nat) : Nat :=
  (S.begun.map fun f => (if f.module=module then 1 else 0)+portSum f.fed).sum+(S.held.map (·.2)).sum

theorem emitConstant_countOf (hmodule : "Constant" ≠ module) {v : Literal} {id : String}
    (h : outcome (emitConstant d v none) s=(.ok id,t)) : t.graph.countOf module=s.graph.countOf module := by
  have hdrawn : (s.draw "Constant" (autoLabel "Constant" (State.constantAttrs v none)) (State.constantAttrs v none)).graph.countOf
      module=s.graph.countOf module := by
    refine (Graph.countOf_addNode _ _ module).trans ?_
    rw [if_neg hmodule]
    rfl
  rcases outcome_emitConstant d v none s with ⟨-,id,-,-,hrun⟩ | ⟨-,-,hrun⟩ | ⟨-,hrun⟩ <;> rw [hrun] at h <;> cases h
  · rfl
  · rw [State.hold_graph,hdrawn]
  · rw [State.drawConstant_graph,hdrawn]

theorem countOf_place (s : State) (name : String) (plan : CallPlan) (attrs : Attrs) :
    (s.place name plan attrs).2.graph.countOf module=s.graph.countOf module+if name=module then 1 else 0 := by
  refine (Graph.countOf_addNode _ _ module).trans ?_
  rw [Graph.countOf_congr (congrArg _ (chooseId_nodes s.graph name plan.id)) module]

/-- Every node of the module is one on the bench, under construction or below what is in hand. -/
theorem countOf_act (hmodule : "Constant" ≠ module) {p q : Bench (countWorth d b module).Val×State}
    (h : Act (countWorth d b module) p q) :
    q.2.graph.countOf module+p.1.count module=p.2.graph.countOf module+q.1.count module := by
  cases h with
  | order hperm => simp only [Bench.count,(hperm.map _).sum_eq]
  | port => simp [Bench.count]
  | output | written | nodeType => rfl
  | constant v hrun => simp [Bench.count,emitConstant_countOf hmodule hrun]
  | place attrs =>
    simp only [Bench.count,countOf_place,map_cons,sum_cons,portSum,map_nil,sum_nil]
    omega
  | wire line =>
    rw [Graph.countOf_congr (congrArg _ (State.connect_nodes _ _ _ _ _)) module]
    simp only [Bench.count,map_cons,sum_cons,portSum,map_append,sum_append,map_nil,sum_nil]
    omega
  | inputs => exact congrArg (·+_) (Graph.countOf_congr (Graph.map_updateAt (by intro node; rfl) _ _) module)
  | attrs => exact congrArg (·+_) (Graph.countOf_congr (Graph.map_updateLast (by intro node; rfl) _ _) module)
  | close =>
    simp only [Bench.count,map_cons,sum_cons]
    omega

theorem countOf_acts (hmodule : "Constant" ≠ module) {p q : Bench (countWorth d b module).Val×State}
    (h : Acts (countWorth d b module) p q) :
    q.2.graph.countOf module+p.1.count module=p.2.graph.countOf module+q.1.count module := by
  induction h with
  | refl => rfl
  | tail _ hact ih =>
    have hstep := countOf_act hmodule hact
    omega

theorem sum_pairs (hname : name≠module) (ns : List Nat) (n : Nat) :
    ns.foldl ((countWorth d b module).pair name) n=n+ns.sum := by
  induction ns generalizing n with
  | nil => rfl
  | cons k rest ih =>
    rw [foldl_cons,ih,sum_cons,Worth.pair]
    simp only [if_neg hname,portSum,map_cons,map_nil,sum_cons,sum_nil]
    omega

theorem neighbourSum_row {n : (countWorth d b module).Val} {vs : List (CompareOp×(countWorth d b module).Val)}
    {ns : List (countWorth d b module).Val} (hmodule : OnlyWritten module) (h : (countWorth d b module).Row n vs ns) :
    ns.sum=neighbourSum n (vs.map (·.2)) := by
  have hne : ∀ {op name}, comparisonModule op=.ok name → name≠module := fun hop heq => hmodule.comparison _ (heq ▸ hop)
  induction h with
  | nil => rfl
  | cons hop _ ih =>
    rw [map_cons,neighbourSum,sum_cons,ih,Worth.pair]
    simp only [if_neg (hne hop),portSum,map_cons,map_nil,sum_cons,sum_nil]
    omega

theorem portSum_fed (ports : List (String×Expr)) :
    portSum ((countWorth d b module).fed (compiledCalls module) ports)=portSum (ports.map (Prod.map id (compiledCalls module))) := by
  induction ports with
  | nil => rfl
  | cons p rest ih =>
    unfold Worth.fed portSum at ih ⊢
    cases hopen : leavesOpen p.2 with
    | true =>
      have hzero : compiledCalls module p.2=0 := by
        unfold leavesOpen at hopen
        split at hopen
        · rename_i he
          rw [he]
          simp [compiledCalls]
        · cases hopen
      rw [filter_cons_of_neg (by simp [hopen]),ih,map_cons,map_cons,sum_cons]
      exact (Nat.zero_add _).symm.trans (congrArg (·+_) hzero.symm)
    | false =>
      rw [filter_cons_of_pos (by simp [hopen]),map_cons,map_cons,sum_cons,ih]
      rfl

theorem compiled_of_literal {v : Literal} (h : (Literal.ofExpr? e).filter isConstant=some v) : compiledCalls module e=0 := by
  cases e with
  | boolOp | compare | cond | subscript => cases h
  | call line fn args keywords => exact nomatch (literal_call line fn args keywords).symm.trans h
  | binary left op right => exact nomatch (literal_binary left right op).symm.trans h
  | unary line op operand =>
    obtain ⟨c,rfl⟩ := literal_unary (Option.filter_eq_some_iff.1 h).1
    simp [compiledCalls]
  | _ => simp [compiledCalls]

theorem ofForm_count (hmodule : OnlyWritten module) (hform : Form.find? name=some form) (ports : List (String×Expr)) :
    (countWorth d b module).ofForm (compiledCalls module) form ports=portSum (ports.map (Prod.map id (compiledCalls module))) := by
  have hname := hmodule.function name form hform
  unfold Worth.ofForm
  cases form.shape with
  | negatedMax =>
    simp only [if_neg hname,if_neg hmodule.negation.2,portSum_fed,portSum_cons,portSum_nil,Nat.zero_add,Nat.add_zero,map_cons,map_nil]
    rw [portSum,portSum,map_map,map_map]
    rfl
  | node | twice => simp [if_neg hname,portSum_fed]

/-- The counts of compiled calls come about as the nodes do. -/
theorem compiledCalls_values (hmodule : OnlyWritten module) : (countWorth d b module).Values (compiledCalls module) where
  name name := by simp [compiledCalls]
  port _ := by simp [compiledCalls]
  output _ := by simp only [compiledCalls]
  logic {line op first rest} := by rw [compiledCalls,compiledEach_eq,map_cons,sum_cons,sum_pairs (hmodule.logic op)]
  row h := by
    have hand : "AND" ≠ module := hmodule.logic .and
    rw [compiledCalls,compiledCompared_eq,sum_pairs hand,← sum_cons,neighbourSum_row hmodule h,map_map,map_map]
    rfl
  choice _ := by simp [compiledCalls,if_neg hmodule.choice]
  negation {line e} := by simp [compiledCalls,if_neg hmodule.negation.1]
  literal h := compiled_of_literal h
  opposite {line e} _ := by simp [compiledCalls,if_neg hmodule.negation.2,portSum_fed]
  plus _ := by rw [compiledCalls]
  operator {left op right name a b} h := by
    have hname : name≠module := fun heq => hmodule.operator op a b (heq ▸ h)
    simp [compiledCalls,if_neg hname,portSum_fed]
  function hform hports := by
    rw [compiledCalls,callCount,compiledEach_eq,compiledNamed_eq,ofForm_count hmodule hform]
    simp only [hform,Form.ports?_map,hports]
    rfl
  call hform := by
    rw [compiledCalls,callCount,compiledEach_eq,compiledNamed_eq,callPorts_map]
    simp only [hform,portSum_fed]

/-- An expression without writes adds as many nodes of a module as calls of it are compiled. -/
theorem emitExpr_draws (hmodule : OnlyWritten module) (d : Dialect) (e : Expr) (hwrites : ∀ c∈e.calls, isWrite c=false)
    {ref : Ref} (hrun : outcome (emitExpr d e) s=(.ok ref,t)) :
    t.graph.countOf module=s.graph.countOf module+compiledCalls module e := by
  have hacts := emitExpr_acts (compiledCalls_values hmodule) e
    (fun call hcall => ⟨fun _ _ _ _ _ _ _ _ => trivial,fun h => nomatch (hwrites call hcall).symm.trans h⟩) hrun
  simpa [Bench.count] using countOf_acts hmodule.constant hacts

end Counts

def writtenCalls (module : String) (e : Expr) : Nat := e.calls.countP fun call => calledModule? call == some module

/-- Parts of an expression that are compiled twice with it: the inner operands of a row of comparisons, and the
arguments of a function that puts one of them on two ports. -/
def doubledParts : Expr→List Expr
  | .compare _ _ rest => (rest.map Comparison.right).dropLast
  | .call _ fn args keywords =>
    if (Form.find? (canonicalModule (calledName fn))).any (·.shape == .twice) then args++keywords.map Keyword.value
    else []
  | _ => []

theorem writtenCalls_eq (module : String) (e : Expr) : writtenCalls module e =
    (if calledModule? e=some module then 1 else 0)+(e.parts.map (writtenCalls module)).sum := by
  rw [writtenCalls,Expr.calls_eq,countP_append,countP_flatMap]
  refine congrArg₂ (·+·) ?_ rfl
  cases e with
  | call line fn args keywords => by_cases h : canonicalModule (calledName fn)=module <;> simp [calledModule?,h]
  | _ => simp [calledModule?]

theorem neighbourSum_le {n : Nat} (h : ∀ k∈ns.dropLast, k=0) : neighbourSum n ns ≤ n+ns.sum := by
  induction ns generalizing n with
  | nil => exact Nat.zero_le _
  | cons k rest ih =>
    rw [neighbourSum,sum_cons]
    cases rest with
    | nil => simp [neighbourSum]
    | cons next rest =>
      have hk : k=0 := h k (by simp)
      have hrest := ih (n := k) fun m hm => h m (by simp [hm])
      omega

theorem portSum_callPorts_le (word : String) (args : List Nat) (keywords : List (Option String×Nat)) :
    portSum (callPorts word args keywords) ≤ args.sum+(keywords.map (·.2)).sum := by
  have hgiven : portSum (givenPorts word args) ≤ args.sum := by
    unfold givenPorts portSum
    split_ifs
    · simp
    · cases args <;> simp
    · rw [map_map]
      exact (congrArg List.sum (zipIdx_map_fst 0 args)).le
  have hkeywords : portSum (keywords.filterMap (keywordPort? word))≤(keywords.map (·.2)).sum := by
    induction keywords with
    | nil => simp [portSum]
    | cons k rest ih =>
      rw [filterMap_cons,map_cons,sum_cons]
      cases hk : keywordPort? word k with
      | none => exact ih.trans (Nat.le_add_left _ _)
      | some p =>
        have hp : p.2=k.2 := by
          obtain ⟨_ | key,a⟩ := k
          · cases hk
          · simp only [keywordPort?,Option.bind_some] at hk
            split_ifs at hk
            cases hk
            rfl
        rw [portSum,map_cons,sum_cons,hp]
        exact Nat.add_le_add_left ih _
  rw [callPorts,portSum,map_append,sum_append]
  exact Nat.add_le_add hgiven hkeywords

theorem sum_labelled_le {β : Type} [DecidableEq β] {labels : List β} (hlabels : labels.Nodup) (entries : List (β×Nat)) :
    (labels.map fun l => ((entries.filter fun e => e.1=l).map (·.2)).sum).sum≤(entries.map (·.2)).sum := by
  induction entries with
  | nil => simp
  | cons e rest ih =>
    have hcons : ∀ l, (((e::rest).filter fun e => e.1=l).map (·.2)).sum =
        (if e.1=l then e.2 else 0)+((rest.filter fun e => e.1=l).map (·.2)).sum := by
      intro l
      by_cases h : e.1=l <;> simp [h]
    have hone : (labels.map fun l => if e.1=l then e.2 else 0).sum ≤ e.2 := by
      clear ih
      induction hlabels with
      | nil => simp
      | @cons l labels hl _ ih =>
        by_cases h : e.1=l
        · have hothers : labels.map (fun l => if e.1=l then e.2 else 0)=labels.map fun _ => 0 :=
            map_congr_left fun l' hl' => if_neg fun h' => hl l' hl' (h.symm.trans h')
          rw [map_cons,sum_cons,hothers,if_pos h]
          simp
        · simpa [h] using ih
    simp only [hcons,sum_map_add,map_cons,sum_cons]
    exact Nat.add_le_add hone ih

namespace Form

def labelled (form : Form) (args : List Nat) (keywords : List (Option String×Nat)) : List (Option String×Nat) :=
  keywords.map (fun k => (k.1.map lower,k.2))++(form.heads.zip args).map fun p => (some p.1,p.2)

theorem mem_labelled {key : String} {n : Nat}
    (h : argument? form.heads args keywords key=some n) : (some key,n)∈form.labelled args keywords := by
  rcases Option.or_eq_some_iff.1 h with h | ⟨-,h⟩
  · obtain ⟨k,hk,rfl⟩ := Option.map_eq_some_iff.1 h
    have hlabel : k.1.map lower=some key := by simpa using find?_some hk
    refine mem_append_left _ (mem_map.2 ⟨k,mem_reverse.1 (mem_of_find?_eq_some hk),?_⟩)
    rw [hlabel]
  · obtain ⟨before,rest,hzip,-⟩ := lookup_eq_some_iff.1 h
    refine mem_append_right _ (mem_map.2 ⟨(key,n),?_,rfl⟩)
    exact hzip ▸ mem_append_right before mem_cons_self

theorem sum_labelled_eq_le (form : Form) (args : List Nat) (keywords : List (Option String×Nat)) :
    ((form.labelled args keywords).map (·.2)).sum ≤ args.sum+(keywords.map (·.2)).sum := by
  have hzip : ∀ (heads : List String) (args : List Nat), ((heads.zip args).map (·.2)).sum ≤ args.sum := by
    intro heads
    induction heads with
    | nil => simp
    | cons head heads ih =>
      intro args
      cases args with
      | nil => simp
      | cons n rest => simpa using ih rest
  rw [labelled,map_append,sum_append,map_map,map_map,Nat.add_comm]
  exact Nat.add_le_add_right (hzip form.heads args) _

theorem ports?_labels (slots : List Slot) :
    ∀ {ports : List (String×Nat)},
      (slots.mapM fun slot => (form.slotArgument? args keywords slot).map fun a => (slot.port,a))=some ports →
      ∃ labels : List String, labels.Sublist (slots.flatMap (·.keys)) ∧
        Forall₂ (fun key p => argument? form.heads args keywords key=some p.2) labels ports := by
  induction slots with
  | nil =>
    intro ports h
    cases h
    exact ⟨[],Sublist.refl _,.nil⟩
  | cons slot rest ih =>
    intro ports h
    rw [mapM_cons] at h
    obtain ⟨first,hfirst,h⟩ := Option.bind_eq_some_iff.1 h
    obtain ⟨others,hothers,h⟩ := Option.bind_eq_some_iff.1 h
    cases h
    obtain ⟨a,ha,rfl⟩ := Option.map_eq_some_iff.1 hfirst
    obtain ⟨key,hkey,harg⟩ := exists_of_findSome?_eq_some ha
    obtain ⟨labels,hlabels,hall⟩ := ih hothers
    exact ⟨key::labels,(singleton_sublist.2 hkey).append hlabels,.cons harg hall⟩

/-- The arguments of a function that puts none on two ports sum up to no more than all that were written. -/
theorem portSum_ports?_le (hkeys : (form.slots.flatMap (·.keys)).Nodup) (hshape : form.shape≠.twice)
    {ports : List (String×Nat)}
    (h : form.ports? args keywords=some ports) : portSum ports ≤ args.sum+(keywords.map (·.2)).sum := by
  rw [ports?,if_neg (by simpa using hshape)] at h
  obtain ⟨labels,hsub,hall⟩ := ports?_labels form.slots h
  have hlabels : (labels.map some).Nodup := (hsub.nodup hkeys).map fun _ _ => Option.some.inj
  have hterms : portSum ports≤((labels.map some).map fun l =>
      (((form.labelled args keywords).filter fun e => e.1=l).map (·.2)).sum).sum := by
    clear hlabels hsub h
    induction hall with
    | nil => simp [portSum]
    | @cons key p labels ports harg _ ih =>
      have hmem : p.2∈((form.labelled args keywords).filter fun e => e.1=some key).map (·.2) :=
        mem_map.2 ⟨(some key,p.2),mem_filter.2 ⟨mem_labelled harg,by simp⟩,rfl⟩
      rw [portSum,map_cons,sum_cons,map_cons,map_cons,sum_cons]
      exact Nat.add_le_add (le_sum_of_mem hmem) ih
  exact hterms.trans ((sum_labelled_le hlabels _).trans (form.sum_labelled_eq_le args keywords))

end Form

/-- The calls compiled with a call are itself and at most those of its arguments, unless an argument stands on two ports. -/
theorem callCount_le (module : String) (fn : Expr) {args : List Expr} {keywords : List Keyword}
    (hdoubled : (Form.find? (canonicalModule (calledName fn))).any (·.shape == .twice)=true→∀ x∈args++keywords.map Keyword.value, compiledCalls module x=0) :
    compiledCalls module (.call line fn args keywords) ≤
      (if calledModule? (.call line fn args keywords)=some module then 1 else 0) +
        ((args.map (compiledCalls module)).sum+((keywords.map Keyword.value).map (compiledCalls module)).sum) := by
  rw [compiledCalls,callCount,compiledEach_eq,compiledNamed_eq]
  simp only [calledModule?,Option.some.injEq]
  generalize canonicalModule (calledName fn)=name at hdoubled ⊢
  have hvalues : (((keywords.map Keyword.pair).map (Prod.map id (compiledCalls module))).map (·.2)) =
      (keywords.map Keyword.value).map (compiledCalls module) := by
    simp only [map_map]
    rfl
  cases hform : Form.find? name with
  | none =>
    refine Nat.add_le_add_left ?_ _
    rw [← hvalues]
    exact portSum_callPorts_le (lower name) _ _
  | some form =>
    dsimp only
    cases hports : form.ports? (args.map (compiledCalls module))
        ((keywords.map Keyword.pair).map (Prod.map id (compiledCalls module))) with
    | none => exact Nat.zero_le _
    | some ports =>
      refine Nat.le_trans (m := portSum ports) (Nat.le_refl _) (Nat.le_trans ?_ (Nat.le_add_left _ _))
      by_cases hshape : form.shape=.twice
      · have hzero := hdoubled (by simp [hform,hshape])
        have hsum : portSum ports=0 := by
          refine sum_eq_zero fun n hn => ?_
          obtain ⟨p,hp,rfl⟩ := mem_map.1 hn
          rcases (Form.mem_of_ports? hports hp).2 with hmem | ⟨k,hk,hvalue⟩
          · obtain ⟨x,hx,hxp⟩ := mem_map.1 hmem
            exact hxp ▸ hzero x (mem_append_left _ hx)
          · have hmem := hvalues ▸ mem_map_of_mem (f := fun k : Option String×Nat => k.2) hk
            obtain ⟨x,hx,hxk⟩ := mem_map.1 hmem
            exact hvalue ▸ hxk ▸ hzero x (mem_append_right _ hx)
        rw [hsum]
        exact Nat.zero_le _
      · rw [← hvalues]
        exact Form.portSum_ports?_le (Form.find?_keys_nodup form hform) hshape hports

/-- Where no call of the module stands in a part that is compiled twice, no call is compiled twice. -/
theorem compiledCalls_le (module : String) (e : Expr)
    (hsingle : ∀ x∈e.within, ∀ y∈doubledParts x, writtenCalls module y=0) :
    compiledCalls module e ≤ writtenCalls module e := by
  induction e using Expr.induction_parts with
  | step e ih =>
    have hparts : ∀ x∈e.parts, compiledCalls module x ≤ writtenCalls module x := by
      refine fun x hx => ih x hx fun y hy => hsingle y ?_
      rw [e.within_eq]
      exact mem_cons_of_mem _ (mem_flatMap.2 ⟨x,hx,hy⟩)
    have hself : ∀ y∈doubledParts e, writtenCalls module y=0 := hsingle e (e.within_eq ▸ mem_cons_self)
    have hsum : (e.parts.map (compiledCalls module)).sum≤(e.parts.map (writtenCalls module)).sum :=
      sum_le_sum hparts
    rw [writtenCalls_eq]
    refine Nat.le_trans ?_ (Nat.add_le_add_left hsum _)
    cases e with
    | boolOp line op values => simp [compiledCalls,compiledEach_eq,Expr.parts,calledModule?]
    | compare line left rest =>
      rw [compiledCalls,compiledCompared_eq]
      have hzero : ∀ k∈((rest.map Comparison.right).map (compiledCalls module)).dropLast, k=0 := by
        rw [← map_dropLast]
        intro k hk
        obtain ⟨x,hx,rfl⟩ := mem_map.1 hk
        have hle := hparts x (mem_cons_of_mem _ ((dropLast_sublist _).subset hx))
        rw [hself x hx] at hle
        exact Nat.le_zero.1 hle
      refine (neighbourSum_le hzero).trans ?_
      simp [Expr.parts,calledModule?]
    | call line fn args keywords =>
      refine (callCount_le module fn ?_).trans (Nat.add_le_add_left (by simp [Expr.parts]) _)
      intro hdoubled x hx
      have hle := hparts x hx
      rw [hself x (by rw [doubledParts,if_pos hdoubled]; exact hx)] at hle
      exact Nat.le_zero.1 hle
    | _ => simp [compiledCalls,Expr.parts,calledModule?]

/-- An expression without writes adds, of a module that only written calls reach, one node for every time that a call of
it is compiled. These are at most the written calls, unless one of them stands in a part that is compiled twice. -/
theorem emitExpr_countOf {d : Dialect} {s t : State} {e : Expr} {ref : Ref} {module : String} (hmodule : OnlyWritten module)
    (hwrites : ∀ c ∈ e.calls, isWrite c = false) (hrun : outcome (emitExpr d e) s = (.ok ref, t)) :
    t.graph.countOf module = s.graph.countOf module + compiledCalls module e ∧
      ((∀ x ∈ e.within, ∀ y ∈ doubledParts x, writtenCalls module y = 0) →
        t.graph.countOf module ≤ s.graph.countOf module + writtenCalls module e) := by
  have hcount := emitExpr_draws hmodule d e hwrites hrun
  refine ⟨hcount,fun hsingle => ?_⟩
  rw [hcount]
  exact Nat.add_le_add_left (compiledCalls_le module e hsingle) _

theorem onlyWritten_counter : OnlyWritten "Counter" := by
  refine ⟨?_,?_,?_,by decide,by decide,by decide,?_⟩
  · intro op a b
    cases op <;> simp [operatorPorts?]
  · intro op
    cases op <;> simp [comparisonModule]
  · intro op
    cases op <;> simp [logicModule]
  · intro name form hform heq
    have hmodule := Form.find?_module form hform
    rw [heq] at hmodule
    revert hmodule
    decide +kernel

def counterOf (e : Expr) : Expr := .call 1 (.name "Counter") [e] []

def outerCounters : Expr :=
  .compare 1 (counterOf (.const (.int 1))) [.mk .lt (.const (.int 5)),.mk .lt (counterOf (counterOf (.name "late")))]

theorem emitExpr_countOf_outerCounters : ∃ ref t, outcome (emitExpr (.full []) outerCounters) State.initial = (.ok ref, t) ∧
    t.graph.countOf "Counter" = 3 ∧ t.graph.countOf "Counter" ≤ writtenCalls "Counter" outerCounters := by
  have hrun := outcome_eq_ok (m := emitExpr (.full []) outerCounters) (a := .node "and_0" autoPort) (s := State.initial)
    (by decide +kernel)
  obtain ⟨hcount,hle⟩ := emitExpr_countOf onlyWritten_counter (by decide +kernel) hrun
  refine ⟨_,_,hrun,hcount.trans (by decide +kernel),(hle (by decide +kernel)).trans_eq (Nat.zero_add _)⟩

def innerCounter : Expr :=
  .compare 1 (.const (.int 0)) [.mk .lt (counterOf (.name "a")),.mk .lt (.const (.int 10))]

theorem innerCounter_countOf : ∃ ref t, outcome (emitExpr (.full []) innerCounter) State.initial = (.ok ref, t) ∧
    OnlyWritten "Counter" ∧ (∀ c ∈ innerCounter.calls, isWrite c = false) ∧
    State.initial.graph.countOf "Counter" + writtenCalls "Counter" innerCounter < t.graph.countOf "Counter" := by
  have hrun := outcome_eq_ok (m := emitExpr (.full []) innerCounter) (a := .node "and_0" autoPort) (s := State.initial)
    (by decide +kernel)
  exact ⟨_,_,hrun,onlyWritten_counter,by decide +kernel,by decide +kernel⟩

end ChipForge.Wiring
