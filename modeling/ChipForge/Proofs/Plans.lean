import ChipForge.Proofs.Emission

/-! What a call makes of its arguments depends on what was written, not on the steps that compile them: with other steps
the same plan results, or the same refusal. -/
namespace ChipForge.Wiring
open Script List

variable {f : Option Expr → Compile Ref}

/-- The argument with the step that its text determines. -/
def Operand.rerun (f : Option Expr → Compile Ref) (o : Operand) : Operand := ⟨o.expr,f o.expr⟩

def NamedOperand.rerun (f : Option Expr → Compile Ref) (k : NamedOperand) : NamedOperand := ⟨k.name,k.operand.rerun f⟩

def rerunPorts (f : Option Expr → Compile Ref) (ports : List (String×Operand)) : List (String×Operand) :=
  ports.map (Prod.map id (Operand.rerun f))

def ModuleCall.rerun (f : Option Expr → Compile Ref) (call : ModuleCall) : ModuleCall :=
  ⟨call.line,call.module,call.args.map (Operand.rerun f),call.keywords.map (NamedOperand.rerun f)⟩

def CallPlan.rerun (f : Option Expr → Compile Ref) (plan : CallPlan) : CallPlan :=
  { plan with ports := rerunPorts f plan.ports }

theorem inputSettings_rerun (module : String) (args : List Operand) :
    inputSettings module (args.map (Operand.rerun f))=inputSettings module args := by
  match args with
  | [] => rfl
  | [_] => rfl
  | [_,_] => rfl
  | _ :: _ :: _ :: _ => rfl

theorem outputSettings_rerun (module : String) (args : List Operand) :
    outputSettings module (args.map (Operand.rerun f))=outputSettings module args := by
  match args with
  | [] => rfl
  | [_] => rfl
  | _ :: _ :: _ => rfl

theorem hasKeyword_rerun (word : String) (keywords : List NamedOperand) :
    hasKeyword word (keywords.map (NamedOperand.rerun f))=hasKeyword word keywords := by
  rw [hasKeyword,any_map]
  rfl

theorem planArgs_rerun (call : ModuleCall) (word : String) :
    planArgs (call.rerun f) word=(planArgs call word).map (CallPlan.rerun f) := by
  obtain ⟨line,module,args,keywords⟩ := call
  unfold planArgs ModuleCall.rerun
  dsimp only
  rw [inputSettings_rerun,length_map,hasKeyword_rerun]
  by_cases hin : (word == "input")=true
  · rw [if_pos hin,if_pos hin]
    cases inputSettings module args <;> rfl
  rw [if_neg hin,if_neg hin]
  by_cases hout : (word == "output")=true
  · rw [if_pos hout,if_pos hout]
    by_cases hlength : args.length > 3
    · rw [if_pos hlength,if_pos hlength]
      rfl
    rw [if_neg hlength,if_neg hlength]
    cases args with
    | nil => rfl
    | cons value rest =>
      simp only [map_cons,outputSettings_rerun]
      by_cases hkey : hasKeyword "input" keywords=true
      · rw [if_pos hkey,if_pos hkey]
        rfl
      · rw [if_neg hkey,if_neg hkey]
        cases outputSettings module rest <;> rfl
  · rw [if_neg hout,if_neg hout]
    simp [CallPlan.rerun,rerunPorts,zipIdx_map,Except.map,Function.comp_def]

theorem planKeyword_rerun (module word : String) (plan : CallPlan) (k : NamedOperand) :
    planKeyword module word (plan.rerun f) (k.rerun f)=(planKeyword module word plan k).map (CallPlan.rerun f) := by
  rcases k with ⟨_ | key,o⟩
  · rfl
  · unfold planKeyword NamedOperand.rerun
    dsimp only
    split_ifs
    · rfl
    · rfl
    · rfl
    · have hsetting : ∀ text, requireSetting module text (o.rerun f)=requireSetting module text o := fun _ => rfl
      rw [hsetting]
      cases requireSetting module _ o <;> rfl
    · simp [CallPlan.rerun,rerunPorts,Except.map,Operand.rerun]
    · simp [CallPlan.rerun,rerunPorts,Except.map,Operand.rerun]

theorem planKeywords_rerun (module word : String) (plan : CallPlan) (keywords : List NamedOperand) :
    planKeywords module word (plan.rerun f) (keywords.map (NamedOperand.rerun f)) =
      (planKeywords module word plan keywords).map (CallPlan.rerun f) := by
  induction keywords generalizing plan with
  | nil => rfl
  | cons k rest ih =>
    rw [map_cons,planKeywords,planKeywords,planKeyword_rerun]
    cases planKeyword module word plan k with
    | error issue => rfl
    | ok next => exact ih next

/-- The plan of a call with other steps for its arguments. -/
theorem planCall_rerun (call : ModuleCall) : planCall (call.rerun f)=(planCall call).map (CallPlan.rerun f) := by
  have hargs := planArgs_rerun (f := f) call (Text.lower call.module)
  unfold planCall
  dsimp only [ModuleCall.rerun] at hargs ⊢
  rw [hargs]
  cases planArgs call (Text.lower call.module) with
  | error issue => rfl
  | ok plan => exact planKeywords_rerun call.module (Text.lower call.module) plan call.keywords

theorem writeArgs_mem {args : List Operand} {keywords : List NamedOperand} {w : WriteArgs} (h : writeArgs args keywords=.ok w) :
    w.value∈args ∧ ∀ o, w.trigger=some o → o∈args ∨ ∃ k∈keywords, k.operand=o := by
  have hkeywords : ∀ (keywords : List NamedOperand) (start w : WriteArgs), writeKeywords start keywords=.ok w →
      w.value=start.value ∧ ∀ o, w.trigger=some o → start.trigger=some o ∨ ∃ k∈keywords, k.operand=o := by
    intro keywords
    induction keywords with
    | nil =>
      intro start w hw
      cases hw
      exact ⟨rfl,fun o ho => .inl ho⟩
    | cons k rest ih =>
      intro start w hw
      unfold writeKeywords at hw
      rcases k with ⟨_ | name,operand⟩
      · obtain ⟨hvalue,htrigger⟩ := ih _ _ hw
        refine ⟨hvalue,fun o ho => ?_⟩
        rcases htrigger o ho with ho | ⟨k,hk,ho⟩
        · exact .inl ho
        · exact .inr ⟨k,mem_cons_of_mem _ hk,ho⟩
      · dsimp only at hw
        split_ifs at hw
        obtain ⟨hvalue,htrigger⟩ := ih _ _ hw
        refine ⟨hvalue,fun o ho => ?_⟩
        rcases htrigger o ho with ho | ⟨k,hk,ho⟩
        · exact .inr ⟨_,mem_cons_self,Option.some.inj ho⟩
        · exact .inr ⟨k,mem_cons_of_mem _ hk,ho⟩
  match args, h with
  | [target,value], h =>
    obtain ⟨hvalue,htrigger⟩ := hkeywords _ _ _ h
    refine ⟨hvalue ▸ by simp,fun o ho => ?_⟩
    exact .inr ((htrigger o ho).resolve_left (by simp))
  | [target,value,trigger], h =>
    obtain ⟨hvalue,htrigger⟩ := hkeywords _ _ _ h
    refine ⟨hvalue ▸ by simp,fun o ho => ?_⟩
    rcases htrigger o ho with ho | ho
    · exact .inl (by simp [Option.some.inj ho])
    · exact .inr ho

end ChipForge.Wiring
