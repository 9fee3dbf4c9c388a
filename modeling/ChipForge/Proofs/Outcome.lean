import ChipForge.Wiring.Compiler.Program

/-! The outcome of a step is what it yields, or why it is refused, together with the state it leaves behind. Later
proofs take steps apart with the equations below and never open the monad again. -/
namespace ChipForge.Wiring

variable {α β : Type} {m : Compile α} {s : State} {f : α → Compile β} {t : State} {a : α}

/-- What a step ends with and the state it leaves behind. -/
def outcome (m : Compile α) (s : State) : Except Issue α×State := m.run s

@[simp] theorem outcome_pure (a : α) (s : State) : outcome (pure a) s=(.ok a,s) := rfl

@[simp] theorem outcome_modify (f : State→State) (s : State) : outcome (modify f) s=(.ok (),f s) := rfl

@[simp] theorem outcome_lift (x : Except Issue α) (s : State) : outcome (liftM x) s=(x,s) := by
  cases x <;> rfl

theorem outcome_bind (m : Compile α) (f : α → Compile β) (s : State) :
    outcome (m >>= f) s =
      match outcome m s with
      | (.ok a,t) => outcome (f a) t
      | (.error issue,t) => (.error issue,t) := by
  simp only [outcome,bind,ExceptT.bind,ExceptT.mk,ExceptT.run,StateT.bind]
  cases m s with
  | mk r t => cases r <;> rfl

theorem outcome_bind_ok (h : outcome m s=(.ok a,t)) : outcome (m >>= f) s=outcome (f a) t := by
  rw [outcome_bind,h]

/-- Both parts of a composed step that ends well end well. -/
theorem outcome_bind_eq_ok {u : State} {b : β} :
    outcome (m >>= f) s=(.ok b,u) ↔ ∃ a t, outcome m s=(.ok a,t) ∧ outcome (f a) t=(.ok b,u) := by
  rw [outcome_bind]
  constructor
  · intro h
    rcases hm : outcome m s with ⟨issue | a,t⟩ <;> rw [hm] at h
    · cases h
    · exact ⟨a,t,rfl,h⟩
  · rintro ⟨a,t,hm,hf⟩
    rw [hm]
    exact hf

@[simp] theorem outcome_get_bind (f : State → Compile α) (s : State) : outcome (get >>= f) s=outcome (f s) s := rfl

@[simp] theorem outcome_modify_bind (g : State→State) (f : PUnit → Compile α) (s : State) :
    outcome (modify g >>= f) s=outcome (f ⟨⟩) (g s) := rfl

theorem outcome_eq_ok (h : (outcome m s).1.toOption=some a) : outcome m s=(.ok a,(outcome m s).2) := by
  rcases hout : outcome m s with ⟨issue | b,t⟩ <;> rw [hout] at h
  · cases h
  · cases h
    rfl

/-- A step that only reads the state. -/
def Reads (m : Compile α) : Prop := ∀ s, (outcome m s).2=s

theorem Reads.eq (hm : Reads m) {result : Except Issue α} (h : outcome m s=(result,t)) : t=s := by
  rw [← hm s,h]

theorem outcome_map (f : α→β) (m : Compile α) (s : State) :
    outcome (f <$> m) s=((outcome m s).1.map f,(outcome m s).2) := by
  have h : f <$> m=m >>= fun a => pure (f a) := (bind_pure_comp f m).symm
  rw [h,outcome_bind]
  rcases outcome m s with ⟨_ | _,t⟩ <;> rfl

theorem outcome_discard (m : Compile α) (s : State) :
    outcome (discard m) s=((outcome m s).1.map fun _ => (),(outcome m s).2) :=
  outcome_map (fun _ => ()) m s

theorem outcome_tryCatch (m : Compile α) (f : Issue → Compile α) (s : State) :
    outcome (tryCatch m f) s =
      match outcome m s with
      | (.ok a,t) => (.ok a,t)
      | (.error issue,t) => outcome (f issue) t := by
  simp only [outcome,tryCatch,tryCatchThe,MonadExceptOf.tryCatch,ExceptT.tryCatch,ExceptT.mk,ExceptT.run,bind,
    StateT.bind]
  cases m s with
  | mk r t => cases r <;> rfl

end ChipForge.Wiring
