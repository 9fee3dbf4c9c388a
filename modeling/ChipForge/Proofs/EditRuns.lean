import ChipForge.Save.Edit

/-! The result of an edit is what it yields, or how it fails, together with the state it leaves behind. Later proofs
take edits apart with the equations below and never open the monad again. -/
namespace ChipForge.Save

variable {σ α β : Type} {m : ExceptT Failure (StateM σ) α} {f : α→ExceptT Failure (StateM σ) β} {s : σ} {t u : σ}
  {a : α} {b : β}

/-- What an edit ends with and the state it leaves behind. -/
def result (m : ExceptT Failure (StateM σ) α) (s : σ) : Except Failure α×σ := m.run s

@[simp] theorem result_pure (a : α) (s : σ) : result (pure a) s=(.ok a,s) := rfl

@[simp] theorem result_modify (f : σ→σ) (s : σ) :
    result (modify f : ExceptT Failure (StateM σ) PUnit) s=(.ok ⟨⟩,f s) := rfl

@[simp] theorem result_lift (x : Except Failure α) (s : σ) :
    result (liftM x : ExceptT Failure (StateM σ) α) s=(x,s) := by
  cases x <;> rfl

theorem result_bind (m : ExceptT Failure (StateM σ) α) (f : α→ExceptT Failure (StateM σ) β) (s : σ) :
    result (m >>= f) s=match result m s with | (.ok a,t) => result (f a) t | (.error e,t) => (.error e,t) := by
  simp only [result,bind,ExceptT.bind,ExceptT.mk,ExceptT.run,StateT.bind]
  cases m s with
  | mk r t => cases r <;> rfl

theorem result_bind_ok (h : result m s=(.ok a,t)) : result (m >>= f) s=result (f a) t := by
  rw [result_bind,h]

theorem result_bind_eq_ok : result (m >>= f) s=(.ok b,u) ↔ ∃ a t, result m s=(.ok a,t) ∧ result (f a) t=(.ok b,u) := by
  rw [result_bind]
  constructor
  · intro h
    rcases hm : result m s with ⟨e | a,t⟩ <;> rw [hm] at h
    · cases h
    · exact ⟨a,t,rfl,h⟩
  · rintro ⟨a,t,hm,hf⟩
    rw [hm]
    exact hf

theorem result_bind_eq_error {e : Failure} (h : result (m >>= f) s=(.error e,u)) :
    result m s=(.error e,u) ∨ ∃ a t, result m s=(.ok a,t) ∧ result (f a) t=(.error e,u) := by
  rw [result_bind] at h
  rcases hm : result m s with ⟨e | a,t⟩ <;> rw [hm] at h
  · cases h
    exact .inl rfl
  · exact .inr ⟨a,t,rfl,h⟩

/-- Looking something up goes well only if it is there, and changes nothing. -/
theorem result_lift_bind_eq_ok {x : Except Failure α} :
    result (liftM x >>= f) s=(.ok b,u) ↔ ∃ a, x=.ok a ∧ result (f a) s=(.ok b,u) := by
  rw [result_bind,result_lift]
  cases x with
  | error e => simp
  | ok a => simp

theorem result_lift_bind (x : Except Failure α) (f : α→ExceptT Failure (StateM σ) β) (s : σ) :
    result (liftM x >>= f) s=match x with | .ok a => result (f a) s | .error e => (.error e,s) := by
  rw [result_bind,result_lift]
  cases x <;> rfl

@[simp] theorem result_ok_bind (a : α) (f : α→ExceptT Failure (StateM σ) β) (s : σ) :
    result (liftM (.ok a : Except Failure α) >>= f) s=result (f a) s := rfl

theorem result_getSave (desk : Desk) : result getSave desk=(.ok desk.save,desk) := rfl

theorem result_eq_ok (h : (result m s).1.toOption=some a) : result m s=(.ok a,(result m s).2) := by
  rcases hm : result m s with ⟨e | b,t⟩ <;> rw [hm] at h <;> cases h
  rfl

theorem result_tryCatch (m : ExceptT Failure (StateM σ) α) (f : Failure→ExceptT Failure (StateM σ) α) (s : σ) :
    result (tryCatch m f) s=match result m s with | (.ok a,t) => (.ok a,t) | (.error e,t) => result (f e) t := by
  simp only [result,tryCatch,tryCatchThe,MonadExceptOf.tryCatch,ExceptT.tryCatch,ExceptT.mk,ExceptT.run,bind,StateT.bind]
  cases m s with
  | mk r t => cases r <;> rfl

/-- An edit whose failures are passed on in other words ends well only if it does so itself. -/
theorem result_tryCatch_throw_eq_ok {f : Failure→Failure} :
    result (tryCatch m fun e => throw (f e)) s=(.ok a,t) ↔ result m s=(.ok a,t) := by
  rw [result_tryCatch]
  rcases result m s with ⟨e | b,u⟩
  · exact ⟨nofun,nofun⟩
  · exact Iff.rfl

end ChipForge.Save
