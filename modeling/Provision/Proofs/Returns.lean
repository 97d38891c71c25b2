/-!
# What a computation can return

`MonadAttach.CanReturn x a` says that `x` may come to `a`, whatever it does besides in the monad it
runs in. A computation that can fail is taken apart by its steps: what a sequence returns is what
its last step returns, and what it throws is what one of its steps throws.
-/

namespace Provision

open MonadAttach LawfulMonadAttach

variable {ε ε' α β : Type}

theorem exists_ok_of_toBool {x : Except ε α} (h : x.toBool = true) : ∃ a, x = .ok a := by
  rcases x with e | a
  · cases h
  · exact ⟨a, rfl⟩

theorem bind_eq_ok_iff {x : Except ε α} {f : α → Except ε β} {b : β} :
    x >>= f = .ok b ↔ ∃ a, x = .ok a ∧ f a = .ok b := by
  rcases x with e | a
  · exact ⟨fun h => (nomatch h), fun ⟨_, h, _⟩ => (nomatch h)⟩
  · exact ⟨fun h => ⟨a, rfl, h⟩, fun ⟨_, hx, h⟩ => by cases hx; exact h⟩

theorem mapError_eq_ok_iff {x : Except ε α} {f : ε → ε'} {a : α} :
    x.mapError f = .ok a ↔ x = .ok a := by
  rcases x with e | a
  · exact ⟨fun h => (nomatch h), fun h => (nomatch h)⟩
  · exact ⟨fun h => by cases h; rfl, fun h => by cases h; rfl⟩

theorem bind_eq_error_iff {x : Except ε α} {f : α → Except ε β} {e : ε} :
    x >>= f = .error e ↔ x = .error e ∨ ∃ a, x = .ok a ∧ f a = .error e := by
  rcases x with e' | a
  · exact ⟨fun h => by cases h; exact .inl rfl, by rintro (h | ⟨_, h, _⟩) <;> cases h; rfl⟩
  · exact ⟨fun h => .inr ⟨a, rfl, h⟩, by rintro (h | ⟨_, h, h'⟩) <;> cases h; exact h'⟩

theorem exists_of_mapM_error {f : α → Except ε β} {e : ε} :
    ∀ {as : List α}, as.mapM f = .error e → ∃ a ∈ as, f a = .error e
  | [], h => nomatch h
  | a :: as, h => by
    rw [List.mapM_cons] at h
    rcases bind_eq_error_iff.1 h with ha | ⟨b, -, h⟩
    · exact ⟨a, List.mem_cons_self, ha⟩
    rcases bind_eq_error_iff.1 h with has | ⟨bs, -, h⟩
    · obtain ⟨a', ha', he⟩ := exists_of_mapM_error has
      exact ⟨a', List.mem_cons_of_mem a ha', he⟩
    · cases h

theorem mapError_eq_error_iff {x : Except ε α} {f : ε → ε'} {e' : ε'} :
    x.mapError f = .error e' ↔ ∃ e, x = .error e ∧ f e = e' := by
  rcases x with e | a
  · exact ⟨fun h => ⟨e, rfl, Except.error.inj h⟩, fun ⟨_, h, hf⟩ => by cases h; exact congrArg _ hf⟩
  · exact ⟨fun h => (nomatch h), fun ⟨_, h, _⟩ => (nomatch h)⟩

section Monad

variable {m : Type → Type} [Monad m] [LawfulMonad m] [MonadAttach m] [LawfulMonadAttach m]

theorem ok_of_canReturn_liftM {x : Except ε α} {a : α}
    (h : CanReturn (liftM x : ExceptT ε m α) a) : x = .ok a :=
  eq_of_canReturn_pure (m := m) h

theorem error_of_canReturn_liftM {x : Except ε α} {e : ε}
    (h : CanReturn (liftM x : ExceptT ε m α).run (.error e)) : x = .error e :=
  eq_of_canReturn_pure (m := m) h

theorem canReturn_of_lift {x : m α} {a : α} (h : CanReturn (ExceptT.lift x : ExceptT ε m α) a) :
    CanReturn x a := by
  obtain ⟨b, hb, h⟩ := canReturn_map_imp' (m := m) (f := Except.ok) h
  cases h
  exact hb

theorem not_canReturn_lift_error {x : m α} {e : ε} :
    ¬ CanReturn (ExceptT.lift x : ExceptT ε m α).run (.error e) := by
  intro h
  obtain ⟨b, -, h⟩ := canReturn_map_imp' (m := m) (f := Except.ok) h
  cases h

theorem not_canReturn_throw {a : α} {e : ε} : ¬ CanReturn (throw e : ExceptT ε m α) a := by
  intro h
  cases eq_of_canReturn_pure (m := m) h

theorem eq_of_canReturn_throw {e e' : ε}
    (h : CanReturn (throw e : ExceptT ε m α).run (.error e')) : e = e' := by
  cases eq_of_canReturn_pure (m := m) h
  rfl

theorem not_canReturn_pure_error {a : α} {e : ε} :
    ¬ CanReturn (pure a : ExceptT ε m α).run (.error e) := by
  intro h
  cases eq_of_canReturn_pure (m := m) h

theorem canReturn_error_bind {x : ExceptT ε m α} {f : α → ExceptT ε m β} {e : ε}
    (h : CanReturn (x >>= f).run (.error e)) :
    CanReturn x.run (.error e) ∨ ∃ a, CanReturn x a ∧ CanReturn (f a).run (.error e) := by
  rw [ExceptT.run_bind] at h
  obtain ⟨e' | a, hx, h⟩ := canReturn_bind_imp' h
  · cases eq_of_canReturn_pure h
    exact .inl hx
  · exact .inr ⟨a, hx, h⟩

theorem canReturn_error_adapt {x : ExceptT ε m α} {f : ε → ε'} {e : ε'}
    (h : CanReturn (x.adapt f).run (.error e)) : ∃ e₀, e = f e₀ := by
  obtain ⟨e₀ | a, -, h⟩ := canReturn_map_imp' (m := m) (f := Except.mapError f) h
  · cases h
    exact ⟨e₀, rfl⟩
  · cases h

/-- Whatever the monad does, what the computation throws is as `P` says. -/
def ThrowsOnly (P : ε → Prop) (x : ExceptT ε m α) : Prop :=
  ∀ e, CanReturn x.run (.error e) → P e

variable {P : ε → Prop}

theorem ThrowsOnly.bind {x : ExceptT ε m α} {f : α → ExceptT ε m β} (hx : ThrowsOnly P x)
    (hf : ∀ a, CanReturn x a → ThrowsOnly P (f a)) : ThrowsOnly P (x >>= f) := by
  intro e h
  rcases canReturn_error_bind h with h | ⟨a, ha, h⟩
  · exact hx e h
  · exact hf a ha e h

theorem throwsOnly_pure {a : α} : ThrowsOnly P (pure a : ExceptT ε m α) :=
  fun _ h => (not_canReturn_pure_error h).elim

theorem throwsOnly_lift {x : m α} : ThrowsOnly P (ExceptT.lift x : ExceptT ε m α) :=
  fun _ h => (not_canReturn_lift_error h).elim

theorem throwsOnly_throw {e : ε} (h : P e) : ThrowsOnly P (throw e : ExceptT ε m α) := by
  intro e' h'
  rw [← eq_of_canReturn_throw h']
  exact h

theorem throwsOnly_adapt {x : ExceptT ε' m α} {f : ε' → ε} (h : ∀ e, P (f e)) :
    ThrowsOnly P (x.adapt f) := by
  intro e h'
  obtain ⟨e₀, rfl⟩ := canReturn_error_adapt h'
  exact h e₀

end Monad

end Provision
