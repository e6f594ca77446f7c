import StarkReplay.Failure

/-!
Successful outcomes. An operation that can fail succeeds exactly when each of its steps does; the
same holds of an operation on a state, where each step starts from the state the last one left.
-/
namespace StarkReplay

theorem bind_eq_ok {ε α β : Type} {x : Except ε α} {f : α → Except ε β} {b : β} :
    x >>= f = .ok b ↔ ∃ a, x = .ok a ∧ f a = .ok b := by
  cases x with
  | error e => simp [bind, Except.bind]
  | ok a => simp [bind, Except.bind]

/-- An operation fails at its first step or, after that, at the next one. -/
theorem bind_eq_error {ε α β : Type} {x : Except ε α} {f : α → Except ε β} {e : ε} :
    x >>= f = .error e ↔ x = .error e ∨ ∃ a, x = .ok a ∧ f a = .error e := by
  cases x with
  | error e' => simp [bind, Except.bind]
  | ok a => simp [bind, Except.bind]

/-- Two ways to go on that agree on what an operation gives, if it gives anything. -/
theorem bind_congr_of_ok {ε α β : Type} {x : Except ε α} {f g : α → Except ε β}
    (h : ∀ a, x = .ok a → f a = g a) : x >>= f = x >>= g := by
  cases x with
  | error e => rfl
  | ok a => exact h a rfl

theorem ok_bind {ε α β : Type} (a : α) (f : α → Except ε β) : .ok a >>= f = f a := rfl

theorem pure_eq_ok {ε α : Type} {a b : α} : (pure a : Except ε α) = .ok b ↔ a = b := by
  simp [pure, Except.pure]

theorem mapError_eq_ok {ε ε' α : Type} {f : ε → ε'} {x : Except ε α} {a : α} :
    x.mapError f = .ok a ↔ x = .ok a := by
  cases x with
  | error e => exact ⟨nofun, nofun⟩
  | ok b =>
    constructor <;>
    · intro h
      cases h
      rfl

theorem mapError_ok {ε ε' α : Type} (f : ε → ε') (a : α) :
    (.ok a : Except ε α).mapError f = .ok a := rfl

/-- A cause of failure about felts, lifted into the causes of all failures. -/
theorem liftFelt_eq_ok {α : Type} {x : Except FeltError α} {a : α} :
    (liftM x : Except Failure α) = .ok a ↔ x = .ok a := mapError_eq_ok

theorem reject_ne_ok {α : Type} (reason : Rejection) (a : α) : reject reason ≠ .ok a := nofun

theorem rejectShowing_ne_ok {α : Type} (numbers : List Int) (reason : Rejection) (a : α) :
    rejectShowing numbers reason ≠ .ok a := by
  unfold rejectShowing
  split <;> nofun

/-- A check that fails in one case goes on in the other. -/
theorem ite_eq_ok_of_ne {α : Type} {p : Prop} {_ : Decidable p} {x y : Except Failure α} {a : α}
    (h : y ≠ .ok a) : (if p then y else x) = .ok a ↔ ¬p ∧ x = .ok a := by
  by_cases hp : p
  · simp [hp, h]
  · simp [hp]

theorem ite_reject_eq_ok {α : Type} {p : Prop} {_ : Decidable p} {reason : Rejection}
    {x : Except Failure α} {a : α} :
    (if p then reject reason else x) = .ok a ↔ ¬p ∧ x = .ok a :=
  ite_eq_ok_of_ne (reject_ne_ok reason a)

theorem ite_rejectShowing_eq_ok {α : Type} {p : Prop} {_ : Decidable p} {numbers : List Int}
    {reason : Rejection} {x : Except Failure α} {a : α} :
    (if p then rejectShowing numbers reason else x) = .ok a ↔ ¬p ∧ x = .ok a :=
  ite_eq_ok_of_ne (rejectShowing_ne_ok numbers reason a)

theorem liftFelt_of_ok {α : Type} {x : Except FeltError α} {a : α} (h : x = .ok a) :
    (liftM x : Except Failure α) = .ok a := liftFelt_eq_ok.2 h

/-! ## Operations on a state -/

section

variable {σ α β : Type}

theorem run_pure (a : α) (s : σ) :
    (pure a : ExceptT Failure (StateM σ) α).run.run s = (.ok a, s) := rfl

theorem run_bind (m : ExceptT Failure (StateM σ) α) (f : α → ExceptT Failure (StateM σ) β)
    (s : σ) :
    (m >>= f).run.run s =
      match m.run.run s with
      | (.ok a, s') => (f a).run.run s'
      | (.error e, s') => (.error e, s') := by
  change (match m.run.run s with | (a, s') => ExceptT.bindCont f a s' : Id _) = _
  rcases m.run.run s with ⟨_ | a, s'⟩ <;> rfl

theorem run_bind_of_ok {m : ExceptT Failure (StateM σ) α} {s s' : σ} {a : α}
    (h : m.run.run s = (.ok a, s')) (f : α → ExceptT Failure (StateM σ) β) :
    (m >>= f).run.run s = (f a).run.run s' := by
  rw [run_bind, h]

theorem run_bind_eq_ok {m : ExceptT Failure (StateM σ) α} {f : α → ExceptT Failure (StateM σ) β}
    {s t : σ} {b : β} :
    (m >>= f).run.run s = (.ok b, t) ↔
      ∃ a s', m.run.run s = (.ok a, s') ∧ (f a).run.run s' = (.ok b, t) := by
  rw [run_bind]
  rcases m.run.run s with ⟨e | a, s'⟩
  · constructor
    · intro h; cases h
    · rintro ⟨_, _, h, _⟩; cases h
  · constructor
    · intro h; exact ⟨a, s', rfl, h⟩
    · rintro ⟨_, _, h, h'⟩; cases h; exact h'

theorem run_lift (x : Except Failure α) (s : σ) :
    (liftM x : ExceptT Failure (StateM σ) α).run.run s = (x, s) := rfl

theorem run_liftFelt_of_ok {x : Except FeltError α} {a : α} (h : x = .ok a) (s : σ) :
    (liftM x : ExceptT Failure (StateM σ) α).run.run s = (.ok a, s) := by
  rw [h]; rfl

theorem run_get (s : σ) : (get : ExceptT Failure (StateM σ) σ).run.run s = (.ok s, s) := rfl

theorem run_set (s t : σ) : (set t : ExceptT Failure (StateM σ) PUnit).run.run s = (.ok ⟨⟩, t) :=
  rfl

theorem run_throw (f : Failure) (s : σ) :
    (throw f : ExceptT Failure (StateM σ) α).run.run s = (.error f, s) := rfl

theorem run_tryCatch (m : ExceptT Failure (StateM σ) α)
    (handler : Failure → ExceptT Failure (StateM σ) α) (s : σ) :
    (tryCatch m handler).run.run s =
      match m.run.run s with
      | (.ok a, s') => (.ok a, s')
      | (.error e, s') => (handler e).run.run s' := by
  rcases h : m.run.run s with ⟨e | a, s'⟩ <;>
  · simp only [ExceptT.run] at h
    simp only [tryCatch, tryCatchThe, MonadExceptOf.tryCatch, ExceptT.tryCatch, ExceptT.run_mk,
      StateT.run_bind]
    rw [h]
    rfl

end

end StarkReplay
