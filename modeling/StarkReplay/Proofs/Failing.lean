import StarkReplay.Proofs.Reads

/-!
How operations fail. An operation is described by the kinds of causes it can fail with: a sequence
of steps fails as one of its steps does after the steps before it have succeeded. On felts a read
fails only where the elements run out; a handler that knows that cause leaves no other one.
-/
namespace StarkReplay

namespace Failure

/-- The elements run out. -/
def IsExhausted (f : Failure) : Prop := ∃ cause, f = .exhausted cause

/-- The proof is not accepted. -/
def IsRejection (f : Failure) : Prop := ∃ reason, f = .rejected reason

/-- The witness does not fall into layers, or the text is no proof. -/
def IsMalformed (f : Failure) : Prop := ∃ cause, f = .malformed cause

def IsUnsupportedLayout (f : Failure) : Prop := ∃ name, f = .unsupportedLayout name

end Failure

theorem IsFelt.isTooLong_natAbs {v : Int} (h : IsFelt v) : Numeral.isTooLong v.natAbs = false := by
  have hshort : Felt.prime < Nat.pow 10 Numeral.maxDigits := by decide +kernel
  have hlt := h.2
  have hnonneg := h.nonneg
  exact decide_eq_false (by omega)

theorem rejectShowing_of_felts {α : Type} {numbers : List Int} (h : Felts numbers)
    (reason : Rejection) : (rejectShowing numbers reason : Except Failure α) = reject reason := by
  refine if_neg ?_
  rw [List.any_eq_true]
  rintro ⟨v, hv, hlong⟩
  rw [(h v hv).isTooLong_natAbs] at hlong
  cases hlong

/-- If the outcome is a failure, then one of this kind. -/
def FailsOnly {α : Type} (K : Failure → Prop) (x : Except Failure α) : Prop :=
  ∀ f, x = .error f → K f

namespace FailsOnly

variable {α β : Type} {K K' : Failure → Prop} {x : Except Failure α}

theorem mono (h : FailsOnly K x) (hK : ∀ f, K f → K' f) : FailsOnly K' x :=
  fun f hf => hK f (h f hf)

theorem ok (a : α) : FailsOnly K (.ok a : Except Failure α) := nofun

theorem of_eq_ok {a : α} (h : x = .ok a) : FailsOnly K x := h ▸ ok a

theorem error {f : Failure} (h : K f) : FailsOnly K (.error f : Except Failure α) := by
  intro f' hf
  cases hf
  exact h

theorem reject (reason : Rejection) :
    FailsOnly Failure.IsRejection (StarkReplay.reject reason : Except Failure α) :=
  error ⟨reason, rfl⟩

/-- Felts have few enough digits to be shown. -/
theorem rejectShowing {numbers : List Int} (h : Felts numbers) (reason : Rejection) :
    FailsOnly Failure.IsRejection (StarkReplay.rejectShowing numbers reason : Except Failure α) :=
  rejectShowing_of_felts h reason ▸ reject reason

theorem bind {f : α → Except Failure β} (hx : FailsOnly K x)
    (hf : ∀ a, x = .ok a → FailsOnly K (f a)) : FailsOnly K (x >>= f) := by
  cases x with
  | error e => exact error (hx e rfl)
  | ok a => exact hf a rfl

theorem mapError {ε : Type} {y : Except ε α} {g : ε → Failure} (h : ∀ e, K (g e)) :
    FailsOnly K (y.mapError g) := by
  cases y with
  | error e => exact error (h e)
  | ok a => exact ok a

theorem bind_of_ok {f : α → Except Failure β} {a : α} (hx : x = .ok a) (hf : FailsOnly K (f a)) :
    FailsOnly K (x >>= f) := by
  rw [hx]
  exact hf

theorem ite {p : Prop} {_ : Decidable p} {y : Except Failure α} (hx : p → FailsOnly K x)
    (hy : ¬p → FailsOnly K y) : FailsOnly K (if p then x else y) := by
  split
  · rename_i h
    exact hx h
  · rename_i h
    exact hy h

/-- A check that rejects in one case. -/
theorem ite_reject {p : Prop} {_ : Decidable p} {reason : Rejection}
    (hx : ¬p → FailsOnly Failure.IsRejection x) :
    FailsOnly Failure.IsRejection (if p then StarkReplay.reject reason else x) :=
  ite (fun _ => reject reason) hx

theorem ite_rejectShowing {p : Prop} {_ : Decidable p} {numbers : List Int} {reason : Rejection}
    (hnumbers : Felts numbers) (hx : ¬p → FailsOnly Failure.IsRejection x) :
    FailsOnly Failure.IsRejection (if p then StarkReplay.rejectShowing numbers reason else x) :=
  ite (fun _ => rejectShowing hnumbers reason) hx

end FailsOnly

open Cursor (between)

/-- If the read fails on felts, then with a cause of this kind. -/
def ReadFailsOnly {α : Type} (K : Failure → Prop) (m : CursorM α) : Prop :=
  ∀ taken rest, Felts rest → FailsOnly K (m.run.run (between taken rest)).1

namespace ReadFailsOnly

variable {α β : Type} {K K' : Failure → Prop} {m : CursorM α} {P : α → Prop}
  {flat : α → List Int}

theorem ofList (h : ReadFailsOnly K m) {xs : List Int} (hxs : Felts xs) :
    FailsOnly K (m.run.run (Cursor.ofList xs)).1 := h [] xs hxs

theorem mono (h : ReadFailsOnly K m) (hK : ∀ f, K f → K' f) : ReadFailsOnly K' m :=
  fun taken rest hrest => (h taken rest hrest).mono hK

theorem lift {x : Except Failure α} (h : FailsOnly K x) : ReadFailsOnly K (liftM x) := by
  intro taken rest _
  rw [run_lift]
  exact h

theorem pure (a : α) : ReadFailsOnly K (pure a) := lift (.ok a)

theorem throw {f : Failure} (h : K f) : ReadFailsOnly K (throw f : CursorM α) := lift (.error h)

/-- The second of two reads starts behind the flat form of what the first one gave. -/
theorem bind {f : α → CursorM β} (hm : Reads m P flat) (hK : ReadFailsOnly K m)
    (hf : ∀ a, P a → Felts (flat a) → ReadFailsOnly K (f a)) : ReadFailsOnly K (m >>= f) := by
  intro taken rest hrest
  have hfirst := hK taken rest hrest
  rw [run_bind]
  rcases hr : m.run.run (between taken rest) with ⟨e | a, c⟩
  · rw [hr] at hfirst
    exact .error (hfirst e rfl)
  · obtain ⟨hp, left, rfl, rfl⟩ := hm.sound hrest hr
    obtain ⟨hflat, hleft⟩ := felts_append.1 hrest
    exact hf a hp hflat _ _ hleft

/-- A read whose result is only wrapped up. -/
theorem thenReturn {g : α → β} (h : ReadFailsOnly K m) :
    ReadFailsOnly K (do let a ← m; return g a) := by
  intro taken rest hrest
  have hfails := h taken rest hrest
  rw [run_bind]
  rcases hr : m.run.run (between taken rest) with ⟨e | a, c⟩
  · rw [hr] at hfails
    exact .error (hfails e rfl)
  · exact .ok _

/-- A read that looks at the cursor first. -/
theorem get {f : Cursor → CursorM α} (hf : ∀ c, ReadFailsOnly K (f c)) :
    ReadFailsOnly K (get >>= f) := by
  intro taken rest hrest
  rw [run_bind_of_ok (run_get _)]
  exact hf _ taken rest hrest

/-- A handler that exchanges each failure for one of another kind. -/
theorem tryCatch {handler : Failure → CursorM α} (hm : ReadFailsOnly K m)
    (hh : ∀ f, K f → ∃ f', handler f = MonadExcept.throw f' ∧ K' f') :
    ReadFailsOnly K' (tryCatch m handler) := by
  intro taken rest hrest
  have hfails := hm taken rest hrest
  rw [run_tryCatch]
  rcases hr : m.run.run (between taken rest) with ⟨e | a, c⟩
  · rw [hr] at hfails
    obtain ⟨f', hf', hK⟩ := hh e (hfails e rfl)
    simp only [hf']
    exact .error hK
  · exact .ok a

/-! ## The reads of a cursor -/

theorem readMany (n : Nat) : ReadFailsOnly Failure.IsExhausted (Cursor.readMany n) := by
  intro taken rest _
  rw [Cursor.run_readMany]
  split
  · exact .error ⟨_, rfl⟩
  · exact .ok _

theorem read : ReadFailsOnly Failure.IsExhausted Cursor.read := by
  refine bind (Reads.readMany 1) (readMany 1) fun xs hxs _ => ?_
  obtain ⟨v, rfl⟩ := List.length_eq_one_iff.1 hxs
  exact pure v

theorem readSpan : ReadFailsOnly Failure.IsExhausted Cursor.readSpan := by
  intro taken rest hrest
  cases rest with
  | nil =>
    rw [Reads.run_readSpan_nil]
    exact .error ⟨_, rfl⟩
  | cons count rest =>
    obtain ⟨hcount, hleft⟩ := felts_cons.1 hrest
    obtain ⟨n, rfl⟩ := Int.eq_ofNat_of_zero_le hcount.nonneg
    rw [Reads.run_readSpan]
    split
    · exact .error ⟨_, rfl⟩
    · exact readMany n _ _ hleft

/-- One element, and reads that need not know it. -/
theorem thenRead {f : Int → CursorM β}
    (hf : ∀ v, ReadFailsOnly Failure.IsExhausted (f v)) :
    ReadFailsOnly Failure.IsExhausted (Cursor.read >>= f) :=
  bind .read read fun v _ _ => hf v

/-- One run, and reads that need not know it. -/
theorem thenReadSpan {f : List Int → CursorM β}
    (hf : ∀ xs, ReadFailsOnly Failure.IsExhausted (f xs)) :
    ReadFailsOnly Failure.IsExhausted (Cursor.readSpan >>= f) :=
  bind .readSpan readSpan fun xs _ _ => hf xs

end ReadFailsOnly

end StarkReplay
