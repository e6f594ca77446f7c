import StarkReplay.Proofs.ReadSequences
import StarkReplay.Proofs.FriState

/-!
What a read says when the elements run out. A read of a given number of elements, and of the count
of a run, tells how many are left where it stands. A run whose count is there and whose elements are
not is told about as if the count were left too: the offset is the one behind the count, and the
number is the one from the count on. The states between two rounds are read element by element and
run by run and say the same.
-/
namespace StarkReplay

namespace Exhausted

/-- As many elements as the cause says are left at its offset, and they are too few. -/
structure Exact (xs : List Int) (e : Exhausted) : Prop where
  nonneg : 0 ≤ e.remaining
  short : e.remaining < e.needed
  place : e.offset + e.remaining = xs.length

/-- The cause is about the elements of a run, whose count stands right before its offset, and one
element less than it says is left there. -/
structure Overstated (xs : List Int) (e : Exhausted) : Prop where
  counted : ∃ front later, xs = front ++ e.needed :: later ∧ e.offset = front.length + 1
  less : Exact xs { e with remaining := e.remaining - 1 }

/-- The cause is exact if it says that nothing is left, and in no other case. -/
structure ExactAtEnd (xs : List Int) (e : Exhausted) : Prop where
  exact_iff : Exact xs e ↔ e.remaining = 0
  overstated : e.remaining ≠ 0 → Overstated xs e

variable {xs : List Int} {e : Exhausted}

theorem Overstated.not_exact (h : Overstated xs e) : ¬Exact xs e := by
  intro hexact
  have hless := h.less.place
  have hplace := hexact.place
  dsimp only at hless
  omega

/-- One element is needed behind the last one. -/
theorem exactAtEnd_missing (xs : List Int) : ExactAtEnd xs ⟨1, xs.length, 0⟩ where
  exact_iff := iff_of_true ⟨Int.le_refl 0, Int.one_pos, Int.add_zero _⟩ rfl
  overstated h := absurd rfl h

theorem overstated_cut {count : Int} (front : List Int) {later : List Int}
    (h : (later.length : Int) < count) :
    Overstated (front ++ count :: later) ⟨count, front.length + 1, later.length + 1⟩ where
  counted := ⟨front, later, rfl, rfl⟩
  less := by
    refine ⟨?_, ?_, ?_⟩
    · change 0 ≤ (later.length : Int) + 1 - 1
      omega
    · change (later.length : Int) + 1 - 1 < count
      omega
    · simp only [List.length_append, List.length_cons]
      omega

theorem exactAtEnd_cut {count : Int} (front : List Int) {later : List Int}
    (h : (later.length : Int) < count) :
    ExactAtEnd (front ++ count :: later) ⟨count, front.length + 1, later.length + 1⟩ where
  exact_iff := by
    refine iff_of_false (overstated_cut front h).not_exact ?_
    dsimp only
    omega
  overstated _ := overstated_cut front h

end Exhausted

namespace Cursor

/-- If the elements run out for the read at this cursor, then the cause is such a one. -/
def ReportsAt {α : Type} (K : Exhausted → Prop) (m : CursorM α) (c : Cursor) : Prop :=
  ∀ e, (m.run.run c).1 = .error (.exhausted e) → K e

/-- Wherever the read stands in a sequence, what it says is of this kind for the whole sequence. -/
def Reports {α : Type} (K : List Int → Exhausted → Prop) (m : CursorM α) : Prop :=
  ∀ taken left, Felts left → ReportsAt (K (taken ++ left)) m (between taken left)

namespace Reports

variable {α β : Type} {K : List Int → Exhausted → Prop} {m : CursorM α} {P : α → Prop}
  {flat : α → List Int}

theorem pure (a : α) : Reports K (pure a) := by
  intro taken left _ e h
  cases h

theorem throw {f : Failure} (hf : ∀ e, f ≠ .exhausted e) : Reports K (throw f : CursorM α) := by
  intro taken left _ e h
  rw [run_throw] at h
  exact absurd (Except.error.inj h) (hf e)

/-- The second of two reads stands further on in the same sequence. -/
theorem bind {f : α → CursorM β} (hm : Reads m P flat) (hK : Reports K m)
    (hf : ∀ a, Reports K (f a)) : Reports K (m >>= f) := by
  intro taken left hleft e h
  rw [run_bind] at h
  rcases hr : m.run.run (between taken left) with ⟨e' | a, c⟩
  · rw [hr] at h
    obtain rfl := Except.error.inj h
    exact hK taken left hleft e (congrArg Prod.fst hr)
  · obtain ⟨-, later, rfl, rfl⟩ := hm.sound hleft hr
    rw [hr] at h
    rw [← List.append_assoc]
    exact hf a _ later (felts_append.1 hleft).2 e h

/-! ## The reads of a cursor -/

theorem readMany (n : Nat) :
    Reports (fun xs e => e.needed = n ∧ e.Exact xs) (Cursor.readMany n) := by
  intro taken left _ e h
  obtain ⟨hlt, he, -⟩ := readMany_error (Prod.ext h rfl)
  cases he
  refine ⟨rfl, Int.natCast_nonneg _, Int.ofNat_lt.2 hlt, ?_⟩
  rw [List.length_append]
  exact (Int.natCast_add ..).symm

theorem read : Reports Exhausted.ExactAtEnd Cursor.read := by
  intro taken left _ e h
  obtain ⟨rfl, he, -⟩ := read_error (Prod.ext h rfl)
  cases he
  rw [List.append_nil]
  exact Exhausted.exactAtEnd_missing taken

theorem read_exact : Reports (fun xs e => e.needed = 1 ∧ e.Exact xs) Cursor.read := by
  intro taken left hleft e h
  obtain ⟨rfl, he, -⟩ := read_error (Prod.ext h rfl)
  cases he
  exact ⟨rfl, (read taken [] hleft _ h).exact_iff.2 rfl⟩

theorem readSpan : Reports Exhausted.ExactAtEnd Cursor.readSpan := by
  intro taken left hleft e h
  obtain ⟨-, ⟨rfl, he⟩ | ⟨count, later, rfl, hlt, he⟩⟩ := readSpan_error hleft (Prod.ext h rfl)
  · cases he
    rw [List.append_nil]
    exact Exhausted.exactAtEnd_missing taken
  · cases he
    exact Exhausted.exactAtEnd_cut taken hlt

theorem thenRead {f : Int → CursorM β} (hf : ∀ v, Reports Exhausted.ExactAtEnd (f v)) :
    Reports Exhausted.ExactAtEnd (Cursor.read >>= f) := bind .read read hf

theorem thenReadSpan {f : List Int → CursorM β} (hf : ∀ xs, Reports Exhausted.ExactAtEnd (f xs)) :
    Reports Exhausted.ExactAtEnd (Cursor.readSpan >>= f) := bind .readSpan readSpan hf

theorem schedule : Reports Exhausted.ExactAtEnd Fri.Schedule.read :=
  thenRead fun _ => thenReadSpan fun _ => thenReadSpan fun _ => thenReadSpan fun _ =>
    thenRead fun _ => pure _

theorem progress : Reports Exhausted.ExactAtEnd Fri.Progress.read := by
  refine thenRead fun _ => thenReadSpan fun elements => ?_
  cases Fri.Progress.pairs? elements with
  | none => exact throw nofun
  | some queries => exact pure _

/-- Requests lead to a place in the sequence. -/
theorem after (h : Reports K m) {xs : List Int} (hxs : Felts xs) (requests : List Request) :
    ReportsAt (K xs) m (Cursor.after requests (ofList xs)) := by
  obtain ⟨later, hlater, hafter⟩ := after_between requests [] hxs
  rw [← ofList_eq_between, List.nil_append] at hafter
  rw [← ofList_eq_between] at hlater
  rw [hafter]
  generalize consumed requests (ofList xs) = taken at hlater
  subst hlater
  exact h taken later (felts_append.1 hxs).2

end Reports

/-- Whatever was read before, a number of elements that are not there is reported with the ones that
are; a run, and a state with its runs, only if nothing at all is left, and with one too many
otherwise. -/
theorem truncations_reported {xs : List Int} (hxs : Felts xs) (requests : List Request) :
    ReportsAt (fun e => e.needed = 1 ∧ e.Exact xs) read (after requests (ofList xs)) ∧
    (∀ n : Nat, ReportsAt (fun e => e.needed = n ∧ e.Exact xs) (readMany n)
      (after requests (ofList xs))) ∧
    ReportsAt (Exhausted.ExactAtEnd xs) readSpan (after requests (ofList xs)) ∧
    ReportsAt (Exhausted.ExactAtEnd xs) Fri.Schedule.read (after requests (ofList xs)) ∧
    ReportsAt (Exhausted.ExactAtEnd xs) Fri.Progress.read (after requests (ofList xs)) :=
  ⟨Reports.read_exact.after hxs requests, fun n => (Reports.readMany n).after hxs requests,
    Reports.readSpan.after hxs requests, Reports.schedule.after hxs requests,
    Reports.progress.after hxs requests⟩

/-- Two elements are left, of which the first is the count of a run of two. -/
theorem truncations_reported_small :
    Felts [4, 2, 9] ∧
      ((readMany 3).run.run (after [.element] (ofList [4, 2, 9]))).1 =
        .error (.exhausted ⟨3, 1, 2⟩) ∧
      Exhausted.Exact [4, 2, 9] ⟨3, 1, 2⟩ ∧
      (readSpan.run.run (after [.element] (ofList [4, 2, 9]))).1 =
        .error (.exhausted ⟨2, 2, 2⟩) ∧
      Exhausted.Overstated [4, 2, 9] ⟨2, 2, 2⟩ := by
  have hfelts : Felts [4, 2, 9] := by decide
  obtain ⟨-, hmany, hspan, -, -⟩ := truncations_reported hfelts [.element]
  have hthree : ((readMany 3).run.run (after [.element] (ofList [4, 2, 9]))).1 =
      .error (.exhausted ⟨3, 1, 2⟩) := by decide
  have hrun : (readSpan.run.run (after [.element] (ofList [4, 2, 9]))).1 =
      .error (.exhausted ⟨2, 2, 2⟩) := by decide
  exact ⟨hfelts, hthree, (hmany 3 _ hthree).2, hrun, (hspan _ hrun).overstated (by decide)⟩

/-- A count of one with nothing behind it: one element is needed there and none is left, but one
is said to be left. -/
theorem run_overstates :
    Felts [1] ∧ (readSpan.run.run (ofList [1])).1 = .error (.exhausted ⟨1, 1, 1⟩) ∧
      ¬Exhausted.Exact [1] ⟨1, 1, 1⟩ := by
  refine ⟨by decide, by decide, fun h => ?_⟩
  exact absurd h.short (by decide)

end Cursor

end StarkReplay
