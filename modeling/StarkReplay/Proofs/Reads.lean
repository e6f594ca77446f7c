import StarkReplay.Proofs.Felts

/-!
What a read on a cursor amounts to. A cursor is given here by the elements that are taken and the
ones that are left. A read is described by its possible results and by the flat form of each: it
succeeds on every sequence that begins with the flat form of a possible result, whatever follows,
and on felts in no other way. The flat form of a record that is read field by field is made up of
those of its fields.
-/
namespace StarkReplay

namespace Cursor

/-- The cursor behind the elements that are taken. -/
def between (taken left : List Int) : Cursor := ⟨taken ++ left, taken.length⟩

theorem ofList_eq_between (xs : List Int) : ofList xs = between [] xs := rfl

@[simp] theorem offset_between (taken left : List Int) :
    (between taken left).offset = taken.length := rfl

@[simp] theorem remaining_between (taken left : List Int) :
    (between taken left).remaining = left.length := by
  simp only [remaining, between, List.length_append]
  omega

@[simp] theorem atEnd_between (taken left : List Int) :
    (between taken left).atEnd = left.isEmpty := by
  cases left with
  | nil => simp [atEnd, between]
  | cons v left =>
    simp only [atEnd, between, List.length_append, List.length_cons, List.isEmpty_cons,
      decide_eq_false_iff_not]
    omega

theorem position_natCast (length k : Nat) : position length k = min length k := by
  unfold position
  rw [if_neg (by omega), Int.toNat_natCast]

theorem slice_natCast (xs : List Int) (first last : Nat) (h : last ≤ xs.length) :
    slice xs first last = (xs.drop first).take (last - first) := by
  unfold slice
  rw [position_natCast, position_natCast, Nat.min_eq_right h]
  rcases Nat.le_total first xs.length with hf | hf
  · rw [Nat.min_eq_right hf]
  · rw [Nat.min_eq_left hf]
    simp [List.drop_eq_nil_of_le hf]

/-- What is left of a sequence behind the cursor. -/
theorem slice_left (taken left : List Int) :
    slice (taken ++ left) taken.length (taken ++ left).length = left := by
  rw [slice_natCast _ _ _ (Nat.le_refl _), List.drop_left]
  exact List.take_of_length_le (by simp)

theorem slice_taken (taken left : List Int) :
    slice (taken ++ left) (0 : Nat) taken.length = taken := by
  rw [slice_natCast _ _ _ (by simp)]
  exact List.take_left

theorem run_readMany_between (xs taken left : List Int) :
    (readMany xs.length).run.run (between taken (xs ++ left)) =
      (.ok xs, between (taken ++ xs) left) := by
  rw [run_readMany, if_neg (by rw [remaining_between, List.length_append]; omega)]
  have hs : slice (taken ++ (xs ++ left)) taken.length (taken.length + xs.length : Nat) = xs := by
    rw [slice_natCast _ _ _ (by simp only [List.length_append]; omega), List.drop_left,
      Nat.add_sub_cancel_left]
    exact List.take_left
  have hb : between (taken ++ xs) left =
      ⟨taken ++ (xs ++ left), (taken.length : Int) + xs.length⟩ := by
    simp [between]
  rw [hb]
  exact congrArg (fun ys => (Except.ok ys, _)) hs

theorem run_readRest (taken left : List Int) :
    readRest.run.run (between taken left) = (.ok left, between (taken ++ left) []) := by
  have h := run_readMany_between left taken []
  rw [List.append_nil] at h
  rw [readRest, run_bind_of_ok (run_get _), remaining_between, h]

theorem run_readMany_of_lt {n : Int} {c : Cursor} (h : c.remaining < n) :
    (readMany n).run.run c = (.error (.exhausted ⟨n, c.offset, c.remaining⟩), c) := by
  rw [run_readMany, if_pos h]

end Cursor

open Cursor (between)

/-- `m` reads the flat forms of the results with `P`. -/
structure Reads {α : Type} (m : CursorM α) (P : α → Prop) (flat : α → List Int) : Prop where
  complete : ∀ {a}, P a → ∀ taken left,
    m.run.run (between taken (flat a ++ left)) = (.ok a, between (taken ++ flat a) left)
  sound : ∀ {taken rest a c}, Felts rest → m.run.run (between taken rest) = (.ok a, c) →
    P a ∧ ∃ left, rest = flat a ++ left ∧ c = between (taken ++ flat a) left

namespace Reads

variable {α β : Type} {m : CursorM α} {P : α → Prop} {flat : α → List Int}

theorem congr {Q : α → Prop} {flat' : α → List Int} (hm : Reads m P flat)
    (h : ∀ a, Q a ↔ P a) (hflat : ∀ a, Q a → flat' a = flat a) : Reads m Q flat' where
  complete hq taken left := by
    rw [hflat _ hq]
    exact hm.complete ((h _).1 hq) taken left
  sound hrest hr := by
    obtain ⟨hp, left, rfl, rfl⟩ := hm.sound hrest hr
    have hq := (h _).2 hp
    rw [hflat _ hq]
    exact ⟨hq, left, rfl, rfl⟩

/-- The first of two reads is that of the part `part b` of the result `b`. -/
theorem bind {f : α → CursorM β} {Q : β → Prop} {rest : β → List Int} (part : β → α)
    (hm : Reads m P flat) (hf : ∀ a, P a → Reads (f a) (fun b => Q b ∧ part b = a) rest)
    (hQ : ∀ b, Q b → P (part b)) :
    Reads (m >>= f) Q (fun b => flat (part b) ++ rest b) where
  complete := by
    intro b hb taken left
    have hp := hQ b hb
    rw [List.append_assoc, run_bind_of_ok (hm.complete hp taken (rest b ++ left)),
      (hf _ hp).complete ⟨hb, rfl⟩, List.append_assoc]
  sound := by
    intro taken xs b c hxs hr
    obtain ⟨a, c', ha, hb⟩ := run_bind_eq_ok.1 hr
    obtain ⟨hp, ys, rfl, rfl⟩ := hm.sound hxs ha
    obtain ⟨⟨hq, rfl⟩, left, rfl, rfl⟩ := (hf a hp).sound (felts_append.1 hxs).2 hb
    exact ⟨hq, left, by simp, by simp⟩

/-- The read of one field of a record. -/
theorem field {f : α → CursorM β} {Q : β → Prop} {rest : β → List Int} (part : β → α)
    (hm : Reads m (fun _ => True) flat)
    (hf : ∀ a, Reads (f a) (fun b => Q b ∧ part b = a) rest) :
    Reads (m >>= f) Q (fun b => flat (part b) ++ rest b) :=
  hm.bind part (fun a _ => hf a) fun _ _ => trivial

/-- A read whose result is only wrapped up. -/
theorem thenReturn {g : α → β} {Q : β → Prop} {flat' : β → List Int} (hm : Reads m P flat)
    (hQ : ∀ b, Q b ↔ ∃ a, P a ∧ b = g a) (hflat : ∀ a, P a → flat' (g a) = flat a) :
    Reads (do let a ← m; return g a) Q flat' where
  complete := by
    intro b hb taken left
    obtain ⟨a, ha, rfl⟩ := (hQ b).1 hb
    rw [hflat a ha, run_bind_of_ok (hm.complete ha taken left), run_pure]
  sound := by
    intro taken rest b c hrest hr
    obtain ⟨a, c', ha, hr⟩ := run_bind_eq_ok.1 hr
    obtain ⟨hp, left, rfl, rfl⟩ := hm.sound hrest ha
    cases hr
    rw [hflat a hp]
    exact ⟨(hQ _).2 ⟨a, hp, rfl⟩, left, rfl, rfl⟩

/-- A read that looks at the cursor first. -/
theorem get {f : Cursor → CursorM α} (hf : ∀ c, Reads (f c) P flat) :
    Reads (get >>= f) P flat where
  complete hp taken left := by
    rw [run_bind_of_ok (run_get _)]
    exact (hf _).complete hp taken left
  sound hrest hr := by
    rw [run_bind_of_ok (run_get _)] at hr
    exact (hf _).sound hrest hr

/-- An outcome that takes nothing. -/
theorem lift (x : Except Failure α) : Reads (liftM x) (fun a => x = .ok a) (fun _ => []) where
  complete := by
    rintro a rfl taken left
    simp [run_lift]
  sound := by
    intro taken rest a c _ hr
    rw [run_lift] at hr
    cases hr
    exact ⟨rfl, rest, rfl, by simp⟩

theorem pure (a : α) : Reads (pure a) (fun b => b = a) (fun _ => []) :=
  (lift (.ok a)).congr (fun b => by simp [eq_comm]) fun _ _ => rfl

theorem throw (f : Failure) : Reads (throw f) (fun _ => False) flat :=
  (lift (.error f)).congr (fun b => by simp) fun _ => False.elim

/-- A check that takes nothing and passes for every result. -/
theorem guard {x : Except Failure Unit} (hm : x = .ok () → Reads m P flat)
    (hx : ∀ a, P a → x = .ok ()) : Reads (do let _ ← liftM x; m) P flat where
  complete hp taken left := by
    have h := hx _ hp
    rw [run_bind, run_lift, h]
    exact (hm h).complete hp taken left
  sound hrest hr := by
    obtain ⟨_, _, hl, hr⟩ := run_bind_eq_ok.1 hr
    rw [run_lift] at hl
    cases hl
    exact (hm rfl).sound hrest hr

/-- A handler that only exchanges the failure changes no successful read. -/
theorem tryCatch {handler : Failure → CursorM α} (hm : Reads m P flat)
    (hh : ∀ f, ∃ f', handler f = MonadExcept.throw f') : Reads (tryCatch m handler) P flat where
  complete hp taken left := by
    rw [run_tryCatch, hm.complete hp]
  sound := by
    intro taken rest a c hrest hr
    rw [run_tryCatch] at hr
    rcases h : m.run.run (between taken rest) with ⟨e | b, c'⟩
    · obtain ⟨f', hf'⟩ := hh e
      rw [h] at hr
      dsimp only at hr
      rw [hf'] at hr
      cases hr
    · rw [h] at hr
      cases hr
      exact hm.sound hrest h

/-- Two results whose flat forms begin one sequence are the same. -/
theorem eq_of_append_eq (hm : Reads m P flat) {a b : α} (ha : P a) (hb : P b)
    {left left' : List Int} (h : flat a ++ left = flat b ++ left') : a = b ∧ left = left' := by
  have hread := hm.complete ha [] left
  rw [h, hm.complete hb [] left'] at hread
  obtain rfl : b = a := Except.ok.inj (Prod.mk.inj hread).1
  exact ⟨rfl, List.append_cancel_left h⟩

/-! ## The reads of a cursor -/

theorem readMany (n : Nat) : Reads (Cursor.readMany n) (fun xs => xs.length = n) id where
  complete := by
    rintro xs rfl taken left
    exact Cursor.run_readMany_between xs taken left
  sound := by
    intro taken rest xs c _ hr
    rcases Nat.lt_or_ge rest.length n with hn | hn
    · rw [Cursor.run_readMany_of_lt (by simpa using hn)] at hr
      cases hr
    · have hl : (rest.take n).length = n := List.length_take_of_le hn
      have hr' := Cursor.run_readMany_between (rest.take n) taken (rest.drop n)
      rw [List.take_append_drop, hl, hr] at hr'
      cases hr'
      exact ⟨hl, rest.drop n, (List.take_append_drop n rest).symm, rfl⟩

theorem read : Reads Cursor.read (fun _ => True) (fun v => [v]) := by
  have h : Reads Cursor.read (fun _ => True) (fun v => [v] ++ []) := by
    refine (readMany 1).bind (fun v => [v]) (fun ys hys => ?_) fun _ _ => rfl
    obtain ⟨w, rfl⟩ := List.length_eq_one_iff.1 hys
    exact (pure w).congr (by simp) fun _ _ => rfl
  exact h.congr (fun _ => Iff.rfl) fun _ _ => rfl

/-- A count of more elements than are left is not taken either. -/
theorem run_readSpan (count : Int) (taken rest : List Int) :
    Cursor.readSpan.run.run (between taken (count :: rest)) =
      if (rest.length : Int) < count then
        (.error (.exhausted ⟨count, taken.length + 1, rest.length + 1⟩),
          between taken (count :: rest))
      else (Cursor.readMany count).run.run (between (taken ++ [count]) rest) := by
  have hread : Cursor.read.run.run (between taken (count :: rest)) =
      (.ok count, between (taken ++ [count]) rest) := read.complete trivial taken rest
  rw [Cursor.readSpan, run_bind_of_ok (run_get _), run_bind_of_ok hread,
    run_bind_of_ok (run_get _), Cursor.remaining_between]
  split
  · rw [run_bind_of_ok (run_set _ _), run_throw]
    simp
  · rfl

theorem run_readSpan_nil (taken : List Int) :
    Cursor.readSpan.run.run (between taken []) =
      (.error (.exhausted ⟨1, taken.length, 0⟩), between taken []) := by
  have hmany : (Cursor.readMany 1).run.run (between taken []) =
      (.error (.exhausted ⟨1, taken.length, 0⟩), between taken []) := by
    rw [Cursor.run_readMany_of_lt (by simp)]
    simp
  rw [Cursor.readSpan, run_bind_of_ok (run_get _), Cursor.read, run_bind, run_bind, hmany]

theorem readSpan : Reads Cursor.readSpan (fun _ => True) Cursor.span where
  complete := by
    rintro ys - taken left
    have hmany := Cursor.run_readMany_between ys (taken ++ [(ys.length : Int)]) left
    rw [Cursor.span, List.cons_append, run_readSpan, if_neg, hmany]
    · simp
    · rw [List.length_append]
      omega
  sound := by
    intro taken rest ys c hrest hr
    cases rest with
    | nil =>
      rw [run_readSpan_nil] at hr
      cases hr
    | cons count rest =>
      obtain ⟨n, rfl⟩ := Int.eq_ofNat_of_zero_le (felts_cons.1 hrest).1.nonneg
      rw [run_readSpan] at hr
      split at hr
      · cases hr
      · obtain ⟨rfl, left, rfl, rfl⟩ := (readMany n).sound (felts_cons.1 hrest).2 hr
        exact ⟨trivial, left, rfl, by simp [Cursor.span]⟩

end Reads

end StarkReplay
