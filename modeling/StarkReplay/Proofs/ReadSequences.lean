import StarkReplay.Proofs.Reads
import StarkReplay.Proofs.Failing

/-!
Sequences of reads on one cursor. Whatever a caller asks for, what succeeds takes the elements one
after another from the front, and what fails takes nothing. So a cursor always stands between the
elements that were taken and the ones that are left, and reads that succeed without asking for
all that is left cannot tell how the sequence goes on.
-/
namespace StarkReplay.Cursor

/-- A read that a caller asks a cursor for. -/
inductive Request where
  | element
  | many (count : Nat)
  | run
  | rest
  deriving DecidableEq

namespace Request

/-- The read; one element comes as a list of one. -/
def perform : Request → CursorM (List Int)
  | element => do return [← Cursor.read]
  | many count => readMany count
  | run => readSpan
  | rest => readRest

def outcome (r : Request) (c : Cursor) : Except Failure (List Int) := (r.perform.run.run c).1

def next (r : Request) (c : Cursor) : Cursor := (r.perform.run.run c).2

/-- What is taken when these elements are given: those of a run together with their count. -/
def taken : Request → List Int → List Int
  | run, given => span given
  | _, given => given

/-- What is taken with this outcome. -/
def takenBy (r : Request) : Except Failure (List Int) → List Int
  | .ok given => r.taken given
  | .error _ => []

end Request

/-- The cursor after some requests, those that fail among them. -/
def after (requests : List Request) (c : Cursor) : Cursor :=
  requests.foldl (fun c r => r.next c) c

/-- The outcome of each request and the offset after it. -/
def answers : List Request → Cursor → List (Except Failure (List Int) × Int)
  | [], _ => []
  | r :: requests, c => (r.outcome c, (r.next c).offset) :: answers requests (r.next c)

/-- What the requests that succeed take, one after another. -/
def consumed : List Request → Cursor → List Int
  | [], _ => []
  | r :: requests, c => r.takenBy (r.outcome c) ++ consumed requests (r.next c)

/-! ## Failures -/

section

variable {taken left : List Int} {f : Failure} {c : Cursor}

theorem readMany_error {n : Nat} (h : (readMany n).run.run (between taken left) = (.error f, c)) :
    left.length < n ∧ f = .exhausted ⟨n, taken.length, left.length⟩ ∧ c = between taken left := by
  rw [run_readMany, remaining_between] at h
  split at h
  · rename_i hlt
    cases h
    exact ⟨by omega, rfl, rfl⟩
  · cases h

theorem read_error (h : read.run.run (between taken left) = (.error f, c)) :
    left = [] ∧ f = .exhausted ⟨1, taken.length, 0⟩ ∧ c = between taken left := by
  cases left with
  | nil =>
    have hmany := run_readMany_of_lt (n := 1) (c := between taken []) (by simp)
    rw [read, run_bind, hmany] at h
    cases h
    simp
  | cons v left =>
    have hread : read.run.run (between taken (v :: left)) =
        (.ok v, between (taken ++ [v]) left) := Reads.read.complete trivial taken left
    rw [hread] at h
    cases h

/-- A run fails for want of its count or for want of its elements; the count is left in place in
either case. -/
theorem readSpan_error (hleft : Felts left)
    (h : readSpan.run.run (between taken left) = (.error f, c)) :
    c = between taken left ∧ (left = [] ∧ f = .exhausted ⟨1, taken.length, 0⟩ ∨
      ∃ count later, left = count :: later ∧ (later.length : Int) < count ∧
        f = .exhausted ⟨count, taken.length + 1, later.length + 1⟩) := by
  cases left with
  | nil =>
    rw [Reads.run_readSpan_nil] at h
    cases h
    exact ⟨rfl, .inl ⟨rfl, rfl⟩⟩
  | cons count later =>
    obtain ⟨n, rfl⟩ := Int.eq_ofNat_of_zero_le (felts_cons.1 hleft).1.nonneg
    rw [Reads.run_readSpan] at h
    split at h
    · rename_i hlt
      cases h
      exact ⟨rfl, .inr ⟨n, later, rfl, hlt, rfl⟩⟩
    · rename_i hge
      obtain ⟨hlt, -, -⟩ := readMany_error h
      omega

end

/-! ## One request -/

namespace Request

variable {r : Request} {before left : List Int}

/-- The lists that a request can give. -/
def Gives : Request → List Int → Prop
  | element, given => given.length = 1
  | many count, given => given.length = count
  | _, _ => True

/-- The elements that a request asks for are there. -/
def Available : Request → List Int → Prop
  | element, left => 1 ≤ left.length
  | many count, left => count ≤ left.length
  | run, left => ∃ count later, left = count :: later ∧ count ≤ later.length
  | rest, _ => True

/-- All requests but one do not depend on where the sequence ends. -/
theorem reads (h : r ≠ .rest) : Reads r.perform r.Gives r.taken := by
  cases r with
  | element =>
    refine Reads.read.thenReturn (fun given => ?_) fun _ _ => rfl
    simp [Gives, List.length_eq_one_iff]
  | many count => exact (Reads.readMany count).congr (fun _ => Iff.rfl) fun _ _ => rfl
  | run => exact Reads.readSpan.congr (fun _ => Iff.rfl) fun _ _ => rfl
  | rest => exact absurd rfl h

theorem available_of_gives {given : List Int} (h : r.Gives given) (later : List Int) :
    r.Available (r.taken given ++ later) := by
  cases r with
  | element =>
    change 1 ≤ (given ++ later).length
    rw [List.length_append, show given.length = 1 from h]
    omega
  | many count =>
    change count ≤ (given ++ later).length
    rw [List.length_append, show given.length = count from h]
    omega
  | run =>
    refine ⟨given.length, given ++ later, rfl, ?_⟩
    rw [List.length_append]
    omega
  | rest => trivial

theorem perform_error {f : Failure} {c : Cursor} (hleft : Felts left)
    (h : r.perform.run.run (between before left) = (.error f, c)) :
    f.IsExhausted ∧ ¬r.Available left ∧ c = between before left := by
  cases r with
  | element =>
    rw [perform, run_bind] at h
    rcases hr : read.run.run (between before left) with ⟨e | v, c'⟩
    · rw [hr] at h
      cases h
      obtain ⟨rfl, rfl, rfl⟩ := read_error hr
      exact ⟨⟨_, rfl⟩, by simp [Available], rfl⟩
    · rw [hr] at h
      cases h
  | many count =>
    obtain ⟨hlt, rfl, rfl⟩ := readMany_error h
    exact ⟨⟨_, rfl⟩, Nat.not_le.2 hlt, rfl⟩
  | run =>
    obtain ⟨rfl, ⟨rfl, rfl⟩ | ⟨count, later, rfl, hlt, rfl⟩⟩ := readSpan_error hleft h
    · exact ⟨⟨_, rfl⟩, by simp [Available], rfl⟩
    · refine ⟨⟨_, rfl⟩, ?_, rfl⟩
      rintro ⟨_, _, hcons, hle⟩
      cases hcons
      omega
  | rest =>
    rw [perform, run_readRest] at h
    cases h

/-- A request takes what it gives from the front of what is left, or it takes nothing because the
elements are not there. -/
theorem perform_cases (r : Request) (before : List Int) (hleft : Felts left) :
    (∃ given later, left = r.taken given ++ later ∧ r.Available left ∧
      r.perform.run.run (between before left) =
        (.ok given, between (before ++ r.taken given) later)) ∨
    ∃ e, ¬r.Available left ∧
      r.perform.run.run (between before left) = (.error (.exhausted e), between before left) := by
  rcases hr : r.perform.run.run (between before left) with ⟨f | given, c⟩
  · obtain ⟨⟨e, rfl⟩, hnot, rfl⟩ := perform_error hleft hr
    exact .inr ⟨e, hnot, rfl⟩
  · left
    by_cases hrest : r = .rest
    · subst hrest
      rw [perform, run_readRest] at hr
      cases hr
      exact ⟨left, [], (List.append_nil left).symm, trivial, rfl⟩
    · obtain ⟨hgives, later, rfl, rfl⟩ := (reads hrest).sound hleft hr
      exact ⟨given, later, rfl, available_of_gives hgives later, rfl⟩

theorem outcome_eq_ok_iff (r : Request) (before : List Int) (hleft : Felts left) :
    (∃ given, r.outcome (between before left) = .ok given) ↔ r.Available left := by
  rcases r.perform_cases before hleft with ⟨given, later, -, havailable, hr⟩ | ⟨e, hnot, hr⟩
  · exact iff_of_true ⟨given, congrArg Prod.fst hr⟩ havailable
  · refine iff_of_false ?_ hnot
    rintro ⟨given, hgiven⟩
    rw [outcome, hr] at hgiven
    cases hgiven

end Request

/-! ## All requests -/

section

variable {r : Request} {requests : List Request} {c c' : Cursor}
  {outcome : Except Failure (List Int)}

theorem after_cons (h : r.perform.run.run c = (outcome, c')) :
    after (r :: requests) c = after requests c' := by
  rw [after, List.foldl_cons, Request.next, h, after]

theorem answers_cons (h : r.perform.run.run c = (outcome, c')) :
    answers (r :: requests) c = (outcome, c'.offset) :: answers requests c' := by
  rw [answers, Request.outcome, Request.next, h]

theorem consumed_cons (h : r.perform.run.run c = (outcome, c')) :
    consumed (r :: requests) c = r.takenBy outcome ++ consumed requests c' := by
  rw [consumed, Request.outcome, Request.next, h]

end

/-- What was consumed stands between what was taken before and what is left. -/
theorem after_between (requests : List Request) (taken : List Int) {left : List Int}
    (hleft : Felts left) :
    ∃ later, left = consumed requests (between taken left) ++ later ∧
      after requests (between taken left) =
        between (taken ++ consumed requests (between taken left)) later := by
  induction requests generalizing taken left with
  | nil => exact ⟨left, rfl, by simp [consumed, after]⟩
  | cons r requests ih =>
    rcases r.perform_cases taken hleft with ⟨given, later, rfl, -, hr⟩ | ⟨e, -, hr⟩
    · obtain ⟨last, hlast, hafter⟩ := ih (taken ++ r.taken given) (felts_append.1 hleft).2
      rw [consumed_cons hr, after_cons hr, Request.takenBy]
      refine ⟨last, ?_, ?_⟩
      · rw [List.append_assoc, ← hlast]
      · rw [hafter, List.append_assoc]
    · rw [consumed_cons hr, after_cons hr, Request.takenBy, List.nil_append]
      exact ih taken hleft

/-- Requests that succeed do not see what is put behind the end of the sequence. -/
theorem answers_append {requests : List Request} (hrest : ∀ r ∈ requests, r ≠ .rest)
    {taken left : List Int} (hleft : Felts left)
    (hok : ∀ a ∈ answers requests (between taken left), ∃ given, a.1 = .ok given)
    (ys : List Int) :
    answers requests (between taken (left ++ ys)) = answers requests (between taken left) := by
  induction requests generalizing taken left with
  | nil => rfl
  | cons r requests ih =>
    obtain ⟨hr, hrest⟩ := List.forall_mem_cons.1 hrest
    rcases hrun : r.perform.run.run (between taken left) with ⟨f | given, c⟩
    · rw [answers_cons hrun] at hok
      obtain ⟨given, hgiven⟩ := hok _ List.mem_cons_self
      cases hgiven
    · obtain ⟨hgives, later, rfl, rfl⟩ := (Request.reads hr).sound hleft hrun
      have hrun' := (Request.reads hr).complete hgives taken (later ++ ys)
      rw [answers_cons hrun] at hok
      rw [List.append_assoc, answers_cons hrun', answers_cons hrun,
        ih hrest (felts_append.1 hleft).2 (List.forall_mem_cons.1 hok).2]
      rfl

/-- What a caller can rely on at a cursor over a sequence, after some requests from its start. -/
structure Orderly (xs : List Int) (requests : List Request) (c : Cursor) : Prop where
  elements : c.elements = xs
  within : 0 ≤ c.offset ∧ c.offset ≤ xs.length
  front : consumed requests (ofList xs) = xs.take c.offset.toNat
  forward : ∀ further, c.offset ≤ (after further c).offset
  granted : ∀ r : Request,
    (∃ given, r.outcome c = .ok given) ↔ r.Available (xs.drop c.offset.toNat)
  restored : ∀ (r : Request) f, r.outcome c = .error f → f.IsExhausted ∧ r.next c = c
  extended : ∀ further, (∀ r ∈ further, r ≠ .rest) →
    (∀ a ∈ answers further c, ∃ given, a.1 = .ok given) →
      ∀ ys, answers further ⟨xs ++ ys, c.offset⟩ = answers further c

/-- Whatever is asked for, the cursor only goes forward over what it gives, stays where it is if it
gives nothing, and gives nothing that depends on what follows. -/
theorem requests_in_order {xs : List Int} (hxs : Felts xs) (requests : List Request) :
    Orderly xs requests (after requests (ofList xs)) := by
  obtain ⟨left, hleft, hafter⟩ := after_between requests [] hxs
  rw [← ofList_eq_between, List.nil_append] at hafter
  rw [← ofList_eq_between] at hleft
  generalize htaken : consumed requests (ofList xs) = taken at hleft hafter
  subst hleft
  have hlater : Felts left := (felts_append.1 hxs).2
  rw [hafter]
  refine ⟨rfl, ⟨Int.natCast_nonneg _, ?_⟩, ?_, ?_, ?_, ?_, ?_⟩
  · rw [offset_between, List.length_append]
    omega
  · rw [htaken, offset_between, Int.toNat_natCast]
    exact List.take_left.symm
  · intro further
    obtain ⟨last, -, hfurther⟩ := after_between further taken hlater
    rw [hfurther, offset_between, offset_between, List.length_append]
    omega
  · intro r
    rw [offset_between, Int.toNat_natCast, List.drop_left]
    exact r.outcome_eq_ok_iff taken hlater
  · intro r f hr
    obtain ⟨hf, -, hnext⟩ := Request.perform_error hlater (Prod.ext hr rfl)
    exact ⟨hf, hnext⟩
  · intro further hrest hok ys
    rw [List.append_assoc]
    exact answers_append hrest hlater hok ys

/-- A run, one that is cut short, and an element; the cut stays where it is, and further elements
do not change what came before it. -/
theorem requests_in_order_small :
    Felts [2, 10, 11, 5, 1] ∧
      Orderly [2, 10, 11, 5, 1] [.run, .run, .element]
        (after [.run, .run, .element] (ofList [2, 10, 11, 5, 1])) ∧
      answers [.run, .run, .element] (ofList [2, 10, 11, 5, 1]) =
        [(.ok [10, 11], 3), (.error (.exhausted ⟨5, 4, 2⟩), 3), (.ok [5], 4)] ∧
      consumed [.run, .run, .element] (ofList [2, 10, 11, 5, 1]) = [2, 10, 11, 5] ∧
      answers [.run, .element] (ofList ([2, 10, 11, 5, 1] ++ [7, 7, 7, 7])) =
        [(.ok [10, 11], 3), (.ok [5], 4)] := by
  have hfelts : Felts [2, 10, 11, 5, 1] := by decide
  have horder := requests_in_order hfelts [.run, .run, .element]
  have hstart := requests_in_order hfelts []
  have hoffset : (after [.run, .run, .element] (ofList [2, 10, 11, 5, 1])).offset = 4 := by decide
  have hfront := horder.front
  rw [hoffset] at hfront
  have hshort : answers [.run, .element] (ofList [2, 10, 11, 5, 1]) =
      [(.ok [10, 11], 3), (.ok [5], 4)] := by decide
  have hok : ∀ a ∈ answers [.run, .element] (ofList [2, 10, 11, 5, 1]),
      ∃ given, a.1 = .ok given := by
    rw [hshort]
    simp
  have hextended := hstart.extended [.run, .element] (by decide) hok [7, 7, 7, 7]
  exact ⟨hfelts, horder, by decide, hfront, hextended.trans hshort⟩

end StarkReplay.Cursor
