import StarkReplay.Proofs.Failing
import StarkReplay.Proofs.FriState

/-!
The state of a FRI verification as a fragment of a stream. A state is encoded exactly if all that
it holds are felts; it is then decoded from its encoding in front of every rest, and felts are
decoded in no other way. So each state has one encoding, and its decoding stops right behind it.
-/
namespace StarkReplay.Fri

open Cursor (between)

/-- States that hold these scalars are written and read back without loss. -/
structure Codec {α : Type} (decode : CursorM α) (encode : α → Except EncodingError (List Int))
    (scalars : α → List Int) : Prop where
  /-- What is encoded in front of a rest is decoded, and the rest is what is left. -/
  restores : ∀ a, Felts (scalars a) → ∃ xs, encode a = .ok xs ∧ ∀ taken rest,
    decode.run.run (between taken (xs ++ rest)) = (.ok a, between (taken ++ xs) rest)
  /-- The elements that a decoding takes are the encoding of what it gives. -/
  canonical : ∀ taken rest a c, Felts rest → decode.run.run (between taken rest) = (.ok a, c) →
    ∃ xs left, rest = xs ++ left ∧ c = between (taken ++ xs) left ∧ encode a = .ok xs
  refuses : ∀ a, (∃ e, encode a = .error e) ↔ ∃ v ∈ scalars a, ¬IsFelt v

/-- A flat form that the decoding reads and the encoding writes. -/
theorem Codec.of_flat {α : Type} {decode : CursorM α} {encode : α → Except EncodingError (List Int)}
    {scalars flat : α → List Int} (hreads : Reads decode (fun _ => True) flat)
    (hencode : ∀ a xs, encode a = .ok xs ↔ Felts (scalars a) ∧ xs = flat a)
    (hscalars : ∀ a, Felts (flat a) → Felts (scalars a)) : Codec decode encode scalars where
  restores a ha := ⟨flat a, (hencode a _).2 ⟨ha, rfl⟩, hreads.complete trivial⟩
  canonical taken rest a c hrest hr := by
    obtain ⟨-, left, rfl, rfl⟩ := hreads.sound hrest hr
    have hflat := (felts_append.1 hrest).1
    exact ⟨flat a, left, rfl, rfl, (hencode a _).2 ⟨hscalars a hflat, rfl⟩⟩
  refuses a := by
    rcases he : encode a with e | xs
    · have hnot : ¬Felts (scalars a) := by
        intro h
        rw [(hencode a _).2 ⟨h, rfl⟩] at he
        cases he
      simpa [Felts] using hnot
    · have hall := ((hencode a xs).1 he).1
      refine iff_of_false (by simp) ?_
      rintro ⟨v, hv, hnot⟩
      exact hnot (hall v hv)

theorem Schedule.codec : Codec Schedule.read Schedule.encode Schedule.scalars :=
  .of_flat reads (fun _ _ => encode_eq_ok) fun _ => felts_scalars_of_flat

theorem Progress.codec : Codec Progress.read Progress.encode Progress.scalars :=
  .of_flat reads (fun _ _ => encode_eq_ok) fun _ => felts_scalars_of_flat

/-! ## Failures -/

theorem Progress.pairs?_eq_none {xs : List Int} : pairs? xs = none ↔ xs.length % 2 = 1 := by
  induction xs using pairs?.induct with
  | case1 => simp [pairs?]
  | case2 x => simp [pairs?]
  | case3 x y rest ih =>
    rw [pairs?, List.length_cons, List.length_cons, Nat.add_assoc, Nat.add_mod_right, ← ih]
    simp

/-- A round and a run of an odd number of elements are read, but they are no state. -/
theorem Progress.run_read_of_odd {round : Int} {xs : List Int} (hodd : xs.length % 2 = 1)
    (taken left : List Int) :
    (Progress.read.run.run (between taken ([round] ++ Cursor.span xs ++ left))).1 =
      .error (.oddQueryState xs.length) := by
  have hround := Reads.read.complete (a := round) trivial taken (Cursor.span xs ++ left)
  have hspan := Reads.readSpan.complete (a := xs) trivial (taken ++ [round]) left
  rw [Progress.read, List.append_assoc, run_bind_of_ok hround, run_bind_of_ok hspan,
    pairs?_eq_none.2 hodd]
  rfl

/-- The elements run out, or they hold a run of an odd number of elements behind the round. -/
theorem Progress.read_failure {taken rest : List Int} {f : Failure} (hrest : Felts rest)
    (h : (Progress.read.run.run (between taken rest)).1 = .error f) :
    f.IsExhausted ∨ ∃ round xs left, rest = [round] ++ Cursor.span xs ++ left ∧
      xs.length % 2 = 1 ∧ f = .oddQueryState xs.length := by
  rw [Progress.read, run_bind] at h
  have hround := ReadFailsOnly.read taken rest hrest
  rcases hr : Cursor.read.run.run (between taken rest) with ⟨e | round, c⟩
  · rw [hr] at h hround
    cases h
    exact .inl (hround f rfl)
  obtain ⟨-, rest, rfl, rfl⟩ := Reads.read.sound hrest hr
  rw [hr] at h
  dsimp only at h
  rw [run_bind] at h
  have hleft := (felts_append.1 hrest).2
  have hspan := ReadFailsOnly.readSpan (taken ++ [round]) rest hleft
  rcases hs : Cursor.readSpan.run.run (between (taken ++ [round]) rest) with ⟨e | xs, c⟩
  · rw [hs] at h hspan
    cases h
    exact .inl (hspan f rfl)
  obtain ⟨-, left, rfl, rfl⟩ := Reads.readSpan.sound hleft hs
  rw [hs] at h
  dsimp only at h
  split at h
  · cases h
  · rename_i hpairs
    cases h
    exact .inr ⟨round, xs, left, by simp, pairs?_eq_none.1 hpairs, rfl⟩

/-- Both states are written and read back without loss; besides running out of elements, only a
run of an odd number of elements keeps a progress from being read. -/
theorem states_codec :
    Codec Schedule.read Schedule.encode Schedule.scalars ∧
    Codec Progress.read Progress.encode Progress.scalars ∧
    ∀ taken rest, Felts rest →
      (∀ f, (Progress.read.run.run (between taken rest)).1 = .error f →
        f.IsExhausted ∨ ∃ length, f = .oddQueryState length) ∧
      ∀ length, (Progress.read.run.run (between taken rest)).1 = .error (.oddQueryState length) ↔
        ∃ round xs left, rest = [round] ++ Cursor.span xs ++ left ∧ xs.length % 2 = 1 ∧
          length = xs.length := by
  refine ⟨Schedule.codec, Progress.codec, fun taken rest hrest => ⟨fun f h => ?_, fun length => ?_⟩⟩
  · rcases Progress.read_failure hrest h with hexhausted | ⟨-, xs, -, -, -, rfl⟩
    · exact .inl hexhausted
    · exact .inr ⟨xs.length, rfl⟩
  · constructor
    · intro h
      rcases Progress.read_failure hrest h with ⟨cause, hcause⟩ | ⟨round, xs, left, hxs, hodd, hf⟩
      · cases hcause
      · cases hf
        exact ⟨round, xs, left, hxs, hodd, rfl⟩
    · rintro ⟨round, xs, left, rfl, hodd, rfl⟩
      exact Progress.run_read_of_odd hodd taken left

/-- A progress in front of a rest, one whose round is no felt, and a run of three elements. -/
theorem states_codec_small :
    Felts (Progress.scalars ⟨1, [(6, 803), (3, 25)]⟩) ∧
      (∃ xs, Progress.encode ⟨1, [(6, 803), (3, 25)]⟩ = .ok xs ∧
        Progress.read.run.run (between [] (xs ++ [7])) =
          (.ok ⟨1, [(6, 803), (3, 25)]⟩, between xs [7])) ∧
      (∃ e, Progress.encode ⟨-1, []⟩ = .error e) ∧ Felts [1, 3, 6, 803, 3] ∧
      (Progress.read.run.run (between [] [1, 3, 6, 803, 3])).1 = .error (.oddQueryState 3) := by
  obtain ⟨-, hprogress, hodd⟩ := states_codec
  have hscalars : Felts (Progress.scalars ⟨1, [(6, 803), (3, 25)]⟩) := by decide
  have hrest : Felts [1, 3, 6, 803, 3] := by decide
  obtain ⟨xs, hxs, hread⟩ := hprogress.restores _ hscalars
  have hrefused := (hprogress.refuses ⟨-1, []⟩).2 ⟨-1, List.mem_cons_self, by decide⟩
  exact ⟨hscalars, ⟨xs, hxs, hread [] [7]⟩, hrefused, hrest,
    ((hodd [] _ hrest).2 3).2 ⟨1, [6, 803, 3], [], rfl, rfl, rfl⟩⟩

end StarkReplay.Fri
