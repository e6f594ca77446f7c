import StarkReplay.Proofs.Split

/-!
The order of the chunks. In front of each layer stands the number of rounds that are done before
it, and the state reached holds that number too. So of the chunks of an accepted set only one list
is accepted: in any other one, whatever is moved, repeated or left out, the first chunk that is not
in its place is rejected for its state, before its layer is looked at.
-/
namespace StarkReplay.Split

open Replay (Parts)

/-- Why a list of chunks is rejected in place of the expected one: for its number of chunks, or for
the state in front of the first chunk that differs. -/
inductive Misplaced (expected steps : List (List Int)) : Rejection → Prop where
  | number (h : steps.length ≠ expected.length) :
    Misplaced expected steps (.chunkCount expected.length steps.length)
  | place (k : Nat) (hlength : steps.length = expected.length)
    (hbefore : steps.take k = expected.take k) (hdiffer : steps[k]? ≠ expected[k]?) :
    Misplaced expected steps (.variableMismatch (.step (k + 1)))

/-- A chunk is not resumed at another progress than its own. -/
theorem verifyStep_of_ne {H : Hash} {s : Fri.Schedule} {p q : Fri.Progress} {number : Nat}
    (hne : q ≠ p) (left : List Int) :
    verifyStep H s p number (stateFlat (s, q) ++ left) =
      .error (.rejected (.variableMismatch (.step number))) := by
  have hread := readState_reads.complete (a := (s, q)) trivial [] left
  have hresume : (resume (.step number) s p).run.run
      (Cursor.ofList (stateFlat (s, q) ++ left)) =
      (.error (.rejected (.variableMismatch (.step number))),
        Cursor.between (stateFlat (s, q)) left) := by
    rw [Cursor.ofList_eq_between, resume, run_bind, run_tryCatch, hread]
    dsimp only
    rw [if_neg (not_not.2 rfl), if_pos hne]
    rfl
  rw [verifyStep, hresume]
  rfl

section

variable {H : Hash} {layout : Layout} {params : Layout.Params} {p : Parts}

/-- The chunk of a round, in its place. -/
theorem verifyStep_progress (hp : p.Replays H params layout)
    (hf : ∀ step ∈ p.steps H params, Felts step) {i : Nat} (hi : i < (p.steps H params).length)
    (number : Nat) :
    verifyStep H (p.sections.schedule H) (p.progress H params i) number (p.steps H params)[i] =
      .ok (p.progress H params (i + 1)) := by
  have hlayers := Parts.felts_layers_of_steps hf
  have hround : i < p.layers.length := by simpa using hi
  apply (verifyStep_eq_ok (hf _ (List.getElem_mem hi))).2
  refine ⟨p.layer i, Parts.getElem_steps hi, ?_⟩
  exact (Parts.step_progress hp.initial.valid hp.layers hlayers hround).2
    ⟨hp.rounds i hround, rfl⟩

/-- From a round on, as many chunks as are expected but other ones. -/
theorem verifySteps_of_ne (hp : p.Replays H params layout)
    (hf : ∀ step ∈ p.steps H params, Felts step) {i : Nat} {chunks : List (List Int)}
    (hmem : ∀ chunk ∈ chunks, chunk ∈ p.steps H params)
    (hlength : chunks.length = ((p.steps H params).drop i).length)
    (hne : chunks ≠ (p.steps H params).drop i) :
    ∃ k, chunks.take k = ((p.steps H params).drop i).take k ∧
      chunks[k]? ≠ ((p.steps H params).drop i)[k]? ∧
        verifySteps H (p.sections.schedule H) (i + 1) (p.progress H params i) chunks =
          .error (.rejected (.variableMismatch (.step (i + k + 1)))) := by
  -- as long as the chunks are the expected ones, the state reached is the one before round `i`
  induction chunks generalizing i with
  | nil =>
    have hnil : (p.steps H params).drop i = [] := List.length_eq_zero_iff.1 hlength.symm
    exact absurd hnil.symm hne
  | cons chunk chunks ih =>
    obtain ⟨hchunk, hrest⟩ := List.forall_mem_cons.1 hmem
    have hi : i < (p.steps H params).length := by
      rw [List.length_cons, List.length_drop] at hlength
      omega
    rw [List.drop_eq_getElem_cons hi] at hlength hne ⊢
    by_cases hplace : chunk = (p.steps H params)[i]
    · subst hplace
      have hne : chunks ≠ (p.steps H params).drop (i + 1) := by
        intro h
        exact hne (congrArg _ h)
      obtain ⟨k, hbefore, hdiffer, hrun⟩ := ih hrest (Nat.succ.inj hlength) hne
      refine ⟨k + 1, ?_, ?_, ?_⟩
      · rw [List.take_succ_cons, List.take_succ_cons, hbefore]
      · rwa [List.getElem?_cons_succ, List.getElem?_cons_succ]
      · rw [verifySteps, verifyStep_progress hp hf, ok_bind, hrun]
        have hnumber : i + 1 + k + 1 = i + (k + 1) + 1 := by omega
        rw [hnumber]
    · obtain ⟨j, hj, rfl⟩ := List.getElem_of_mem hchunk
      have hstate : p.progress H params j ≠ p.progress H params i := by
        intro h
        obtain rfl := Parts.progress_injective h
        exact hplace rfl
      refine ⟨0, rfl, ?_, ?_⟩
      · rw [List.getElem?_cons_zero, List.getElem?_cons_zero]
        intro h
        exact hplace (Option.some.inj h)
      · rw [Parts.getElem_steps, verifySteps, Parts.state, verifyStep_of_ne hstate]
        rfl

end

/-- Chunks of an accepted set in another order, repeated or left out, are rejected. -/
theorem verify_rejects_misplaced {H : Hash} {name : Text} {c : Chunks}
    (h : verify H name c = .ok ()) {steps : List (List Int)}
    (hsteps : ∀ step ∈ steps, step ∈ c.steps) (hne : steps ≠ c.steps) :
    ∃ reason, Misplaced c.steps steps reason ∧
      verify H name { c with steps := steps } = .error (.rejected reason) := by
  obtain ⟨layout, params, p, coefficients, hres, hf, rfl, hp, -⟩ := verify_sound h
  obtain ⟨hinitial, hchunks, hfinal⟩ := felts_streams.1 hf
  have hstreams : ∀ stream ∈ Chunks.streams { p.chunks H params coefficients with steps := steps },
      Felts stream.2 :=
    felts_streams.2 ⟨hinitial, fun step hstep => hchunks step (hsteps step hstep), hfinal⟩
  have hcount : ((p.steps H params).length : Int) = p.sections.config.layers := by
    rw [Parts.length_steps]
    exact hp.layers
  rw [verify_of_passes hres hstreams hp.initial rfl]
  by_cases hlength : steps.length = (p.steps H params).length
  · obtain ⟨k, hbefore, hdiffer, hrun⟩ := verifySteps_of_ne hp hchunks (i := 0) hsteps hlength hne
    refine ⟨_, .place k hlength hbefore hdiffer, ?_⟩
    rw [if_neg (not_not.2 (by rw [← hcount, hlength])), ← Parts.progress_zero, hrun, Nat.zero_add]
    rfl
  · refine ⟨_, .number hlength, ?_⟩
    rw [if_pos (by rw [← hcount]; exact_mod_cast hlength), ← hcount]
    rfl

theorem verify_rejects_misplaced_small :
    verify Replay.smallHash Layout.recursive.name .small = .ok () ∧
      (∀ step ∈ Chunks.small.steps.reverse, step ∈ Chunks.small.steps) ∧
        Chunks.small.steps.reverse ≠ Chunks.small.steps ∧
          ∃ reason, Misplaced Chunks.small.steps Chunks.small.steps.reverse reason ∧
            verify Replay.smallHash Layout.recursive.name
              { Chunks.small with steps := Chunks.small.steps.reverse } =
                .error (.rejected reason) := by
  have h : verify Replay.smallHash Layout.recursive.name .small = .ok () := by decide +kernel
  have hsteps : ∀ step ∈ Chunks.small.steps.reverse, step ∈ Chunks.small.steps :=
    fun _ hstep => List.mem_reverse.1 hstep
  have hne : Chunks.small.steps.reverse ≠ Chunks.small.steps := by decide
  exact ⟨h, hsteps, hne, verify_rejects_misplaced h hsteps hne⟩

end StarkReplay.Split
