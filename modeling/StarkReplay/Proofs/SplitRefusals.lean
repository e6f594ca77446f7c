import StarkReplay.Proofs.Chunks
import StarkReplay.Proofs.Refusals
import StarkReplay.Proofs.Split

/-!
The failures of splitting and of the verification of chunks. Chunks are refused for the same
reasons as a proof in one stream; splitting a proof text can in addition find a scalar in it that
is no felt. A layout without a verifier is found before anything else.
-/
namespace StarkReplay

namespace Split

open Replay

open Failure (IsExhausted IsRejection IsMalformed IsUnsupportedLayout IsVerdict IsRefusal)

/-! ## Chunks -/

variable {H : Hash} {name : Text} {layout : Layout} {params : Layout.Params}
  {s : Fri.Schedule} {p next : Fri.Progress}

/-- The elements run out, or the queries do not come in pairs. -/
def IsUnreadable (f : Failure) : Prop := f.IsExhausted ∨ ∃ length, f = .oddQueryState length

theorem readState_failsOnly : ReadFailsOnly IsUnreadable readState := by
  have hschedule : ReadFailsOnly IsExhausted Fri.Schedule.read :=
    .thenRead fun _ => .thenReadSpan fun _ => .thenReadSpan fun _ => .thenReadSpan fun _ =>
      .thenRead fun _ => .pure _
  refine .bind Fri.Schedule.reads (hschedule.mono fun _ => .inl) fun _ _ _ => .thenReturn ?_
  refine .bind .read (ReadFailsOnly.read.mono fun _ => .inl) fun _ _ _ => ?_
  refine .bind .readSpan (ReadFailsOnly.readSpan.mono fun _ => .inl) fun _ _ _ => ?_
  split
  · exact .pure _
  · exact .throw (.inr ⟨_, rfl⟩)

theorem resume_failsOnly (stream : Stream) (s : Fri.Schedule) (p : Fri.Progress) :
    ReadFailsOnly IsRejection (resume stream s p) := by
  refine .bind (readState_reads.tryCatch fun f => ?_) (readState_failsOnly.tryCatch ?_)
    fun _ _ _ => ?_
  · cases f <;> exact ⟨_, rfl⟩
  · rintro f (⟨cause, rfl⟩ | ⟨length, rfl⟩)
    · exact ⟨_, rfl, _, rfl⟩
    · exact ⟨_, rfl, _, rfl⟩
  dsimp only
  split
  · exact .throw ⟨_, rfl⟩
  · split
    · exact .throw ⟨_, rfl⟩
    · exact .pure _

theorem verifyStep_failsOnly {number : Nat} {chunk : List Int} (hs : s.WellFormed)
    (hp : p.Ready s) (hf : Felts chunk) : FailsOnly IsRefusal (verifyStep H s p number chunk) := by
  have hresume := resume_failsOnly (.step number) s p [] chunk hf
  unfold verifyStep
  rw [Cursor.ofList_eq_between]
  rcases hr : (resume (.step number) s p).run.run (Cursor.between [] chunk) with ⟨e | _, cursor⟩
  · rw [hr] at hresume
    exact .error (.inl (hresume e rfl))
  obtain ⟨-, left, rfl, rfl⟩ := (resume_reads (.step number) s p).sound hf hr
  have hleft := (felts_append.1 hf).2
  dsimp only
  refine .bind_of_ok rfl ?_
  rw [List.nil_append, Cursor.offset_between, Cursor.slice_left]
  refine .bind ((Fri.layersOf_failsOnly hleft).mono fun _ => .inr) fun layers hlayers => ?_
  obtain rfl := (Fri.layersOf_eq_ok hleft).1 hlayers
  refine FailsOnly.mono ?_ fun _ => .inl
  split
  · exact step_failsOnly hs hp (felts_flatMap.1 hleft _ (List.mem_singleton_self _))
  · exact .reject _

theorem verifyStep_ready {number : Nat} {chunk : List Int} (hs : s.WellFormed) (hp : p.Ready s)
    (hf : Felts chunk) (h : verifyStep H s p number chunk = .ok next) : next.Ready s := by
  obtain ⟨layer, rfl, hstep⟩ := (verifyStep_eq_ok hf).1 h
  exact step_ready hs hp hstep

theorem verifySteps_failsOnly {number : Nat} {chunks : List (List Int)} (hs : s.WellFormed)
    (hp : p.Ready s) (hf : ∀ chunk ∈ chunks, Felts chunk) :
    FailsOnly IsRefusal (verifySteps H s number p chunks) := by
  induction chunks generalizing number p with
  | nil => exact .ok _
  | cons chunk chunks ih =>
    obtain ⟨hchunk, hrest⟩ := List.forall_mem_cons.1 hf
    exact .bind (verifyStep_failsOnly hs hp hchunk) fun next hnext =>
      ih (verifyStep_ready hs hp hchunk hnext) hrest

theorem verifySteps_ready {number : Nat} {chunks : List (List Int)} (hs : s.WellFormed)
    (hp : p.Ready s) (hf : ∀ chunk ∈ chunks, Felts chunk)
    (h : verifySteps H s number p chunks = .ok next) : next.Ready s := by
  induction chunks generalizing number p with
  | nil =>
    cases h
    exact hp
  | cons chunk chunks ih =>
    obtain ⟨hchunk, hrest⟩ := List.forall_mem_cons.1 hf
    obtain ⟨q, hq, h⟩ := bind_eq_ok.1 h
    exact ih (verifyStep_ready hs hp hchunk hq) hrest h

theorem readFinal_failsOnly (s : Fri.Schedule) (p : Fri.Progress) :
    ReadFailsOnly IsRejection (readFinal s p) := by
  refine .bind (resume_reads .final s p) (resume_failsOnly .final s p) fun _ _ _ => ?_
  refine .bind (Reads.readSpan.tryCatch fun f => ?_) (ReadFailsOnly.readSpan.tryCatch ?_)
    fun _ _ _ => ?_
  · cases f <;> exact ⟨_, rfl⟩
  · rintro f ⟨cause, rfl⟩
    exact ⟨_, rfl, _, rfl⟩
  · intro taken rest _
    rw [run_bind_of_ok (run_get _)]
    split
    · exact .ok _
    · exact .error ⟨_, rfl⟩

theorem verifyFinal_failsOnly {chunk : List Int} (hs : s.WellFormed) (hp : p.Ready s)
    (hf : Felts chunk) : FailsOnly IsRejection (verifyFinal H s p chunk) := by
  refine .bind ((readFinal_failsOnly s p).ofList hf) fun coefficients h => ?_
  rw [(run_readFinal hf).1 h] at hf
  exact finish_failsOnly hs hp (felts_span.1 (felts_append.1 hf).2).2

theorem checkStreams_failsOnly (streams : List (Stream × List Int)) :
    FailsOnly IsRejection (checkStreams streams) := by
  induction streams with
  | nil => exact .ok _
  | cons s streams ih => exact .bind (checkStream_failsOnly _ _ _) fun _ _ => ih

theorem verify_failsOnly (hres : Layout.resolve name = .ok (layout, params)) (c : Chunks) :
    FailsOnly IsRefusal (verify H name c) := by
  have hp := (Layout.resolve_eq_ok.1 hres).2
  unfold verify
  refine .bind_of_ok hres (.bind (checkStreams_failsOnly _).refusal fun _ hcheck => ?_)
  obtain ⟨hfirst, hsteps, hlast⟩ := felts_streams.1 (checkStreams_eq_ok.1 hcheck)
  have hinitial := (initial_failsOnly (H := H) hp).ofList hfirst
  rcases hr : (initial H layout params).run.run (Cursor.ofList c.initial) with ⟨e | start, cursor⟩
  · rw [hr] at hinitial
    exact .error (.inl (hinitial e rfl))
  obtain ⟨sections, left, -, hpass, rfl, rfl⟩ := (Sections.initial_eq_ok hp hfirst).1 hr
  have hwell := Sections.schedule_wellFormed (H := H) hpass.valid
  have hready := Sections.start_ready (H := H) hpass.valid
  refine .bind_of_ok rfl (.ite (fun _ => FailsOnly.refusal (.reject _)) fun _ => ?_)
  refine .ite (fun _ => FailsOnly.refusal (.reject _)) fun _ => ?_
  refine .bind (verifySteps_failsOnly hwell hready hsteps) fun progress hprogress => ?_
  have hend := verifySteps_ready hwell hready hsteps hprogress
  exact (verifyFinal_failsOnly hwell hend hlast).refusal

/-! ## Texts -/

/-- The states of an accepted proof can be written into its chunks. -/
theorem cut_failsOnly {calldata : List Int} {t : Trace}
    (h : Replay.verify H name calldata = .ok t) {K : Failure → Prop} :
    FailsOnly K (cut calldata t) := by
  obtain ⟨layout, params, p, hres, hf, rfl, hp, rfl⟩ := Replay.verify_sound h
  exact .of_eq_ok (Parts.cut_trace hp.toReplays (Layout.resolve_eq_ok.1 hres).2
    (Parts.felts_calldata.1 hf).1)

/-- A scalar of the text is no felt. -/
def IsTextFailure (text : Text) (f : Failure) : Prop :=
  (∃ cause, f = .encoding cause) ∧ Proof.calldataOf text = .error f

theorem calldataOf_failsOnly (text : Text) :
    FailsOnly (fun f => f.IsMalformed ∨ IsTextFailure text f) (Proof.calldataOf text) := by
  have hkinds : FailsOnly (fun f => f.IsMalformed ∨ ∃ cause, f = .encoding cause)
      (Proof.calldataOf text) :=
    .bind (.mapError fun cause => .inl ⟨cause, rfl⟩) fun _ _ =>
      .mapError fun cause => .inr ⟨cause, rfl⟩
  exact fun f hf => (hkinds f hf).imp_right fun hcause => ⟨hcause, hf⟩

theorem split_failsOnly (hres : Layout.resolve name = .ok (layout, params)) (text : Text) :
    FailsOnly (fun f => f.IsRefusal ∨ IsTextFailure text f) (split H text name) := by
  refine .bind_of_ok hres (.bind ?_ fun calldata _ => ?_)
  · exact (calldataOf_failsOnly text).mono fun _ h => h.imp_left .inr
  · refine .bind ((Replay.verify_failsOnly hres calldata).mono fun _ => .inl) fun t ht => ?_
    exact cut_failsOnly ht

/-! ## Any layout -/

/-- The layout comes first: without a verifier for it nothing that is submitted is looked at. -/
theorem unresolved {e : Failure} (h : Layout.resolve name = .error e) :
    (∀ calldata, Replay.verify H name calldata = .error e) ∧
      (∀ c, verify H name c = .error e) ∧ ∀ text, split H text name = .error e := by
  refine ⟨fun calldata => ?_, fun c => ?_, fun text => ?_⟩
  · rw [Replay.verify, h]
    rfl
  · rw [verify, h]
    rfl
  · rw [split, h]
    rfl

theorem not_isUnsupportedLayout {text : Text} {f : Failure}
    (h : f.IsRefusal ∨ IsTextFailure text f) : ¬f.IsUnsupportedLayout := by
  rintro ⟨unsupported, rfl⟩
  obtain (⟨_, h⟩ | ⟨_, h⟩) | ⟨⟨_, h⟩, -⟩ := h <;> cases h

/-- A verification that does not accept answers with a verdict. Splitting may also find a scalar of
the text that is no felt, and finds an unsupported layout whatever the text is. -/
theorem fails_only_with_verdicts (H : Hash) (name : Text) :
    (∀ calldata, FailsOnly IsVerdict (Replay.verify H name calldata)) ∧
      (∀ c, FailsOnly IsVerdict (verify H name c)) ∧
        (∀ text, FailsOnly (fun f => f.IsVerdict ∨ IsTextFailure text f) (split H text name)) ∧
          ∀ text unsupported, split H text name = .error (.unsupportedLayout unsupported) ↔
            Layout.resolve name = .error (.unsupportedLayout unsupported) := by
  have hrefusal : ∀ f : Failure, f.IsRefusal → f.IsVerdict := fun f h => h.imp_right .inl
  rcases hres : Layout.resolve name with e | ⟨layout, params⟩
  · obtain ⟨hverify, hchunks, hsplit⟩ := unresolved (H := H) hres
    have he : e.IsVerdict := .inr (.inr (Layout.resolve_failsOnly name e hres))
    refine ⟨fun calldata => ?_, fun c => ?_, fun text => ?_, fun text unsupported => ?_⟩
    · rw [hverify]
      exact .error he
    · rw [hchunks]
      exact .error he
    · rw [hsplit]
      exact .error (.inl he)
    · rw [hsplit]
      simp
  · refine ⟨fun calldata => (Replay.verify_failsOnly hres calldata).mono hrefusal,
      fun c => (verify_failsOnly hres c).mono hrefusal,
      fun text => (split_failsOnly hres text).mono fun f => Or.imp_left (hrefusal f),
      fun text unsupported => iff_of_false (fun h => ?_) nofun⟩
    exact not_isUnsupportedLayout (split_failsOnly hres text _ h) ⟨unsupported, rfl⟩

end Split

end StarkReplay
