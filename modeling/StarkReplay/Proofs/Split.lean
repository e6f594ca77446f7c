import StarkReplay.Proofs.Chunks

/-!
Verification of split calldata. It accepts exactly the chunks of parts that pass all checks, where
the last chunk holds coefficients with the digest that the first one fixes. So a proof and the
chunks that it is cut into are accepted together, unless two lists of coefficients have one digest.
-/
namespace StarkReplay.Split

open Cursor (between)
open Replay (Parts)

/-! ## One chunk -/

/-- A chunk is resumed at the state reached and at no other one. -/
theorem resume_reads (stream : Stream) (s : Fri.Schedule) (p : Fri.Progress) :
    Reads (resume stream s p) (fun _ => True) (fun _ => stateFlat (s, p)) := by
  have h : Reads (resume stream s p) (fun _ => True) fun _ => stateFlat (s, p) ++ [] := by
    refine Reads.field (fun _ : Unit => (s, p)) (readState_reads.tryCatch fun f => ?_)
      fun found => ?_
    · cases f <;> exact ⟨_, rfl⟩
    obtain ⟨schedule, progress⟩ := found
    dsimp only
    split
    · rename_i hs
      exact (Reads.throw _).congr (fun _ => by simp [Ne.symm hs]) fun _ _ => rfl
    · rename_i hs
      split
      · rename_i hp
        exact (Reads.throw _).congr (fun _ => by simp [Ne.symm hp]) fun _ _ => rfl
      · rename_i hp
        obtain rfl := Decidable.not_not.1 hs
        obtain rfl := Decidable.not_not.1 hp
        exact (Reads.pure ()).congr (fun _ => by simp) fun _ _ => rfl
  exact h.congr (fun _ => Iff.rfl) fun _ _ => by simp

theorem verifyStep_eq_ok {H : Hash} {s : Fri.Schedule} {p next : Fri.Progress} {number : Nat}
    {chunk : List Int} (hf : Felts chunk) :
    verifyStep H s p number chunk = .ok next ↔
      ∃ layer, chunk = stateFlat (s, p) ++ Opening.flat layer ∧
        Replay.step H s p layer = .ok next := by
  have hreads := resume_reads (.step number) s p
  unfold verifyStep
  rw [Cursor.ofList_eq_between]
  constructor
  · intro h
    rcases hr : (resume (.step number) s p).run.run (between [] chunk) with ⟨_ | _, cursor⟩
    · simp only [hr] at h
      cases h
    · simp only [hr] at h
      obtain ⟨-, left, rfl, rfl⟩ := hreads.sound hf hr
      obtain ⟨_, -, h⟩ := bind_eq_ok.1 h
      have hleft := (felts_append.1 hf).2
      rw [List.nil_append, Cursor.offset_between, Cursor.slice_left] at h
      obtain ⟨layers, hlayers, hstep⟩ := bind_eq_ok.1 h
      obtain rfl := (Fri.layersOf_eq_ok hleft).1 hlayers
      split at hstep
      · exact ⟨_, by simp, hstep⟩
      · cases hstep
  · rintro ⟨layer, rfl, hstep⟩
    have hlayers : Fri.layersOf layer.flat = .ok [layer] := by
      have := Fri.layersOf_flatMap [layer]
      rwa [List.flatMap_cons, List.flatMap_nil, List.append_nil] at this
    have hrun : (resume (.step number) s p).run.run (between [] (stateFlat (s, p) ++ layer.flat)) =
        (.ok (), between (stateFlat (s, p)) layer.flat) := hreads.complete trivial [] layer.flat
    simp only [hrun]
    rw [bind_eq_ok]
    refine ⟨_, rfl, ?_⟩
    rw [Cursor.offset_between, Cursor.slice_left, hlayers]
    exact hstep

theorem run_readFinal {s : Fri.Schedule} {p : Fri.Progress} {chunk coefficients : List Int}
    (hf : Felts chunk) : ((readFinal s p).run.run (Cursor.ofList chunk)).1 = .ok coefficients ↔
      chunk = stateFlat (s, p) ++ Cursor.span coefficients := by
  have hresume := resume_reads .final s p
  rw [Cursor.ofList_eq_between, readFinal]
  constructor
  · intro h
    rcases hr : (readFinal s p).run.run (between [] chunk) with ⟨outcome, cursor⟩
    have ho : outcome = .ok coefficients := by
      rw [← h, ← readFinal, hr]
    rw [ho, readFinal] at hr
    obtain ⟨_, _, hstate, hr⟩ := run_bind_eq_ok.1 hr
    obtain ⟨-, left, rfl, rfl⟩ := hresume.sound hf hstate
    obtain ⟨cs, _, hcs, hr⟩ := run_bind_eq_ok.1 hr
    obtain ⟨-, left, rfl, rfl⟩ := (Reads.readSpan.tryCatch
      (by intro f; cases f <;> exact ⟨_, rfl⟩)).sound (felts_append.1 hf).2 hcs
    rw [run_bind_of_ok (run_get _), Cursor.atEnd_between] at hr
    split at hr
    · rename_i hleft
      rw [run_pure] at hr
      cases hr
      rw [List.isEmpty_iff.1 hleft, List.append_nil]
    · cases hr
  · rintro rfl
    have hstate : (resume .final s p).run.run
        (between [] (stateFlat (s, p) ++ Cursor.span coefficients)) =
        (.ok (), between (stateFlat (s, p)) (Cursor.span coefficients)) :=
      hresume.complete trivial [] _
    rw [run_bind_of_ok hstate, ← List.append_nil (Cursor.span coefficients),
      run_bind_of_ok ((Reads.readSpan.tryCatch ?_).complete trivial _ []),
      run_bind_of_ok (run_get _), if_pos (by simp), run_pure]
    intro f
    cases f <;> exact ⟨_, rfl⟩

theorem verifyFinal_eq_ok {H : Hash} {s : Fri.Schedule} {p : Fri.Progress} {chunk : List Int}
    (hf : Felts chunk) : verifyFinal H s p chunk = .ok () ↔ ∃ coefficients,
      chunk = stateFlat (s, p) ++ Cursor.span coefficients ∧
        Replay.finish H s p coefficients = .ok () := by
  simp only [verifyFinal, bind_eq_ok, run_readFinal hf]

/-! ## The chunks of the layers -/

/-- The chunks of the layers hold a run of rounds, each behind the state it starts from. -/
theorem verifySteps_eq_ok {H : Hash} {s : Fri.Schedule} {p last : Fri.Progress} {number : Nat}
    {chunks : List (List Int)} (hf : ∀ chunk ∈ chunks, Felts chunk) :
    verifySteps H s number p chunks = .ok last ↔ ∃ layers before,
      Felts (layers.flatMap Opening.flat) ∧
        Replay.states H s p layers = .ok (before ++ [last]) ∧
          chunks = List.zipWith (fun q layer => stateFlat (s, q) ++ Opening.flat layer)
            before layers := by
  -- the state that is resumed is the one reached, so it is the next one of the run
  induction chunks generalizing number p with
  | nil =>
    constructor
    · intro h
      cases h
      exact ⟨[], [], felts_nil, rfl, rfl⟩
    · rintro ⟨layers, before, -, hstates, hchunks⟩
      cases layers with
      | nil =>
        have hone : [p] = before ++ [last] := Except.ok.inj hstates
        cases before with
        | nil =>
          cases hone
          rfl
        | cons q before => simp at hone
      | cons layer layers =>
        have hlength := Replay.length_states hstates
        cases before with
        | nil => simp at hlength
        | cons q before => cases hchunks
  | cons chunk chunks ih =>
    obtain ⟨hchunk, hrest⟩ := List.forall_mem_cons.1 hf
    rw [verifySteps, bind_eq_ok]
    constructor
    · rintro ⟨next, hresumed, h⟩
      obtain ⟨layer, rfl, hstep⟩ := (verifyStep_eq_ok hchunk).1 hresumed
      obtain ⟨layers, before, hlayers, hstates, rfl⟩ := (ih hrest).1 h
      refine ⟨layer :: layers, p :: before, ?_, ?_, rfl⟩
      · rw [List.flatMap_cons]
        exact felts_append.2 ⟨(felts_append.1 hchunk).2, hlayers⟩
      · exact bind_eq_ok.2 ⟨next, hstep, bind_eq_ok.2 ⟨_, hstates, rfl⟩⟩
    · rintro ⟨layers, before, hlayers, hstates, hchunks⟩
      obtain ⟨q, before, rfl⟩ : ∃ q rest, before = q :: rest := by
        cases before with
        | nil => cases hchunks
        | cons q before => exact ⟨q, before, rfl⟩
      obtain ⟨layer, layers, rfl⟩ : ∃ layer rest, layers = layer :: rest := by
        cases layers with
        | nil => cases hchunks
        | cons layer layers => exact ⟨layer, layers, rfl⟩
      obtain ⟨next, hstep, h⟩ := bind_eq_ok.1 hstates
      obtain ⟨rest, hstates, h⟩ := bind_eq_ok.1 h
      obtain ⟨rfl, rfl⟩ := List.cons.inj (pure_eq_ok.1 h)
      obtain ⟨rfl, rfl⟩ := List.cons.inj hchunks
      rw [List.flatMap_cons, felts_append] at hlayers
      exact ⟨next, (verifyStep_eq_ok hchunk).2 ⟨layer, rfl, hstep⟩,
        (ih hrest).2 ⟨layers, before, hlayers.2, hstates, rfl⟩⟩

/-- From checked sections on, the chunks of as many layers as are declared are those of parts. -/
theorem verifySteps_start {H : Hash} {layout : Layout} {params : Layout.Params}
    {s : Replay.Sections} {steps : List (List Int)} {last : Fri.Progress}
    (hs : s.Valid layout params) (hf : ∀ step ∈ steps, Felts step)
    (hcount : (steps.length : Int) = s.config.layers) :
    verifySteps H (s.schedule H) 1 (s.start H params).progress steps = .ok last ↔
      ∃ layers, Felts (layers.flatMap Opening.flat) ∧ layers.length = steps.length ∧
        (∀ i < layers.length, Parts.Consistent H params ⟨s, layers⟩ i) ∧
          steps = Parts.steps H params ⟨s, layers⟩ ∧
            last = Parts.progress H params ⟨s, layers⟩ layers.length := by
  have hrange : ∀ p : Parts, (List.range (p.layers.length + 1)).map (p.progress H params) =
      (List.range p.layers.length).map (p.progress H params) ++
        [p.progress H params p.layers.length] := by
    intro p
    rw [List.range_succ, List.map_append, List.map_singleton]
  rw [verifySteps_eq_ok hf]
  constructor
  · rintro ⟨layers, before, hlayers, hstates, hsteps⟩
    have hlength : layers.length = steps.length := by
      have hbefore := Replay.length_states hstates
      rw [List.length_append, List.length_singleton] at hbefore
      rw [hsteps, List.length_zipWith]
      omega
    rw [← Parts.progress_zero (p := ⟨s, layers⟩)] at hstates
    rw [← hlength] at hcount
    obtain ⟨hrounds, hbefore⟩ := (Parts.states_eq_ok (p := ⟨s, layers⟩) hs hcount hlayers).1 hstates
    rw [hrange] at hbefore
    obtain ⟨rfl, hlast⟩ := List.append_inj' hbefore rfl
    refine ⟨layers, hlayers, hlength, hrounds, ?_, List.singleton_inj.1 hlast⟩
    rw [Parts.steps_eq_zipWith]
    exact hsteps
  · rintro ⟨layers, hlayers, hlength, hrounds, hsteps, rfl⟩
    rw [← hlength] at hcount
    have hstates := (Parts.states_eq_ok (p := ⟨s, layers⟩) hs hcount hlayers).2 ⟨hrounds, rfl⟩
    rw [hrange, Parts.progress_zero] at hstates
    rw [Parts.steps_eq_zipWith] at hsteps
    exact ⟨layers, _, hlayers, hstates, hsteps⟩

/-! ## All chunks -/

theorem checkStreams_eq_ok {streams : List (Stream × List Int)} :
    checkStreams streams = .ok () ↔ ∀ s ∈ streams, Felts s.2 := by
  induction streams with
  | nil => simp [checkStreams]
  | cons s streams ih =>
    rw [checkStreams, bind_eq_ok, List.forall_mem_cons, ← ih]
    constructor
    · rintro ⟨_, hs, hrest⟩
      exact ⟨Replay.checkStream_eq_ok.1 hs, hrest⟩
    · rintro ⟨hs, hrest⟩
      exact ⟨(), Replay.checkStream_eq_ok.2 hs, hrest⟩

theorem verify_sound {H : Hash} {name : Text} {c : Chunks} (h : verify H name c = .ok ()) :
    ∃ layout params p coefficients, Layout.resolve name = .ok (layout, params) ∧
      (∀ s ∈ c.streams, Felts s.2) ∧ c = Parts.chunks H params p coefficients ∧
        p.Replays H params layout ∧ p.Ends H params coefficients ∧
          Digest.feltOf H coefficients = Digest.feltOf H p.sections.commitments.coefficients := by
  obtain ⟨⟨layout, params⟩, hres, h⟩ := bind_eq_ok.1 h
  have hparams := (Layout.resolve_eq_ok.1 hres).2
  obtain ⟨_, hstreams, h⟩ := bind_eq_ok.1 h
  have hstreams := checkStreams_eq_ok.1 hstreams
  obtain ⟨hinitial, hsteps, hfinal⟩ := felts_streams.1 hstreams
  rcases hr : (Replay.initial H layout params).run.run (Cursor.ofList c.initial) with
    ⟨_ | start, cursor⟩
  · simp only [hr] at h
    cases h
  · simp only [hr] at h
    obtain ⟨_, hstart, h⟩ := bind_eq_ok.1 h
    cases hstart
    obtain ⟨s, left, hs, hpass, rfl, rfl⟩ := (Replay.Sections.initial_eq_ok hparams hinitial).1 hr
    obtain ⟨hend, h⟩ := ite_reject_eq_ok.1 h
    obtain ⟨hcount, h⟩ := ite_reject_eq_ok.1 h
    have hcount : (c.steps.length : Int) = s.config.layers := Decidable.not_not.1 hcount
    obtain ⟨last, hlast, h⟩ := bind_eq_ok.1 h
    obtain ⟨layers, -, hlength, hrounds, hchunks, rfl⟩ :=
      (verifySteps_start hpass.valid hsteps hcount).1 hlast
    obtain ⟨coefficients, hcs, hfinish⟩ := (verifyFinal_eq_ok hfinal).1 h
    rw [← hlength] at hcount
    have hfelts : Felts coefficients := by
      rw [hcs, felts_append, felts_span] at hfinal
      exact hfinal.2.2
    obtain ⟨hdigest, hends⟩ :=
      (Parts.finish_eq_ok (p := ⟨s, layers⟩) hpass.valid hcount hfelts).1 hfinish
    refine ⟨layout, params, ⟨s, layers⟩, coefficients, hres, hstreams, ?_,
      ⟨hpass, hcount, hrounds⟩, hends, hdigest⟩
    have hleft : left = [] := by simpa using hend
    obtain ⟨initial, steps, final⟩ := c
    simp only at hs hchunks hcs
    rw [hs, hleft, hchunks, hcs, List.append_nil]
    rfl

/-- Behind an initial chunk of sections that pass, the other chunks are verified from the state that
the sections lead to. -/
theorem verify_of_passes {H : Hash} {name : Text} {layout : Layout} {params : Layout.Params}
    {s : Replay.Sections} {c : Chunks} (hres : Layout.resolve name = .ok (layout, params))
    (hf : ∀ stream ∈ c.streams, Felts stream.2) (hs : s.Passes H layout params)
    (hinitial : c.initial = s.flat) :
    verify H name c =
      if (c.steps.length : Int) ≠ s.config.layers then
        reject (.chunkCount s.config.layers c.steps.length)
      else verifySteps H (s.schedule H) 1 (s.start H params).progress c.steps >>=
        fun progress => verifyFinal H (s.schedule H) progress c.final := by
  have hparams := (Layout.resolve_eq_ok.1 hres).2
  have hrun := (Replay.Sections.initial_eq_ok (H := H) hparams (felts_streams.1 hf).1).2
    ⟨s, [], by rw [hinitial, List.append_nil], hs, rfl, rfl⟩
  rw [verify, hres, ok_bind]
  dsimp only
  rw [checkStreams_eq_ok.2 hf, ok_bind, hrun]
  dsimp only
  rw [ok_bind, if_neg (by simp)]
  rfl

theorem verify_complete {H : Hash} {name : Text} {layout : Layout} {params : Layout.Params}
    {p : Parts} {coefficients : List Int} (hres : Layout.resolve name = .ok (layout, params))
    (hf : ∀ s ∈ (p.chunks H params coefficients).streams, Felts s.2)
    (hp : p.Replays H params layout) (hends : p.Ends H params coefficients)
    (hdigest : Digest.feltOf H coefficients =
      Digest.feltOf H p.sections.commitments.coefficients) :
    verify H name (p.chunks H params coefficients) = .ok () := by
  obtain ⟨-, hsteps, hfinal⟩ := felts_streams.1 hf
  have hvalid := hp.initial.valid
  have hlayers := (Parts.felts_calldata.1 (Parts.felts_calldata_of_chunks hf)).2
  have hcount : ((p.steps H params).length : Int) = p.sections.config.layers := by
    rw [Parts.length_steps]
    exact hp.layers
  have hlast := (verifySteps_start hvalid hsteps hcount).2
    ⟨p.layers, hlayers, by simp [Parts.chunks], hp.rounds, rfl, rfl⟩
  have hcs : Felts coefficients := by
    have hspan := (felts_append.1 hfinal).2
    exact (felts_span.1 hspan).2
  have hfinish := (verifyFinal_eq_ok hfinal).2
    ⟨coefficients, rfl, (Parts.finish_eq_ok hvalid hp.layers hcs).2 ⟨hdigest, hends⟩⟩
  rw [verify_of_passes hres hf hp.initial rfl]
  exact ite_reject_eq_ok.2 ⟨Decidable.not_not.2 hcount, bind_eq_ok.2 ⟨_, hlast, hfinish⟩⟩

/-- The last chunk holds other coefficients than the first one, with the same digest. -/
def Collision (H : Hash) (c : Chunks) : Prop :=
  ∃ s state coefficients, c.initial = Replay.Sections.flat s ∧
    c.final = stateFlat state ++ Cursor.span coefficients ∧
      coefficients ≠ s.commitments.coefficients ∧
        ∃ d, Digest.felt H coefficients = .ok d ∧ Digest.felt H s.commitments.coefficients = .ok d

/-- Accepted chunks are those of an accepted proof, unless there is a collision. -/
theorem verify_join_or_collision {H : Hash} {name : Text} {c : Chunks}
    (h : verify H name c = .ok ()) :
    (∃ t, Replay.verify H name c.join = .ok t ∧ cut c.join t = .ok c) ∨ Collision H c := by
  obtain ⟨layout, params, p, coefficients, hres, hf, rfl, hp, hends, hdigest⟩ := verify_sound h
  have hparams := (Layout.resolve_eq_ok.1 hres).2
  have hcalldata := Parts.felts_calldata_of_chunks hf
  have hsections := (Parts.felts_calldata.1 hcalldata).1
  by_cases hcs : coefficients = p.sections.commitments.coefficients
  · subst hcs
    refine .inl ⟨p.trace H params, ?_, ?_⟩
    · rw [Parts.join_chunks]
      exact Replay.verify_complete hres hcalldata ⟨hp, hends⟩
    · rw [Parts.join_chunks]
      exact Parts.cut_trace hp hparams hsections
  · have hfinal := (felts_append.1 (felts_streams.1 hf).2.2).2
    have hcommitted := Replay.Sections.felts_coefficients hsections
    refine .inr ⟨p.sections, _, coefficients, rfl, rfl, hcs,
      Digest.feltOf H coefficients, Digest.felt_of_felts (felts_span.1 hfinal).2, ?_⟩
    rw [hdigest]
    exact Digest.felt_of_felts (felts_span.1 hcommitted).2

/-- The chunks of the small proof. -/
def Chunks.small : Chunks where
  initial := (Parts.small [9]).sections.flat
  steps := [
    [2, 2, 70, 7, 2, 9, 23, 2, 2, 1, 28] ++ [0, 4, 25, 8, 12, 25] ++
      [8, 2, 8, 0, 1, 25, 0, 0, 0, 1, 8],
    [2, 2, 70, 7, 2, 9, 23, 2, 2, 1, 28] ++ [1, 4, 6, 803, 3, 25] ++
      [4, 803, 8, 4, 25, 1, 9]]
  final := [2, 2, 70, 7, 2, 9, 23, 2, 2, 1, 28] ++ [2, 4, 3, 987, 1, 579] ++ [2, 375, 204]

theorem verify_join_or_collision_small :
    verify Replay.smallHash Layout.recursive.name .small = .ok () ∧
      ((∃ t, Replay.verify Replay.smallHash Layout.recursive.name Chunks.small.join = .ok t ∧
        cut Chunks.small.join t = .ok .small) ∨ Collision Replay.smallHash .small) := by
  have h : verify Replay.smallHash Layout.recursive.name .small = .ok () := by decide +kernel
  exact ⟨h, verify_join_or_collision h⟩

/-- A text is split into the chunks of the accepted proof that it spells. -/
theorem exists_parts_of_split {H : Hash} {text name : Text} {c : Chunks}
    (h : split H text name = .ok c) : ∃ (layout : Layout) (params : Layout.Params) (p : Parts),
      Layout.resolve name = .ok (layout, params) ∧ Felts p.calldata ∧
        Proof.calldataOf text = .ok p.calldata ∧
        Replay.verify H name p.calldata = .ok (p.trace H params) ∧ p.Accepted H params layout ∧
        c = p.chunks H params p.sections.commitments.coefficients := by
  obtain ⟨-, -, h⟩ := bind_eq_ok.1 h
  obtain ⟨calldata, htext, h⟩ := bind_eq_ok.1 h
  obtain ⟨t, hverify, hcut⟩ := bind_eq_ok.1 h
  obtain ⟨layout, params, p, hres, hf, rfl, hp, rfl⟩ := Replay.verify_sound hverify
  have hcut' := Parts.cut_trace hp.toReplays (Layout.resolve_eq_ok.1 hres).2
    (Parts.felts_calldata.1 hf).1
  exact ⟨layout, params, p, hres, hf, htext, hverify, hp, Except.ok.inj (hcut.symm.trans hcut')⟩

/-- An accepted proof is cut into chunks of felts that are accepted, and so is a text of it. -/
theorem cut_verifies {H : Hash} {name : Text} {calldata : List Int} {t : Replay.Trace}
    (h : Replay.verify H name calldata = .ok t) :
    ∃ c, cut calldata t = .ok c ∧ verify H name c = .ok () ∧ (∀ s ∈ c.streams, Felts s.2) ∧
      ∀ text, Proof.calldataOf text = .ok calldata → split H text name = .ok c := by
  have hverify := h
  obtain ⟨layout, params, p, hres, hf, rfl, hp, rfl⟩ := Replay.verify_sound h
  have hparams := (Layout.resolve_eq_ok.1 hres).2
  have hsections := (Parts.felts_calldata.1 hf).1
  have hcut := Parts.cut_trace hp.toReplays hparams hsections
  have hstreams := Parts.felts_chunks hp.toReplays hparams hf
    (Replay.Sections.felts_coefficients hsections)
  refine ⟨_, hcut, verify_complete hres hstreams hp.toReplays hp.ends rfl, hstreams, ?_⟩
  intro text htext
  rw [split, hres, bind_eq_ok]
  exact ⟨_, rfl, bind_eq_ok.2 ⟨_, htext, bind_eq_ok.2 ⟨_, hverify, hcut⟩⟩⟩

theorem cut_verifies_small :
    Replay.verify Replay.smallHash Layout.recursive.name (Parts.small [9]).calldata =
      .ok (.small [9]) ∧
    ∃ c, cut (Parts.small [9]).calldata (.small [9]) = .ok c ∧
      verify Replay.smallHash Layout.recursive.name c = .ok () ∧
      (∀ s ∈ c.streams, Felts s.2) ∧
        ∀ text, Proof.calldataOf text = .ok (Parts.small [9]).calldata →
          split Replay.smallHash text Layout.recursive.name = .ok c := by
  have h : Replay.verify Replay.smallHash Layout.recursive.name (Parts.small [9]).calldata =
      .ok (.small [9]) := by decide +kernel
  exact ⟨h, cut_verifies h⟩

end StarkReplay.Split
