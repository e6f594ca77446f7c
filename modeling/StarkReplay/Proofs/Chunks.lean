import StarkReplay.Proofs.Verifier
import StarkReplay.Split.Verify

/-!
The chunks of a proof. They are given in closed form by its parts: the sections, then each layer
behind the state before its round, then the last layer behind the last state. Cutting the calldata
at its trace gives these chunks, all of felts, and putting them together gives the calldata back.
-/
namespace StarkReplay

namespace Split

/-- The flat forms of a schedule and of a progress. -/
def stateFlat (state : Fri.Schedule × Fri.Progress) : List Int := state.1.flat ++ state.2.flat

theorem readState_reads : Reads readState (fun _ => True) stateFlat := by
  have h : Reads readState (fun _ => True) _ :=
    .field Prod.fst Fri.Schedule.reads fun _ =>
    .field Prod.snd Fri.Progress.reads fun _ =>
    (Reads.pure _).congr (fun s => by cases s; simp) fun _ _ => rfl
  exact h.congr (fun _ => Iff.rfl) fun s _ => by simp [stateFlat]

theorem layerPart_append (state : Fri.Schedule × Fri.Progress) (left : List Int) :
    layerPart (stateFlat state ++ left) = left := by
  have h := readState_reads.complete (a := state) trivial [] left
  unfold layerPart
  rw [Cursor.ofList_eq_between, h]
  exact Cursor.slice_left _ _

theorem chunk_of_felts {s : Fri.Schedule} {p : Fri.Progress} (hs : Felts s.flat)
    (hp : Felts p.flat) (witness : List Int) :
    chunk s p witness = .ok (stateFlat (s, p) ++ witness) := by
  rw [chunk, Fri.Schedule.encode_of_felts hs, Fri.Progress.encode_of_felts hp]
  rfl

theorem chunks_of_felts {s : Fri.Schedule} (hs : Felts s.flat) {states : List Fri.Progress}
    (hstates : ∀ p ∈ states, Felts p.flat) (witnesses : List (List Int)) :
    chunks s states witnesses =
      .ok (List.zipWith (fun p witness => stateFlat (s, p) ++ witness) states witnesses) := by
  induction states generalizing witnesses with
  | nil => rfl
  | cons p states ih =>
    obtain ⟨hp, hrest⟩ := List.forall_mem_cons.1 hstates
    cases witnesses with
    | nil => rfl
    | cons witness witnesses =>
      rw [chunks, chunk_of_felts hs hp, ih hrest]
      rfl

theorem forall_mem_numbered {P : List Int → Prop} {n : Nat} {cs : List (List Int)} :
    (∀ s ∈ Chunks.numbered n cs, P s.2) ↔ ∀ c ∈ cs, P c := by
  induction cs generalizing n with
  | nil => simp [Chunks.numbered]
  | cons c cs ih => simp only [Chunks.numbered, List.forall_mem_cons, ih]

theorem felts_streams {c : Chunks} : (∀ s ∈ c.streams, Felts s.2) ↔
    Felts c.initial ∧ (∀ step ∈ c.steps, Felts step) ∧ Felts c.final := by
  simp only [Chunks.streams, List.cons_append, List.forall_mem_cons, List.forall_mem_append,
    forall_mem_numbered, List.not_mem_nil, false_imp_iff, implies_true, and_true]

end Split

namespace Replay.Parts

open Split (stateFlat)

variable (H : Hash) (params : Layout.Params) (p : Parts)

/-- The state before a round. -/
def state (i : Nat) : Fri.Schedule × Fri.Progress := (p.sections.schedule H, p.progress H params i)

/-- Each layer behind the state before its round. -/
def steps : List (List Int) := (List.range p.layers.length).map fun i =>
  stateFlat (p.state H params i) ++ (p.layer i).flat

/-- The chunks, with the coefficients that the last one holds. -/
def chunks (coefficients : List Int) : Split.Chunks where
  initial := p.sections.flat
  steps := p.steps H params
  final := stateFlat (p.state H params p.layers.length) ++ Cursor.span coefficients

variable {H params p} {layout : Layout}

theorem layers_eq_map : p.layers = (List.range p.layers.length).map p.layer := by
  refine List.ext_getElem (by simp) fun i hi _ => ?_
  rw [List.getElem_map, List.getElem_range, layer_eq_getElem hi]

theorem steps_eq_zipWith : p.steps H params =
    List.zipWith (fun q layer => stateFlat (p.sections.schedule H, q) ++ Opening.flat layer)
      ((List.range p.layers.length).map (p.progress H params)) p.layers := by
  conv_rhs => rw [layers_eq_map, List.length_map, List.length_range]
  rw [List.zipWith_map, List.zipWith_self]
  rfl

@[simp] theorem length_steps : (p.steps H params).length = p.layers.length := by
  simp [steps]

theorem getElem_steps {i : Nat} (hi : i < (p.steps H params).length) :
    (p.steps H params)[i] = stateFlat (p.state H params i) ++ (p.layer i).flat := by
  simp [steps]

theorem join_chunks (coefficients : List Int) :
    (p.chunks H params coefficients).join = p.calldata := by
  have hsteps : (p.steps H params).flatMap Split.layerPart = p.layers.flatMap Opening.flat := calc
    _ = (List.range p.layers.length).flatMap fun i => (p.layer i).flat := by
      simp only [steps, List.flatMap_map, Split.layerPart_append]
    _ = ((List.range p.layers.length).map p.layer).flatMap Opening.flat :=
      (List.flatMap_map _ _ _).symm
    _ = p.layers.flatMap Opening.flat := by rw [← layers_eq_map]
  rw [Split.Chunks.join, chunks, hsteps]
  rfl

/-! ## Felts -/

theorem felts_schedule (hs : p.sections.Valid layout params) (hf : Felts p.sections.flat) :
    Felts (p.sections.schedule H).flat := by
  obtain ⟨hconfig, -, hcommitments, -⟩ := Sections.felts_parts hf
  simp only [Config.flat, felts_append, felts_span] at hconfig
  simp only [Commitments.flat, felts_append, felts_span] at hcommitments
  have hsizes : Felts p.sections.config.stepSizes.tail := by
    rw [← List.drop_one]
    exact hconfig.1.2.2.drop 1
  have hlayers := hs.config.layers
  have hcount : IsFelt p.sections.config.layers :=
    isFelt_of_lt (by omega) (Int.lt_of_le_of_lt hlayers.2 (by decide))
  have hlength : (p.sections.config.stepSizes.tail.length : Int) = p.sections.config.layers := by
    rw [List.length_tail]
    unfold Config.layers at *
    omega
  have hpoints : Felts ((List.range p.sections.commitments.friLayers.length).map
      (p.sections.evalPoint H)) := by
    intro v hv
    obtain ⟨i, -, rfl⟩ := List.mem_map.1 hv
    exact Digest.isFelt_feltOf H _
  simp only [Fri.Schedule.flat, Sections.schedule, felts_append, felts_span, felts_cons, felts_nil,
    and_true, List.length_map, List.length_range, hlength]
  exact ⟨⟨⟨⟨hcount, hcommitments.1.1.2⟩, hcommitments.1.1.2.1, hpoints⟩, hcount, hsizes⟩,
    Digest.isFelt_feltOf H _⟩

/-- The query state holds two elements a query. -/
theorem felts_progress (hp : p.sections.Passes H layout params)
    (hparams : layout.params? = some params) (hf : Felts p.sections.flat) {i : Nat} (hi : i ≤ 15) :
    Felts (p.progress H params i).flat := by
  have htwo := hp.opened.isFelt_two_count hparams hf
  have hlength : (p.progress H params i).elements.length = p.sections.count * 2 := by
    simp [Fri.Progress.elements, progress, List.length_flatMap, Function.comp_def]
  have helements : Felts (p.progress H params i).elements := by
    simp only [Fri.Progress.elements, progress, felts_flatMap, List.mem_map]
    rintro _ ⟨j, -, rfl⟩
    simp [isFelt_index hp.valid, isFelt_value]
  have hround : IsFelt (i : Int) := isFelt_of_lt (by omega) (by omega)
  simp only [Fri.Progress.flat, felts_append, felts_cons, felts_nil, and_true, felts_span, hlength]
  exact ⟨hround, htwo, helements⟩

theorem Replays.le_fifteen (h : p.Replays H params layout) : p.layers.length ≤ 15 := by
  have hlayers := h.layers
  have hmax := h.initial.valid.config.layers
  omega

theorem felts_state (h : p.Replays H params layout) (hparams : layout.params? = some params)
    (hf : Felts p.sections.flat) {i : Nat} (hi : i ≤ p.layers.length) :
    Felts (stateFlat (p.state H params i)) :=
  felts_append.2 ⟨felts_schedule h.initial.valid hf,
    felts_progress h.initial hparams hf (hi.trans h.le_fifteen)⟩

theorem felts_chunks (h : p.Replays H params layout) (hparams : layout.params? = some params)
    (hf : Felts p.calldata) {coefficients : List Int} (hcs : Felts (Cursor.span coefficients)) :
    ∀ s ∈ (p.chunks H params coefficients).streams, Felts s.2 := by
  obtain ⟨hsections, hlayers⟩ := felts_calldata.1 hf
  refine Split.felts_streams.2 ⟨hsections, ?_, ?_⟩
  · intro step hstep
    obtain ⟨i, hi, rfl⟩ := List.mem_map.1 hstep
    have hi := List.mem_range.1 hi
    exact felts_append.2 ⟨felts_state h hparams hsections hi.le, felts_layer hlayers hi⟩
  · exact felts_append.2 ⟨felts_state h hparams hsections (Nat.le_refl _), hcs⟩

theorem felts_layers_of_steps (hf : ∀ step ∈ p.steps H params, Felts step) :
    Felts (p.layers.flatMap Opening.flat) := by
  apply felts_flatMap.2
  intro layer hlayer
  rw [layers_eq_map (p := p)] at hlayer
  obtain ⟨i, hi, rfl⟩ := List.mem_map.1 hlayer
  exact (felts_append.1 (hf _ (List.mem_map_of_mem hi))).2

theorem felts_calldata_of_chunks {coefficients : List Int}
    (hf : ∀ s ∈ (p.chunks H params coefficients).streams, Felts s.2) : Felts p.calldata := by
  obtain ⟨hsections, hsteps, -⟩ := Split.felts_streams.1 hf
  exact felts_calldata.2 ⟨hsections, felts_layers_of_steps hsteps⟩

/-! ## Cutting -/

theorem cut_trace (h : p.Replays H params layout) (hparams : layout.params? = some params)
    (hf : Felts p.sections.flat) :
    Split.cut p.calldata (p.trace H params) =
      .ok (p.chunks H params p.sections.commitments.coefficients) := by
  have hstates : ∀ q ∈ (p.trace H params).states, Felts q.flat := by
    intro q hq
    obtain ⟨i, hi, rfl⟩ := List.mem_map.1 hq
    have hi := List.mem_range.1 hi
    exact felts_progress h.initial hparams hf (by have := h.le_fifteen; omega)
  have hzip : List.zipWith (fun q witness => stateFlat (p.sections.schedule H, q) ++ witness)
      (p.trace H params).states (p.trace H params).witnesses = p.steps H params ++
          [(p.chunks H params p.sections.commitments.coefficients).final] := by
    simp only [trace, List.range_succ, List.map_append, List.map_singleton]
    rw [List.zipWith_append (by simp), List.zipWith_map_right, ← steps_eq_zipWith]
    rfl
  have hcut := Split.chunks_of_felts (felts_schedule (H := H) h.initial.valid hf) hstates
    (p.trace H params).witnesses
  have hslice : Cursor.slice p.calldata 0 (p.trace H params).initialLength = p.sections.flat := by
    rw [calldata, List.append_assoc]
    exact Cursor.slice_taken _ _
  rw [hzip] at hcut
  rw [Split.cut, bind_eq_ok]
  refine ⟨_, mapError_eq_ok.2 hcut, ?_⟩
  rw [List.dropLast_concat, List.getLastD_concat, hslice]
  rfl

end Replay.Parts

end StarkReplay
