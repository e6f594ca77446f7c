import Mathlib.Tactic.Ring
import StarkReplay.Proofs.Split

/-!
The elements of split calldata. Splitting loses nothing: the sections and the layers behind the
states of the chunks are the calldata without its version tag. Every chunk but the first adds a
state, whose length the configuration fixes, and the last one repeats the coefficients.
-/
namespace StarkReplay

namespace Split

theorem foldr_length_numbered (n start : Nat) (cs : List (List Int)) :
    (Chunks.numbered n cs).foldr (fun s k => s.2.length + k) start =
      (cs.map List.length).sum + start := by
  induction cs generalizing n with
  | nil => simp [Chunks.numbered]
  | cons c cs ih =>
    simp only [Chunks.numbered, List.foldr_cons, ih, List.map_cons, List.sum_cons]
    omega

theorem totalElements_eq (c : Chunks) :
    c.totalElements = c.initial.length + (c.steps.map List.length).sum + c.final.length := by
  simp only [Chunks.totalElements, Chunks.streams, List.cons_append, List.foldr_cons,
    List.foldr_append, List.foldr_nil, foldr_length_numbered]
  omega

/-- How the chunks of calldata with this configuration are made up. -/
structure Accounts (calldata : List Int) (config : Config) (t : Replay.Trace) (c : Chunks) :
    Prop where
  steps : (c.steps.length : Int) = config.layers
  fragments : c.steps.map layerPart = t.witnesses.dropLast
  whole : c.initial ++ c.steps.flatMap layerPart ++ [Flat.versionTag] = calldata
  total : (c.totalElements : Int) = calldata.length - 1 +
    (config.layers + 1) * (3 * config.layers + 5) +
    (config.layers + 1) * (2 * config.queries + 2) + (2 ^ config.logLastLayer.toNat + 1)

end Split

namespace Replay.Parts

open Split (stateFlat)

variable {H : Hash} {params : Layout.Params} {p : Parts} {layout : Layout}

/-- A state holds three lists with an entry for each round, and a pair for each query. -/
theorem length_state (hp : p.Replays H params layout) (i : Nat) :
    (stateFlat (p.state H params i)).length =
      3 * p.layers.length + 5 + (2 * p.sections.count + 2) := by
  have hlayers := hp.layers
  have hfri := hp.initial.valid.commitments.friLayers
  have hsizes : p.sections.config.layers = p.sections.config.stepSizes.length - 1 := rfl
  have hpairs : (p.progress H params i).elements.length = 2 * p.sections.count := by
    simp [Fri.Progress.elements, progress, List.length_flatMap, Function.comp_def, Nat.mul_comm]
  simp only [stateFlat, state, Fri.Schedule.flat, Fri.Progress.flat, Sections.schedule,
    List.length_append, List.length_singleton, Cursor.length_span, List.length_map,
    List.length_range, List.length_tail, hpairs]
  omega

theorem sum_length_steps (hp : p.Replays H params layout) :
    ((p.steps H params).map List.length).sum =
      p.layers.length * (3 * p.layers.length + 5 + (2 * p.sections.count + 2)) +
        (p.layers.flatMap Opening.flat).length := by
  have hlayers : (p.layers.flatMap Opening.flat).length =
      ((List.range p.layers.length).map fun i => (p.layer i).flat.length).sum := by
    rw [List.length_flatMap]
    conv_lhs => rw [layers_eq_map (p := p), List.map_map]
    rfl
  simp only [steps, List.map_map, Function.comp_def, List.length_append, length_state hp,
    List.sum_map_add, List.map_const', List.sum_replicate, List.length_range, smul_eq_mul, hlayers]

/-- The fragments behind the states are the witnesses of the rounds. -/
theorem steps_fragments (coefficients : List Int) :
    (p.chunks H params coefficients).steps.map Split.layerPart =
      (p.trace H params).witnesses.dropLast := by
  rw [trace, List.dropLast_concat, layers_eq_map (p := p)]
  simp [chunks, steps, Split.layerPart_append, Function.comp_def]

theorem chunks_accounts (hp : p.Replays H params layout) :
    Split.Accounts p.calldata p.sections.config (p.trace H params)
      (p.chunks H params p.sections.commitments.coefficients) where
  steps := by
    rw [chunks, steps, List.length_map, List.length_range]
    exact hp.layers
  fragments := steps_fragments _
  whole := join_chunks _
  total := by
    have hcount := Sections.natCast_count hp.initial.valid
    have hcoefficients := hp.initial.valid.commitments.coefficients
    rw [Split.totalElements_eq, chunks, sum_length_steps hp, List.length_append, length_state hp,
      Cursor.length_span, hcoefficients, calldata, List.length_append, List.length_append,
      List.length_singleton, ← hp.layers, ← hcount]
    push_cast
    ring

end Replay.Parts

namespace Split

/-- The chunks of a proof text account for all elements of its calldata. -/
theorem split_accounts_for_calldata {H : Hash} {text name : Text} {c : Chunks}
    (h : split H text name = .ok c) : ∃ calldata t config,
      Proof.calldataOf text = .ok calldata ∧ Replay.verify H name calldata = .ok t ∧
        (Config.read.run.run (Cursor.ofList calldata)).1 = .ok config ∧
          Accounts calldata config t c := by
  obtain ⟨layout, params, p, -, -, htext, hverify, hp, rfl⟩ := exists_parts_of_split h
  exact ⟨_, _, _, htext, hverify, Replay.Parts.run_readConfig p,
    Replay.Parts.chunks_accounts hp.toReplays⟩

/-- A text of the small proof. -/
def smallText : Text := Json.write .oneLine <| .obj [
  ("config", .arr [.int 4, .int 1, .int 2, .int 50, Flat.array [0, 2, 1], .int 1]),
  ("public_input", .arr [.int 0, .int 1, .int 2, .str "0x726563757273697665",
    Flat.array [14, 4]]),
  ("unsent_commitment", .arr [.int 63, .int 0, .str "15", Flat.array (List.replicate 135 5),
    Flat.array [70, 7], Flat.array [375, 204], .int 6]),
  ("witness", .arr [
    Flat.array [8, 0, 0, 0, 0, 0, 0, 1, 2, 0, 0, 0, 0, 0], Flat.array [6],
    Flat.array (List.replicate 6 0), Flat.array [],
    Flat.array (List.replicate 4 0), Flat.array [7], .int 2,
    Flat.array [2, 8, 0, 1, 25, 0, 0, 0], Flat.array [8],
    Flat.array [803, 8, 4, 25], Flat.array [9]])]

theorem split_smallText :
    split Replay.smallHash smallText Layout.recursive.name = .ok .small := by decide +kernel

theorem split_accounts_for_calldata_small :
    split Replay.smallHash smallText Layout.recursive.name = .ok .small ∧
      ∃ calldata t config, Proof.calldataOf smallText = .ok calldata ∧
        Replay.verify Replay.smallHash Layout.recursive.name calldata = .ok t ∧
          (Config.read.run.run (Cursor.ofList calldata)).1 = .ok config ∧
            Accounts calldata config t .small :=
  ⟨split_smallText, split_accounts_for_calldata split_smallText⟩

end Split

end StarkReplay
