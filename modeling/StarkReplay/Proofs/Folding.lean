import StarkReplay.Proofs.Verifier

/-!
Folding. In the trace of an accepted proof every state has all the queries of the first one: each
round takes the bits of its step off every index, and after the last round as many are left as the
last layer and the cosets have. The sizes are those of the configuration that the calldata begins
with.
-/
namespace StarkReplay

def Fri.Progress.indices (p : Progress) : List Int := p.queries.map Prod.fst

/-- The bits that the first rounds take off an index. -/
def Config.bits (c : Config) (i : Nat) : Int := (c.stepSizes.tail.take i).sum

namespace Replay

/-- The state before a round, or after the last one, against the first state. -/
structure Folded (config : Config) (first : Fri.Progress) (i : Nat) (p : Fri.Progress) : Prop where
  round : p.round = i
  queries : (p.queries.length : Int) = config.queries
  bits : 0 ≤ config.bits i ∧ config.bits i ≤ config.logTraceDomain + config.logCosets
  indices : p.indices = first.indices.map fun index : Int => index >>> (config.bits i).toNat
  index_lt : ∀ q ∈ p.queries,
    0 ≤ q.1 ∧ q.1 < 2 ^ (config.logTraceDomain + config.logCosets - config.bits i).toNat
  felts : ∀ q ∈ p.queries, IsFelt q.2

/-- All states of a trace are folded from the first one. -/
structure Trace.Folds (config : Config) (t : Trace) : Prop where
  commitments : (t.schedule.commitments.length : Int) = config.layers
  evalPoints : (t.schedule.evalPoints.length : Int) = config.layers
  stepSizes : (t.schedule.stepSizes.length : Int) = config.layers
  states : (t.states.length : Int) = config.layers + 1
  witnesses : (t.witnesses.length : Int) = config.layers + 1
  queries : 1 ≤ config.queries
  folded : ∀ first, t.states[0]? = some first →
    ∀ (i : Nat) (p : Fri.Progress), t.states[i]? = some p → Folded config first i p
  last : ∀ p, t.states.getLast? = some p → p.queries ≠ [] ∧
    ∀ q ∈ p.queries, q.1 < 2 ^ (config.logLastLayer + config.logCosets).toNat

variable {H : Hash} {layout : Layout} {params : Layout.Params}

/-! ## The bits that are left -/

namespace Sections

variable {s : Sections}

/-- The bits of an index are those that some first rounds take off and others. -/
theorem bits_le (hs : s.Valid layout params) (hlast : 0 ≤ s.config.logLastLayer) (i : Nat) :
    s.config.bits i ≤ s.config.logEvalDomain := by
  have hsum := List.sum_take_add_sum_drop s.config.stepSizes.tail i
  have hrest : 0 ≤ (s.config.stepSizes.tail.drop i).sum := by
    refine List.sum_nonneg fun size hsize => ?_
    have := hs.config.stepSizes size (List.mem_of_mem_drop hsize)
    omega
  have htail := hs.config.sum_tail
  have hcosets := hs.config.cosets
  unfold Config.bits Config.logEvalDomain
  omega

/-- All rounds together leave the bits of the last layer and of the cosets. -/
theorem bits_layers (hs : s.Valid layout params) {n : Nat} (hn : (n : Int) = s.config.layers) :
    s.config.logTraceDomain + s.config.logCosets - s.config.bits n =
      s.config.logLastLayer + s.config.logCosets := by
  have htail := hs.config.sum_tail
  have hall : s.config.stepSizes.tail.take n = s.config.stepSizes.tail := by
    refine List.take_of_length_le ?_
    rw [List.length_tail]
    unfold Config.layers at hn
    omega
  rw [Config.bits, hall]
  omega

theorem bits_eq_bitsBefore (hs : s.Valid layout params) {i : Nat}
    (hi : (i : Int) ≤ s.config.layers) : s.config.bits i = s.bitsBefore i := by
  induction i with
  | zero => simp [Config.bits, bitsBefore]
  | succ i ih =>
    have hget : s.config.stepSizes.tail[i]? = some (s.stepSize i : Int) :=
      (stepSizes_getElem? (H := smallHash) hs (by omega)).1
    obtain ⟨hlt, hsize⟩ := List.getElem?_eq_some_iff.1 hget
    have hbits : (s.config.stepSizes.tail.take i).sum = s.bitsBefore i := ih (by omega)
    have hbefore : s.bitsBefore (i + 1) = s.bitsBefore i + s.stepSize i := by
      simp [bitsBefore, List.range_succ]
    rw [Config.bits, List.sum_take_succ _ _ hlt, hbits, hsize, hbefore, Nat.cast_add]

end Sections

theorem shift_lt {x : Int} {b d : Nat} (hx : x < 2 ^ d) (hb : b ≤ d) : x / 2 ^ b < 2 ^ (d - b) := by
  refine Int.ediv_lt_of_lt_mul (Int.pow_pos (by decide)) ?_
  rwa [← pow_add, Nat.sub_add_cancel hb]

namespace Parts

variable {p : Parts}

theorem index_eq_shift (hs : p.sections.Valid layout params) {i : Nat}
    (hi : (i : Int) ≤ p.sections.config.layers) (j : Nat) :
    p.index H i j = p.index H 0 j >>> (p.sections.config.bits i).toNat := by
  have hzero : p.index H 0 j = p.sections.index H j := by
    simp [index, Sections.bitsBefore]
  rw [hzero, Sections.bits_eq_bitsBefore hs hi, Int.toNat_natCast, Int.shiftRight_eq_div_pow, index]
  simp

theorem index_bounds (hs : p.sections.Valid layout params)
    (hlast : 0 ≤ p.sections.config.logLastLayer) {i : Nat}
    (hi : (i : Int) ≤ p.sections.config.layers) (j : Nat) :
    0 ≤ p.index H i j ∧ p.index H i j < 2 ^ (p.sections.config.logTraceDomain +
      p.sections.config.logCosets - p.sections.config.bits i).toNat := by
  have hbits := Sections.bits_le hs hlast i
  have hlt : p.sections.index H j < 2 ^ p.sections.config.logEvalDomain.toNat :=
    Int.emod_lt_of_pos _ (Int.pow_pos (by decide))
  rw [Sections.bits_eq_bitsBefore hs hi] at hbits ⊢
  refine ⟨(isFelt_index hs i j).1, ?_⟩
  have hexponent : (p.sections.config.logTraceDomain + p.sections.config.logCosets -
      (p.sections.bitsBefore i : Int)).toNat =
      p.sections.config.logEvalDomain.toNat - p.sections.bitsBefore i := by
    unfold Config.logEvalDomain at *
    omega
  rw [hexponent]
  exact shift_lt hlt (by omega)

/-- The closed form of a state is folded from that of the first one. -/
theorem progress_folded (hs : p.sections.Valid layout params)
    (hlast : 0 ≤ p.sections.config.logLastLayer) {i : Nat}
    (hi : (i : Int) ≤ p.sections.config.layers) :
    Folded p.sections.config (p.progress H params 0) i (p.progress H params i) where
  round := rfl
  queries := by
    rw [progress, List.length_map, List.length_range]
    exact Sections.natCast_count hs
  bits := by
    refine ⟨?_, Sections.bits_le hs hlast i⟩
    rw [Sections.bits_eq_bitsBefore hs hi]
    exact Int.natCast_nonneg _
  indices := by
    simp only [Fri.Progress.indices, progress, List.map_map]
    exact List.map_congr_left fun j _ => index_eq_shift hs hi j
  index_lt := by
    intro q hq
    obtain ⟨j, -, rfl⟩ := List.mem_map.1 hq
    exact index_bounds hs hlast hi j
  felts := by
    intro q hq
    obtain ⟨j, -, rfl⟩ := List.mem_map.1 hq
    exact isFelt_value i j

/-- The states of a trace are those before each round and after the last one. -/
theorem states_getElem? {i : Nat} {q : Fri.Progress} :
    (p.trace H params).states[i]? = some q ↔ i ≤ p.layers.length ∧ p.progress H params i = q := by
  constructor
  · intro h
    obtain ⟨hi, rfl⟩ := List.getElem?_eq_some_iff.1 h
    simp only [trace, List.length_map, List.length_range] at hi
    simp only [trace, List.getElem_map, List.getElem_range, and_true]
    omega
  · rintro ⟨hi, rfl⟩
    have hrange : (List.range (p.layers.length + 1))[i]? = some i :=
      List.getElem?_range (by omega)
    simp only [trace, List.getElem?_map, hrange, Option.map_some]

theorem trace_folds (hp : p.Replays H params layout)
    (hlast : 0 ≤ p.sections.config.logLastLayer) :
    (p.trace H params).Folds p.sections.config where
  commitments := hp.initial.valid.commitments.friLayers
  evalPoints := by
    simp only [trace, Sections.schedule, List.length_map, List.length_range]
    exact hp.initial.valid.commitments.friLayers
  stepSizes := by
    have hlayers := hp.initial.valid.config.layers
    simp only [trace, Sections.schedule, List.length_tail, Config.layers] at *
    omega
  states := by
    have hlayers := hp.layers
    simp only [trace, List.length_map, List.length_range]
    omega
  witnesses := by
    have hlayers := hp.layers
    simp only [trace, List.length_append, List.length_map, List.length_singleton]
    omega
  queries := hp.initial.valid.config.queries
  folded := by
    intro first hfirst i q hq
    obtain ⟨-, rfl⟩ := states_getElem?.1 hfirst
    obtain ⟨hi, rfl⟩ := states_getElem?.1 hq
    exact progress_folded hp.initial.valid hlast (by have := hp.layers; omega)
  last := by
    intro q hq
    have hs := hp.initial.valid
    simp only [trace, List.range_succ, List.map_append, List.map_singleton,
      List.getLast?_concat, Option.some.injEq] at hq
    subst hq
    have hfolded : Folded p.sections.config (p.progress H params 0) p.layers.length
        (p.progress H params p.layers.length) := progress_folded hs hlast hp.layers.le
    refine ⟨fun hnil => ?_, fun q hq => ?_⟩
    · have hqueries := hfolded.queries
      have hpos := hs.config.queries
      rw [hnil] at hqueries
      simp only [List.length_nil, Nat.cast_zero] at hqueries
      omega
    · have hlt := (hfolded.index_lt q hq).2
      rwa [Sections.bits_layers hs hp.layers] at hlt

end Parts

/-- The trace of accepted calldata is folded as the configuration in front of it says. -/
theorem verify_folds_indices {H : Hash} {name : Text} {calldata : List Int} {t : Trace}
    (h : verify H name calldata = .ok t) :
    ∃ config, (Config.read.run.run (Cursor.ofList calldata)).1 = .ok config ∧ t.Folds config := by
  obtain ⟨layout, params, p, hres, hf, rfl, hp, rfl⟩ := verify_sound h
  have hconfig := (Sections.felts_parts (Parts.felts_calldata.1 hf).1).1
  simp only [Config.flat, felts_append, felts_cons] at hconfig
  exact ⟨_, Parts.run_readConfig p, Parts.trace_folds hp.toReplays hconfig.2.1.nonneg⟩

theorem verify_folds_indices_small :
    verify smallHash Layout.recursive.name (Parts.small [9]).calldata = .ok (.small [9]) ∧
      ∃ config, (Config.read.run.run (Cursor.ofList (Parts.small [9]).calldata)).1 = .ok config ∧
        (Trace.small [9]).Folds config := by
  have h : verify smallHash Layout.recursive.name (Parts.small [9]).calldata =
      .ok (.small [9]) := by decide +kernel
  exact ⟨h, verify_folds_indices h⟩

end Replay

end StarkReplay
