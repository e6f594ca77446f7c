import StarkReplay.Proofs.Numerals
import StarkReplay.Proofs.Sections
import StarkReplay.Prover.Documents

/-!
The parameters that are computed for a trace, against the checks that a proof's configuration goes
through. The rule that sizes the schedule and the bounds of the checks are stated apart from each
other. They agree for every trace that is long enough for parameters, but for the number of
layers: the schedule of a very short trace is empty, and that of a very long one has too many.
-/
namespace StarkReplay

namespace Config

/-- All that the checks ask of a configuration but the bounds on the number of layers. -/
structure Fits (c : Config) : Prop where
  firstStep : c.stepSizes.head? = some 0
  stepSizes : ∀ s ∈ c.stepSizes.tail, 1 ≤ s ∧ s ≤ Fri.maxStep
  lastLayer : c.logLastLayer ≤ maxLogLastLayer
  covered : c.stepSizes.sum + c.logLastLayer = c.logTraceDomain
  cosets : 1 ≤ c.logCosets ∧ c.logCosets ≤ maxLogCosets
  queries : 1 ≤ c.queries
  workBits : c.workBits ≤ maxWorkBits

theorem valid_iff {c : Config} : c.Valid ↔ c.Fits ∧ 1 ≤ c.layers ∧ c.layers ≤ maxLayers := by
  constructor
  · intro h
    exact ⟨⟨h.firstStep, h.stepSizes, h.lastLayer, h.covered, h.cosets, h.queries, h.workBits⟩,
      h.layers⟩
  · rintro ⟨h, hlayers⟩
    exact ⟨h.firstStep, hlayers, h.stepSizes, h.lastLayer, h.covered, h.cosets, h.queries,
      h.workBits⟩

theorem Fits.validate_eq_ok {c : Config} (h : c.Fits) :
    c.validate = .ok () ↔ 1 ≤ c.layers ∧ c.layers ≤ maxLayers := by
  rw [Config.validate_eq_ok, valid_iff, and_iff_right h]

/-- The number of layers is looked at before all else but the first step. -/
theorem Fits.validate_eq_reject {c : Config} (h : c.Fits)
    (hlayers : ¬(1 ≤ c.layers ∧ c.layers ≤ maxLayers)) :
    c.validate = reject (.layerCount c.layers) := by
  rw [validate, if_neg (not_not.2 h.firstStep), if_pos (by omega)]

end Config

namespace Fri

/-! ## Logarithms -/

/-- The logarithm that is rounded up is the least exponent of two that reaches the number. -/
theorem exists_ceilLog2 {x : Int} (h : 1 ≤ x) :
    ∃ r : Nat, ceilLog2 x = .ok r ∧ ∀ k : Nat, r ≤ k ↔ x ≤ 2 ^ k := by
  refine ⟨Numeral.bitLength (x - 1).toNat, if_neg (by omega), ?_⟩
  intro k
  have hpow : ((2 ^ k : Nat) : Int) = 2 ^ k := by simp
  rw [Numeral.bitLength_le_iff]
  omega

theorem between_powers_iff {x : Int} {r : Nat} (hr : ∀ k : Nat, r ≤ k ↔ x ≤ 2 ^ k) (h : 1 < x)
    (k : Nat) : x ≤ 2 ^ k ∧ 2 ^ (k - 1) < x ↔ k = r := by
  have hpos : ¬r ≤ 0 := by
    rw [hr]
    simpa using h
  rw [← hr, ← Int.not_le, ← hr]
  omega

/-! ## Splitting a sum into steps -/

section

variable {sum max : Int}

theorem splitSum_eq (hmax : 0 < max) : splitSum sum max =
    List.replicate (sum / max).toNat max ++ if 0 < sum % max then [sum % max] else [] := by
  rw [splitSum, Int.fdiv_eq_ediv_of_nonneg _ hmax.le, Int.fmod_eq_emod_of_nonneg _ hmax.le]

theorem sum_splitSum (hmax : 0 < max) (hsum : 0 ≤ sum) : (splitSum sum max).sum = sum := by
  have hquotient : 0 ≤ sum / max := Int.ediv_nonneg hsum hmax.le
  have hremainder : 0 ≤ sum % max := Int.emod_nonneg _ hmax.ne'
  have hlast : (if 0 < sum % max then [sum % max] else []).sum = sum % max := by
    split
    · simp
    · simp only [List.sum_nil]
      omega
  rw [splitSum_eq hmax, List.sum_append, hlast, List.sum_replicate, nsmul_eq_mul,
    Int.toNat_of_nonneg hquotient, mul_comm]
  exact Int.mul_ediv_add_emod sum max

theorem mem_splitSum (hmax : 0 < max) {step : Int} (h : step ∈ splitSum sum max) :
    1 ≤ step ∧ step ≤ max := by
  rw [splitSum_eq hmax, List.mem_append] at h
  rcases h with h | h
  · obtain rfl := List.eq_of_mem_replicate h
    omega
  · split at h
    · have hlt := Int.emod_lt_of_pos sum hmax
      rw [List.mem_singleton] at h
      omega
    · cases h

theorem length_splitSum_le_iff (hmax : 0 < max) (hsum : 0 ≤ sum) (k : Nat) :
    (splitSum sum max).length ≤ k ↔ sum ≤ k * max := by
  have hquotient : 0 ≤ sum / max := Int.ediv_nonneg hsum hmax.le
  rw [splitSum_eq hmax, List.length_append, List.length_replicate]
  split
  · rename_i hremainder
    have hne : sum ≠ k * max := by
      rintro rfl
      simp at hremainder
    have hlt : sum / max < k ↔ sum < k * max := Int.ediv_lt_iff_lt_mul hmax
    simp only [List.length_singleton]
    omega
  · rename_i hremainder
    have hzero : sum % max = 0 := by
      have := Int.emod_nonneg sum hmax.ne'
      omega
    have hle : sum / max ≤ k ↔ sum ≤ k * max := by
      rw [← Int.mul_le_mul_iff_of_pos_right hmax, Int.ediv_mul_cancel_of_emod_eq_zero hzero]
    rw [← hle, List.length_nil]
    omega

end

/-! ## Lists of step sizes -/

theorem canHold_some {longest : Nat} {n : Int} (h : 0 ≤ n) :
    canHold (some longest) n = true ↔ n ≤ longest := by
  simp only [canHold, Bool.and_eq_true, decide_eq_true_eq]
  omega

section

variable {longest : Option Nat} {logSteps logLastLayer max : Int}

theorem stepSizes_of_neg (hsum : stepSum logSteps logLastLayer < 0) :
    stepSizes longest logSteps logLastLayer max = .error (.traceTooShort logSteps) := if_pos hsum

/-- The number of full steps decides whether the list can be had. -/
theorem stepSizes_of_nonneg (hmax : 0 < max) (hsum : 0 ≤ stepSum logSteps logLastLayer) :
    stepSizes longest logSteps logLastLayer max =
      if canHold longest (stepSum logSteps logLastLayer / max) then
        .ok (splitSum (stepSum logSteps logLastLayer) max)
      else .error .overflow := by
  rw [stepSizes, if_neg (Int.not_lt.2 hsum), if_neg hmax.ne',
    Int.fdiv_eq_ediv_of_nonneg _ hmax.le]

end

/-! ## Parameters -/

theorem ceilLog2_lastLayerDegreeBound : ceilLog2 lastLayerDegreeBound = .ok (6 : Nat) := rfl

/-- The parameters for a trace of `2 ^ r` steps. -/
def Parameters.ofLogSteps (r : Nat) : Parameters where
  stepList := 0 :: splitSum (r - 2) maxStep
  lastLayerDegreeBound := Fri.lastLayerDegreeBound
  queries := 16
  workBits := 32

/-- There are parameters as soon as the rows of the trace reach the bound of the last layer, if a
list can hold the full steps. -/
theorem parameters_eq_ite {longest : Option Nat} {n : Int} {r : Nat} (hn : 1 ≤ n)
    (hr : ceilLog2 n = .ok r) :
    parameters longest n =
      if 2 ≤ r then
        if canHold longest ((r - 2) / maxStep) then .ok (.ofLogSteps r) else .error .overflow
      else .error (.traceTooShort r) := by
  have hsum : stepSum r (6 : Nat) = r - 2 := by
    simp only [stepSum, logComponentHeight]
    omega
  rw [parameters, if_neg (by omega), hr, ok_bind, ceilLog2_lastLayerDegreeBound, ok_bind]
  by_cases h : 2 ≤ r
  · rw [stepSizes_of_nonneg (by decide) (by omega), if_pos h, hsum]
    split <;> rfl
  · rw [stepSizes_of_neg (by omega), if_neg h]
    rfl

theorem exists_parameters_iff {n : Int} : (∃ p, parameters none n = .ok p) ↔ 3 ≤ n := by
  by_cases hn : 1 ≤ n
  · obtain ⟨r, hlog, hr⟩ := exists_ceilLog2 hn
    have hone := hr 1
    rw [parameters_eq_ite hn hlog]
    by_cases h : 2 ≤ r
    · rw [if_pos h]
      exact iff_of_true ⟨_, if_pos rfl⟩ (by omega)
    · rw [if_neg h]
      exact iff_of_false nofun (by omega)
  · rw [parameters, if_pos (by omega)]
    exact iff_of_false nofun (by omega)

/-- The parameters for a trace of `n` steps, as they are computed with lists of any length, and
with lists that have a longest one. -/
structure Computed (n : Int) (p : Parameters) : Prop where
  unbounded : parameters none n = .ok p
  bounded : ∀ longest : Nat, parameters (some longest) n =
    if n ≤ 2 ^ (4 * longest + 5) then .ok p else .error .overflow

theorem computed_ofLogSteps {n : Int} {r : Nat} (hlog : ceilLog2 n = .ok r)
    (hr : ∀ k : Nat, r ≤ k ↔ n ≤ 2 ^ k) (h : 2 ≤ r) : Computed n (.ofLogSteps r) := by
  have hn : 1 ≤ n := by
    have hone := hr 1
    omega
  refine ⟨by rw [parameters_eq_ite hn hlog, if_pos h]; rfl, fun longest => ?_⟩
  have hfull : canHold (some longest) ((r - 2) / maxStep) = true ↔ n ≤ 2 ^ (4 * longest + 5) := by
    rw [canHold_some (Int.ediv_nonneg (by omega) (by decide)), ← hr, maxStep]
    omega
  rw [parameters_eq_ite hn hlog, if_pos h]
  exact if_congr hfull rfl rfl

/-- The bound on lists only matters to far longer traces. -/
theorem Computed.of_le {n : Int} {p : Parameters} (h : Computed n p) (hn : n ≤ 2 ^ 64) :
    parameters (some maxEntries) n = .ok p := by
  have hbound : n ≤ 2 ^ (4 * maxEntries + 5) := hn.trans (pow_le_pow_right₀ (by decide) (by decide))
  rw [h.bounded, if_pos hbound]

/-- The configuration of a proof that is made with these parameters, for a trace of `2 ^ logSteps`
steps. -/
def Parameters.config (p : Parameters) (logSteps logLastLayer : Int) : Config where
  logTraceDomain := logSteps + logComponentHeight
  logCosets := Prover.defaultLogCosets
  queries := p.queries
  workBits := p.workBits
  stepSizes := p.stepList
  logLastLayer

namespace Parameters

theorem ofLogSteps_fits {r : Nat} (hr : 2 ≤ r) : ((ofLogSteps r).config r (6 : Nat)).Fits where
  firstStep := rfl
  stepSizes := fun _ => mem_splitSum (by decide)
  lastLayer := by
    show (6 : Int) ≤ Config.maxLogLastLayer
    decide
  covered := by
    rw [config, ofLogSteps, List.sum_cons, sum_splitSum (by decide) (by omega)]
    simp only [logComponentHeight]
    omega
  cosets := by
    show 1 ≤ Prover.defaultLogCosets ∧ Prover.defaultLogCosets ≤ Config.maxLogCosets
    decide
  queries := by
    show (1 : Int) ≤ 16
    decide
  workBits := by
    show (32 : Int) ≤ Config.maxWorkBits
    decide

/-- One layer takes off four bits at most, so fifteen are enough for sixty bits and no more. -/
theorem ofLogSteps_layers {r : Nat} (hr : 2 ≤ r) :
    1 ≤ ((ofLogSteps r).config r (6 : Nat)).layers ∧
        ((ofLogSteps r).config r (6 : Nat)).layers ≤ Config.maxLayers ↔ 3 ≤ r ∧ r ≤ 62 := by
  have hlength := length_splitSum_le_iff (by decide : 0 < maxStep) (by omega : (0 : Int) ≤ r - 2)
  have hnone := hlength 0
  have hmany := hlength 15
  simp only [Config.layers, config, ofLogSteps, List.length_cons, Config.maxLayers]
  simp only [maxStep] at hnone hmany ⊢
  omega

end Parameters

/-- The parameters for a trace of `n` steps meet the checks, but for the number of layers. -/
structure MeetsChecks (n : Int) (p : Parameters) (r l : Nat) : Prop where
  computed : Computed n p
  logSteps : ceilLog2 n = .ok r
  between : ∀ k : Nat, n ≤ 2 ^ k ∧ 2 ^ (k - 1) < n ↔ k = r
  logLastLayer : ceilLog2 p.lastLayerDegreeBound = .ok l
  fits : (p.config r l).Fits
  valid : (p.config r l).validate = .ok () ↔ 5 ≤ n ∧ n ≤ 2 ^ 62
  refused : ¬(5 ≤ n ∧ n ≤ 2 ^ 62) →
    (p.config r l).validate = reject (.layerCount (p.config r l).layers)

/-- Parameters are computed for traces of three steps or more, and meet the checks. -/
theorem parameters_meet_checks (n : Int) :
    ((∃ p, parameters none n = .ok p) ↔ 3 ≤ n) ∧ (3 ≤ n → ∃ p r l, MeetsChecks n p r l) := by
  refine ⟨exists_parameters_iff, ?_⟩
  intro hn
  obtain ⟨r, hlog, hr⟩ := exists_ceilLog2 (by omega : 1 ≤ n)
  have hone := hr 1
  have htwo := hr 2
  have hlast := hr 62
  have hlarge : 2 ≤ r := by omega
  have hfits := Parameters.ofLogSteps_fits hlarge
  have hlayers := Parameters.ofLogSteps_layers hlarge
  refine ⟨.ofLogSteps r, r, 6, computed_ofLogSteps hlog hr hlarge, hlog,
    between_powers_iff hr (by omega), ceilLog2_lastLayerDegreeBound, hfits, ?_, ?_⟩
  · rw [hfits.validate_eq_ok, hlayers]
    omega
  · intro hn
    apply hfits.validate_eq_reject
    rw [hlayers]
    omega

/-- A trace that is one step too long still has parameters, but no proof with them is accepted. -/
theorem parameters_meet_checks_too_long :
    ∃ p r l, parameters (some maxEntries) (2 ^ 62 + 1) = .ok p ∧ (p.config r l).Fits ∧
      (p.config r l).validate = reject (.layerCount (p.config r l).layers) := by
  obtain ⟨p, r, l, h⟩ := (parameters_meet_checks (2 ^ 62 + 1)).2 (by decide)
  exact ⟨p, r, l, h.computed.of_le (by decide), h.fits, h.refused (by decide)⟩

end Fri

end StarkReplay
