import StarkReplay.Proofs.Parameters

/-!
The step sizes that a sum is split into. Full steps come first, one step at most is smaller, and no
split of the sum has fewer steps; so a longer trace never has fewer layers. The list is refused only
if the sum is negative or if so many steps cannot be written down.
-/
namespace StarkReplay.Fri

/-- Steps from one to `max` that add up to the sum. -/
structure Splits (sum max : Int) (steps : List Int) : Prop where
  sizes : ∀ s ∈ steps, 1 ≤ s ∧ s ≤ max
  total : steps.sum = sum

/-- A split into full steps and at most one smaller one at the end, with no more steps than any
other split has. -/
structure BestSplit (sum max : Int) (steps : List Int) : Prop extends Splits sum max steps where
  descending : steps.Pairwise (· ≥ ·)
  full : ∀ s ∈ steps.dropLast, s = max
  shortest : ∀ other, Splits sum max other → steps.length ≤ other.length

section

variable {sum max : Int} {steps : List Int}

theorem Splits.sum_le (h : Splits sum max steps) : sum ≤ steps.length * max := by
  have hle := List.sum_le_card_nsmul steps max fun s hs => (h.sizes s hs).2
  rwa [h.total, nsmul_eq_mul] at hle

theorem pairwise_splitSum (hmax : 0 < max) : (splitSum sum max).Pairwise (· ≥ ·) := by
  have hremainder := Int.emod_lt_of_pos sum hmax
  rw [splitSum_eq hmax, List.pairwise_append]
  refine ⟨List.pairwise_replicate.2 (.inr (le_refl max)), ?_, ?_⟩
  · split
    · exact List.pairwise_singleton _ _
    · exact List.Pairwise.nil
  · intro s hs r hr
    rw [List.eq_of_mem_replicate hs]
    split at hr
    · rw [List.mem_singleton.1 hr]
      exact hremainder.le
    · cases hr

theorem full_splitSum (hmax : 0 < max) {s : Int} (h : s ∈ (splitSum sum max).dropLast) :
    s = max := by
  rw [splitSum_eq hmax] at h
  split at h
  · rw [List.dropLast_concat] at h
    exact List.eq_of_mem_replicate h
  · rw [List.append_nil] at h
    exact List.eq_of_mem_replicate (List.mem_of_mem_dropLast h)

theorem bestSplit_splitSum (hmax : 0 < max) (hsum : 0 ≤ sum) :
    BestSplit sum max (splitSum sum max) where
  sizes := fun _ => mem_splitSum hmax
  total := sum_splitSum hmax hsum
  descending := pairwise_splitSum hmax
  full := fun _ => full_splitSum hmax
  shortest := fun other hother => (length_splitSum_le_iff hmax hsum other.length).2 hother.sum_le

end

/-! ## Layers of longer traces -/

theorem ceilLog2_mono {m n : Int} {r s : Nat} (hmn : m ≤ n) (hr : ∀ k : Nat, r ≤ k ↔ m ≤ 2 ^ k)
    (hs : ∀ k : Nat, s ≤ k ↔ n ≤ 2 ^ k) : r ≤ s :=
  (hr s).2 (hmn.trans ((hs s).1 (Nat.le_refl s)))

theorem length_splitSum_mono {sum sum' max : Int} (hmax : 0 < max) (hsum : 0 ≤ sum)
    (hle : sum ≤ sum') : (splitSum sum max).length ≤ (splitSum sum' max).length := by
  rw [length_splitSum_le_iff hmax hsum]
  refine hle.trans ?_
  exact (length_splitSum_le_iff hmax (hsum.trans hle) _).1 (Nat.le_refl _)

theorem length_stepList_mono {m n : Int} (hm : 3 ≤ m) (hmn : m ≤ n) :
    ∃ p q, Computed m p ∧ Computed n q ∧ p.stepList.length ≤ q.stepList.length := by
  obtain ⟨r, hlogm, hr⟩ := exists_ceilLog2 (by omega : 1 ≤ m)
  obtain ⟨s, hlogn, hs⟩ := exists_ceilLog2 (by omega : 1 ≤ n)
  have hrs : r ≤ s := ceilLog2_mono hmn hr hs
  have hone := hr 1
  have hr2 : 2 ≤ r := by omega
  refine ⟨.ofLogSteps r, .ofLogSteps s, computed_ofLogSteps hlogm hr hr2,
    computed_ofLogSteps hlogn hs (hr2.trans hrs), ?_⟩
  have hlayers := length_splitSum_mono (by decide : 0 < maxStep)
    (by omega : (0 : Int) ≤ r - 2) (by omega : (r : Int) - 2 ≤ s - 2)
  simpa only [Parameters.ofLogSteps, List.length_cons, Nat.add_le_add_iff_right] using hlayers

/-- A sum that is not negative is split into as few steps as there can be, if a list can hold
them; and a longer trace has no fewer layers. -/
theorem step_sizes_best :
    (∀ logSteps logLastLayer max sum : Int, 1 ≤ max → sum = logSteps + 4 - logLastLayer →
      (∀ longest, stepSizes longest logSteps logLastLayer max = .error (.traceTooShort logSteps) ↔
        sum < 0) ∧
        (0 ≤ sum → ∃ steps, BestSplit sum max steps ∧
          stepSizes none logSteps logLastLayer max = .ok steps ∧
            ∀ longest : Nat, stepSizes (some longest) logSteps logLastLayer max =
              if sum / max ≤ longest then .ok steps else .error .overflow)) ∧
      ∀ m n : Int, 3 ≤ m → m ≤ n → ∃ p q, Computed m p ∧ Computed n q ∧
        p.stepList.length ≤ q.stepList.length := by
  refine ⟨?_, fun m n => length_stepList_mono⟩
  intro logSteps logLastLayer max sum hmax hsum
  have hstep : stepSum logSteps logLastLayer = sum := hsum.symm
  constructor
  · intro longest
    constructor
    · intro h
      by_contra hneg
      rw [stepSizes_of_nonneg hmax (by omega)] at h
      split at h <;> cases h
    · intro hneg
      exact stepSizes_of_neg (hstep ▸ hneg)
  · intro hpos
    rw [← hstep] at hpos ⊢
    refine ⟨_, bestSplit_splitSum hmax hpos, stepSizes_of_nonneg hmax hpos, fun longest => ?_⟩
    rw [stepSizes_of_nonneg hmax hpos]
    exact if_congr (canHold_some (Int.ediv_nonneg hpos (Int.le_of_lt hmax))) rfl rfl

/-- Fourteen is split into four steps, a sum below zero is not, and a trace of three steps has no
more layers than one of seventeen. -/
theorem step_sizes_best_small :
    (∃ steps, BestSplit 14 4 steps ∧ stepSizes (some maxEntries) 10 0 4 = .ok steps) ∧
      stepSizes (some maxEntries) 1 6 4 = .error (.traceTooShort 1) ∧
        ∃ p q, parameters (some maxEntries) 3 = .ok p ∧
          parameters (some maxEntries) 17 = .ok q ∧ p.stepList.length ≤ q.stepList.length := by
  obtain ⟨hsplit, hlayers⟩ := step_sizes_best
  obtain ⟨steps, hbest, -, hlist⟩ := (hsplit 10 0 4 14 (by decide) (by decide)).2 (by decide)
  obtain ⟨p, q, hp, hq, hle⟩ := hlayers 3 17 (by decide) (by decide)
  refine ⟨⟨steps, hbest, ?_⟩, ((hsplit 1 6 4 (-1) (by decide) (by decide)).1 _).2 (by decide),
    p, q, hp.of_le (by decide), hq.of_le (by decide), hle⟩
  rw [hlist, if_pos (by decide)]

/-- A list of `2 ^ 63` steps of one cannot be asked for, though the sum is not negative. -/
theorem stepSizes_overflow :
    (0 : Int) ≤ 2 ^ 63 + 4 - 4 ∧ stepSizes (some maxEntries) (2 ^ 63) 4 1 = .error .overflow ∧
      ¬∃ steps, stepSizes (some maxEntries) (2 ^ 63) 4 1 = .ok steps := by
  have h : stepSizes (some maxEntries) (2 ^ 63) 4 1 = .error .overflow := by decide
  refine ⟨by decide, h, ?_⟩
  rintro ⟨steps, hsteps⟩
  rw [h] at hsteps
  cases hsteps

end StarkReplay.Fri
