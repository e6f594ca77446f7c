import Mathlib.Algebra.Order.BigOperators.Group.List
import StarkReplay.Proofs.Reads
import StarkReplay.Replay.Initial

/-!
The sections of a proof: what their reads take, and what their checks let pass. A section is read
from its flat form and from nothing else. Its check passes exactly if it is valid; the conditions
are stated field by field, without the order in which the check goes through them.
-/
namespace StarkReplay

/-! ## Reads -/

theorem Config.reads : Reads Config.read (fun _ => True) Config.flat := by
  have h : Reads Config.read (fun _ => True) _ :=
    .field Config.logTraceDomain .read fun _ =>
    .field Config.logCosets .read fun _ =>
    .field Config.queries .read fun _ =>
    .field Config.workBits .read fun _ =>
    .field Config.stepSizes .readSpan fun _ =>
    .field Config.logLastLayer .read fun _ =>
    (Reads.pure _).congr (fun c => by cases c; simp [and_assoc]) fun _ _ => rfl
  exact h.congr (fun _ => Iff.rfl) fun c _ => by simp [flat]

theorem PublicInput.reads : Reads PublicInput.read (fun _ => True) PublicInput.flat := by
  have h : Reads PublicInput.read (fun _ => True) fun p =>
      id [p.logSteps, p.rangeCheckMin, p.rangeCheckMax, p.layout] ++
        (Cursor.span p.memory ++ []) := by
    refine .bind (fun p : PublicInput => [p.logSteps, p.rangeCheckMin, p.rangeCheckMax, p.layout])
      (.readMany 4) (fun first hfirst => ?_) fun _ _ => rfl
    match first, hfirst with
    | [_, _, _, _], _ =>
      exact .field PublicInput.memory .readSpan fun _ =>
        (Reads.pure _).congr (fun p => by cases p; simp [and_assoc]) fun _ _ => rfl
  exact h.congr (fun _ => Iff.rfl) fun p _ => by simp [flat]

theorem Commitments.reads : Reads Commitments.read (fun _ => True) Commitments.flat := by
  have h : Reads Commitments.read (fun _ => True) fun c =>
      id [c.original, c.interaction, c.composition] ++ (Cursor.span c.oodsValues ++
        (Cursor.span c.friLayers ++ (Cursor.span c.coefficients ++ ([c.nonce] ++ [])))) := by
    refine .bind (fun c : Commitments => [c.original, c.interaction, c.composition])
      (.readMany 3) (fun first hfirst => ?_) fun _ _ => rfl
    match first, hfirst with
    | [_, _, _], _ =>
      exact .field Commitments.oodsValues .readSpan fun _ =>
        .field Commitments.friLayers .readSpan fun _ =>
        .field Commitments.coefficients .readSpan fun _ =>
        .field Commitments.nonce .read fun _ =>
        (Reads.pure _).congr (fun c => by cases c; simp [and_assoc]) fun _ _ => rfl
  exact h.congr (fun _ => Iff.rfl) fun c _ => by simp [flat]

theorem Opening.reads : Reads Opening.read (fun _ => True) Opening.flat := by
  have h : Reads Opening.read (fun _ => True) _ :=
    .field Opening.leaves .readSpan fun _ =>
    .field Opening.authentications .readSpan fun _ =>
    (Reads.pure _).congr (fun o => by cases o; simp) fun _ _ => rfl
  exact h.congr (fun _ => Iff.rfl) fun o _ => by simp [flat]

namespace Replay

/-- The checks that the sections pass while they are read. -/
structure Sections.Checked (layout : Layout) (params : Layout.Params) (s : Sections) : Prop where
  config : s.config.validate = .ok ()
  publicInput : s.publicInput.validate layout s.config = .ok ()
  commitments : s.commitments.validate params s.config = .ok ()

theorem readSections_reads (layout : Layout) (params : Layout.Params) :
    Reads (readSections layout params) (Sections.Checked layout params) Sections.flat := by
  have h : Reads (readSections layout params) (Sections.Checked layout params) _ :=
    .field Sections.config Config.reads fun config =>
    .guard (fun hconfig => .field Sections.publicInput PublicInput.reads fun publicInput =>
      .guard (fun hpublic => .field Sections.commitments Commitments.reads fun commitments =>
        .guard (fun hcommitments =>
          .field Sections.original Opening.reads fun _ =>
          .field Sections.interaction Opening.reads fun _ =>
          .field Sections.composition Opening.reads fun _ =>
          .field Sections.layers .read fun _ =>
          (Reads.pure _).congr (fun s => by
            constructor
            · rintro ⟨⟨⟨⟨⟨⟨⟨_, rfl⟩, rfl⟩, rfl⟩, rfl⟩, rfl⟩, rfl⟩, rfl⟩
              rfl
            · rintro rfl
              simp only [and_true]
              exact ⟨hconfig, hpublic, hcommitments⟩) fun _ _ => rfl)
          (by rintro s ⟨⟨⟨hs, rfl⟩, rfl⟩, rfl⟩; exact hs.commitments))
        (by rintro s ⟨⟨hs, rfl⟩, rfl⟩; exact hs.publicInput))
      (by rintro s ⟨hs, rfl⟩; exact hs.config)
  exact h.congr (fun _ => Iff.rfl) fun s _ => by simp [Sections.flat]

theorem readSectionsOrReject_reads (layout : Layout) (params : Layout.Params) :
    Reads (readSectionsOrReject layout params) (Sections.Checked layout params) Sections.flat := by
  refine (readSections_reads layout params).tryCatch fun f => ?_
  cases f <;> exact ⟨_, rfl⟩

end Replay

/-! ## Checks -/

structure Config.Valid (c : Config) : Prop where
  firstStep : c.stepSizes.head? = some 0
  layers : 1 ≤ c.layers ∧ c.layers ≤ 15
  stepSizes : ∀ s ∈ c.stepSizes.tail, 1 ≤ s ∧ s ≤ 4
  lastLayer : c.logLastLayer ≤ 15
  covered : c.stepSizes.sum + c.logLastLayer = c.logTraceDomain
  cosets : 1 ≤ c.logCosets ∧ c.logCosets ≤ 4
  queries : 1 ≤ c.queries
  workBits : c.workBits ≤ 50

theorem Config.logCovered_eq (c : Config) : c.logCovered = c.stepSizes.sum + c.logLastLayer := by
  unfold logCovered
  induction c.stepSizes with
  | nil => simp
  | cons s sizes ih => rw [List.foldr_cons, ih, List.sum_cons, Int.add_assoc]

theorem Config.badStepSize?_eq_none {sizes : List Int} :
    badStepSize? sizes = none ↔ ∀ s ∈ sizes, 1 ≤ s ∧ s ≤ 4 := by
  simp only [badStepSize?, List.find?_eq_none, Bool.or_eq_true, decide_eq_true_eq, not_or,
    Int.not_lt]
  rfl

theorem Config.validate_eq_ok (c : Config) : c.validate = .ok () ↔ c.Valid := by
  unfold validate
  rw [ite_reject_eq_ok, ite_reject_eq_ok]
  cases hs : badStepSize? c.stepSizes.tail with
  | some s =>
    constructor
    · rintro ⟨_, _, h⟩
      exact absurd h (rejectShowing_ne_ok _ _ _)
    · intro h
      rw [badStepSize?_eq_none.2 h.stepSizes] at hs
      cases hs
  | none =>
    simp only [ite_rejectShowing_eq_ok, ite_reject_eq_ok]
    simp only [logCovered_eq, maxLayers, maxLogLastLayer, maxLogCosets, maxWorkBits]
    constructor
    · rintro ⟨h₁, h₂, h₃, h₄, h₅, h₆, h₇, _⟩
      exact ⟨by simpa using h₁, by omega, badStepSize?_eq_none.1 hs, by omega, by omega,
        by omega, by omega, by omega⟩
    · intro h
      have := h.layers
      have := h.lastLayer
      have := h.covered
      have := h.cosets
      have := h.queries
      have := h.workBits
      exact ⟨by simp [h.firstStep], by omega, by omega, by omega, by omega, by omega, by omega,
        trivial⟩

/-- The leading step takes nothing. -/
theorem Config.Valid.sum_tail {c : Config} (h : c.Valid) :
    c.stepSizes.tail.sum + c.logLastLayer = c.logTraceDomain := by
  have hcovered := h.covered
  have hfirst := h.firstStep
  cases hc : c.stepSizes with
  | nil =>
    rw [hc] at hfirst
    cases hfirst
  | cons s sizes =>
    rw [hc, List.head?_cons, Option.some.injEq] at hfirst
    rw [hc, hfirst, List.sum_cons, Int.zero_add] at hcovered
    exact hcovered

/-- Fifteen steps of four, a last layer of fifteen and four for the cosets. -/
theorem Config.Valid.logEvalDomain_le {c : Config} (h : c.Valid) : c.logEvalDomain ≤ 79 := by
  have hle := List.sum_le_card_nsmul c.stepSizes.tail 4 fun s hs => (h.stepSizes s hs).2
  have hlength := List.length_tail (l := c.stepSizes)
  have hlayers := h.layers.2
  have hlast := h.lastLayer
  have hcovered := h.sum_tail
  have hcosets := h.cosets.2
  unfold Config.layers at hlayers
  unfold Config.logEvalDomain
  rw [nsmul_eq_mul] at hle
  omega

structure PublicInput.Valid (layout : Layout) (config : Config) (p : PublicInput) : Prop where
  layout : layout.shortString = .ok p.layout
  traceSize : p.logSteps + 4 = config.logTraceDomain
  range : p.rangeCheckMin ≤ p.rangeCheckMax

theorem PublicInput.validate_eq_ok (p : PublicInput) (layout : Layout) (config : Config) :
    p.validate layout config = .ok () ↔ p.Valid layout config := by
  unfold validate
  rw [bind_eq_ok]
  constructor
  · rintro ⟨s, hs, h⟩
    split at h
    · obtain ⟨_, _, h⟩ := bind_eq_ok.1 h
      cases h
    · rename_i hl
      simp only [ite_reject_eq_ok] at h
      simp only [Fri.logComponentHeight] at h
      exact ⟨by rw [hs, Decidable.not_not.1 hl], by omega, by omega⟩
  · intro h
    refine ⟨p.layout, h.layout, ?_⟩
    have := h.traceSize
    have := h.range
    rw [if_neg (by simp)]
    simp only [ite_reject_eq_ok]
    simp only [Fri.logComponentHeight]
    exact ⟨by omega, by omega, rfl⟩

structure Commitments.Valid (params : Layout.Params) (config : Config) (c : Commitments) :
    Prop where
  oodsValues : c.oodsValues.length = params.maskSize + params.constraintDegree
  friLayers : (c.friLayers.length : Int) = config.layers
  coefficients : c.coefficients.length = 2 ^ config.logLastLayer.toNat
  nonce : c.nonce < 2 ^ 64

theorem Commitments.validate_eq_ok {c : Commitments} {params : Layout.Params} {config : Config}
    (h₀ : 0 ≤ config.logLastLayer) (h : config.logLastLayer ≤ 15) :
    c.validate params config = .ok () ↔ c.Valid params config := by
  obtain ⟨n, hn⟩ := Int.eq_ofNat_of_zero_le h₀
  have hp : powerOfTwo config.logLastLayer = .ok (2 ^ n) := by
    rw [hn]
    exact powerOfTwo_of_small (by omega)
  unfold validate
  rw [hp]
  simp only [ite_reject_eq_ok, bind_eq_ok]
  simp only [Layout.Params.oodsValues]
  constructor
  · rintro ⟨h₁, h₂, m, hm, h⟩
    cases hm
    simp only [ite_rejectShowing_eq_ok, ite_reject_eq_ok] at h
    simp only [Digest.nonceBound] at h
    obtain ⟨h₃, h₄, -⟩ := h
    exact ⟨by omega, by omega, by rw [hn, Int.toNat_natCast]; omega, by omega⟩
  · intro h
    have hc := h.coefficients
    have := h.oodsValues
    have := h.friLayers
    have := h.nonce
    rw [hn, Int.toNat_natCast] at hc
    refine ⟨by omega, by omega, _, rfl, ?_⟩
    simp only [ite_rejectShowing_eq_ok, ite_reject_eq_ok]
    simp only [Digest.nonceBound]
    exact ⟨by omega, by omega, rfl⟩

namespace Replay.Sections

variable {layout : Layout} {params : Layout.Params} {s : Sections}

structure Valid (layout : Layout) (params : Layout.Params) (s : Sections) : Prop where
  config : s.config.Valid
  publicInput : s.publicInput.Valid layout s.config
  commitments : s.commitments.Valid params s.config

theorem felts_parts (hf : Felts s.flat) :
    Felts s.config.flat ∧ Felts s.publicInput.flat ∧ Felts s.commitments.flat ∧
      Felts s.original.flat ∧ Felts s.interaction.flat ∧ Felts s.composition.flat := by
  simp only [flat, felts_append] at hf
  obtain ⟨⟨⟨⟨⟨⟨h₁, h₂⟩, h₃⟩, h₄⟩, h₅⟩, h₆⟩, -⟩ := hf
  exact ⟨h₁, h₂, h₃, h₄, h₅, h₆⟩

theorem checked_iff_valid (hf : Felts s.flat) :
    s.Checked layout params ↔ s.Valid layout params := by
  have hlast : IsFelt s.config.logLastLayer := by
    have hconfig := (felts_parts hf).1
    simp only [Config.flat, felts_append, felts_cons] at hconfig
    exact hconfig.2.1
  constructor
  · intro h
    have hconfig := (Config.validate_eq_ok _).1 h.config
    exact ⟨hconfig, (PublicInput.validate_eq_ok ..).1 h.publicInput,
      (Commitments.validate_eq_ok hlast.nonneg hconfig.lastLayer).1 h.commitments⟩
  · intro h
    exact ⟨(Config.validate_eq_ok _).2 h.config, (PublicInput.validate_eq_ok ..).2 h.publicInput,
      (Commitments.validate_eq_ok hlast.nonneg h.config.lastLayer).2 h.commitments⟩

end Replay.Sections

end StarkReplay
