import StarkReplay.Proofs.Verifier

/-!
Binding. The commitments of a proof fix everything behind them: an opening has as many leaves as
the configuration says, so two different openings of one commitment are two different lists of
elements with one digest.
-/
namespace StarkReplay

/-- Two openings with different elements that one value commits to. -/
def Opening.Collide (H : Hash) (o₁ o₂ : Opening) : Prop :=
  o₁.leaves ++ o₁.authentications ≠ o₂.leaves ++ o₂.authentications ∧
    ∃ d, o₁.commitment H = .ok d ∧ o₂.commitment H = .ok d

/-- The number of leaves tells where the authentications begin. -/
theorem Opening.collide_of_ne {H : Hash} {o₁ o₂ : Opening} {committed : Int} {count : Nat}
    (h₁ : o₁.Opens H committed count) (h₂ : o₂.Opens H committed count) (hf₁ : Felts o₁.flat)
    (hf₂ : Felts o₂.flat) (hne : o₁ ≠ o₂) : o₁.Collide H o₂ := by
  refine ⟨fun h => hne ?_, committed, ?_, ?_⟩
  · obtain ⟨hleaves, hauths⟩ := List.append_inj h (h₁.length.trans h₂.length.symm)
    cases o₁
    cases o₂
    simp only at hleaves hauths
    rw [hleaves, hauths]
  · rw [commitment_of_felts hf₁, h₁.commitment]
  · rw [commitment_of_felts hf₂, h₂.commitment]

namespace Replay

namespace Parts

/-- The openings of the trace commitments, then those of the layers. -/
def openings (p : Parts) : List Opening :=
  [p.sections.original, p.sections.interaction, p.sections.composition] ++ p.layers

/-- Two openings at one place collide. -/
def Collide (H : Hash) (p q : Parts) : Prop :=
  ∃ (i : Nat) (o₁ o₂ : Opening),
    p.openings[i]? = some o₁ ∧ q.openings[i]? = some o₂ ∧ o₁.Collide H o₂

variable {H : Hash} {layout : Layout} {params : Layout.Params} {p q : Parts}

theorem sections_prefix (p : Parts) : p.sections.config.flat ++ p.sections.publicInput.flat ++
    p.sections.commitments.flat <+: p.calldata := by
  rw [calldata_eq_append, ← List.append_assoc, ← List.append_assoc]
  exact List.prefix_append _ _

/-- The sections in front of the openings are read off the front of the calldata. -/
theorem sections_of_prefix {config : Config} {publicInput : PublicInput}
    {commitments : Commitments}
    (h : config.flat ++ publicInput.flat ++ commitments.flat <+: p.calldata) :
    p.sections.config = config ∧ p.sections.publicInput = publicInput ∧
      p.sections.commitments = commitments := by
  obtain ⟨left, h⟩ := h
  rw [calldata_eq_append, List.append_assoc, List.append_assoc] at h
  obtain ⟨h₁, h⟩ := Config.reads.eq_of_append_eq trivial trivial h
  obtain ⟨h₂, h⟩ := PublicInput.reads.eq_of_append_eq trivial trivial h
  obtain ⟨h₃, h⟩ := Commitments.reads.eq_of_append_eq trivial trivial h
  exact ⟨h₁.symm, h₂.symm, h₃.symm⟩

theorem openings_eq_append (p : Parts) : p.openings =
    p.sections.original :: p.sections.interaction :: p.sections.composition :: p.layers := rfl

/-- Openings at one place are opened by one value with one number of leaves. -/
theorem Replays.opens (hp : p.Replays H params layout) (hq : q.Replays H params layout)
    (hconfig : p.sections.config = q.sections.config)
    (hcommitments : p.sections.commitments = q.sections.commitments) {i : Nat} {o₁ o₂ : Opening}
    (h₁ : p.openings[i]? = some o₁) (h₂ : q.openings[i]? = some o₂) :
    ∃ committed count, o₁.Opens H committed count ∧ o₂.Opens H committed count := by
  have hcount : p.sections.count = q.sections.count := by
    rw [Sections.count, Sections.count, hconfig]
  have hopened := hp.initial.opened
  obtain ⟨ho, hi, hc⟩ := hq.initial.opened
  rw [← hcommitments, ← hcount] at ho hi hc
  rw [openings_eq_append] at h₁ h₂
  match i, h₁, h₂ with
  | 0, h₁, h₂ =>
    cases h₁
    cases h₂
    exact ⟨_, _, hopened.original, ho⟩
  | 1, h₁, h₂ =>
    cases h₁
    cases h₂
    exact ⟨_, _, hopened.interaction, hi⟩
  | 2, h₁, h₂ =>
    cases h₁
    cases h₂
    exact ⟨_, _, hopened.composition, hc⟩
  | k + 3, h₁, h₂ =>
    have h₁ : p.layers[k]? = some o₁ := h₁
    have h₂ : q.layers[k]? = some o₂ := h₂
    obtain ⟨hk₁, rfl⟩ := List.getElem?_eq_some_iff.1 h₁
    obtain ⟨hk₂, rfl⟩ := List.getElem?_eq_some_iff.1 h₂
    have hop := (hp.rounds k hk₁).opens
    have hoq := (hq.rounds k hk₂).opens
    have hcommitment : q.sections.layerCommitment k = p.sections.layerCommitment k := by
      rw [Sections.layerCommitment, Sections.layerCommitment, hcommitments]
    have hsize : q.sections.stepSize k = p.sections.stepSize k := by
      rw [Sections.stepSize, Sections.stepSize, hconfig]
    rw [layer_eq_getElem hk₁] at hop
    rw [layer_eq_getElem hk₂, hcommitment, ← hcount, hsize] at hoq
    exact ⟨_, _, hop, hoq⟩

theorem felts_opening (hf : Felts p.calldata) {i : Nat} {o : Opening}
    (h : p.openings[i]? = some o) : Felts o.flat := by
  obtain ⟨hsections, hlayers⟩ := felts_calldata.1 hf
  obtain ⟨-, -, -, ho, hi, hc⟩ := Sections.felts_parts hsections
  have hmem := List.mem_of_getElem? h
  simp only [openings_eq_append, List.mem_cons] at hmem
  rcases hmem with rfl | rfl | rfl | hmem
  · exact ho
  · exact hi
  · exact hc
  · exact felts_flatMap.1 hlayers o hmem

/-- The sections in front of the openings and the openings are all of an accepted proof. -/
theorem eq_of_openings_eq (hp : p.Replays H params layout) (hq : q.Replays H params layout)
    (hconfig : p.sections.config = q.sections.config)
    (hpublic : p.sections.publicInput = q.sections.publicInput)
    (hcommitments : p.sections.commitments = q.sections.commitments)
    (h : p.openings = q.openings) : p = q := by
  have hdeclared : p.sections.layers = q.sections.layers := by
    rw [hp.initial.declared, hq.initial.declared, hconfig]
  simp only [openings_eq_append, List.cons.injEq] at h
  obtain ⟨ho, hi, hc, hlayers⟩ := h
  obtain ⟨⟨_, _, _, _, _, _, _⟩, _⟩ := p
  obtain ⟨⟨_, _, _, _, _, _, _⟩, _⟩ := q
  simp only at hconfig hpublic hcommitments ho hi hc hdeclared hlayers
  subst hconfig hpublic hcommitments ho hi hc hdeclared hlayers
  rfl

end Parts

/-- Two accepted proofs with the same commitments are one, or two openings collide. -/
theorem verify_eq_or_collide {H : Hash} {name : Text} {calldata₁ calldata₂ : List Int}
    {t₁ t₂ : Trace} (h₁ : verify H name calldata₁ = .ok t₁) (h₂ : verify H name calldata₂ = .ok t₂)
    {config : Config} {publicInput : PublicInput} {commitments : Commitments}
    (hp₁ : config.flat ++ publicInput.flat ++ commitments.flat <+: calldata₁)
    (hp₂ : config.flat ++ publicInput.flat ++ commitments.flat <+: calldata₂) :
    calldata₁ = calldata₂ ∨
      ∃ p q, Parts.calldata p = calldata₁ ∧ Parts.calldata q = calldata₂ ∧ p.Collide H q := by
  obtain ⟨layout, params, p, hres, hf₁, rfl, hp, -⟩ := verify_sound h₁
  obtain ⟨_, _, q, hres', hf₂, rfl, hq, -⟩ := verify_sound h₂
  cases hres.symm.trans hres'
  obtain ⟨hc₁, hi₁, hu₁⟩ := Parts.sections_of_prefix hp₁
  obtain ⟨hc₂, hi₂, hu₂⟩ := Parts.sections_of_prefix hp₂
  have hconfig := hc₁.trans hc₂.symm
  have hcommitments := hu₁.trans hu₂.symm
  have hlength : p.openings.length = q.openings.length := by
    have hlp := hp.layers
    have hlq := hq.layers
    rw [hconfig] at hlp
    simp only [Parts.openings_eq_append, List.length_cons]
    omega
  rw [or_iff_not_imp_left]
  intro hne
  -- without a collision all openings agree, place by place
  by_contra hnone
  refine hne (congrArg Parts.calldata (Parts.eq_of_openings_eq hp.toReplays hq.toReplays hconfig
    (hi₁.trans hi₂.symm) hcommitments (List.ext_getElem hlength fun i hi hj => ?_)))
  by_contra hdiffer
  have ho₁ := List.getElem?_eq_getElem hi
  have ho₂ := List.getElem?_eq_getElem hj
  obtain ⟨committed, count, hopen₁, hopen₂⟩ :=
    hp.toReplays.opens hq.toReplays hconfig hcommitments ho₁ ho₂
  exact hnone ⟨p, q, rfl, rfl, i, _, _, ho₁, ho₂, Opening.collide_of_ne hopen₁ hopen₂
    (Parts.felts_opening hf₁ ho₁) (Parts.felts_opening hf₂ ho₂) hdiffer⟩

/-- Another authentication with the same digest. -/
theorem verify_eq_or_collide_small :
    verify smallHash Layout.recursive.name (Parts.small [9]).calldata = .ok (.small [9]) ∧
      verify smallHash Layout.recursive.name (Parts.small [106]).calldata = .ok (.small [106]) ∧
        ∃ p q, Parts.calldata p = (Parts.small [9]).calldata ∧
          Parts.calldata q = (Parts.small [106]).calldata ∧ p.Collide smallHash q := by
  have h₁ : verify smallHash Layout.recursive.name (Parts.small [9]).calldata =
      .ok (.small [9]) := by decide +kernel
  have h₂ : verify smallHash Layout.recursive.name (Parts.small [106]).calldata =
      .ok (.small [106]) := by decide +kernel
  have hne : (Parts.small [9]).calldata ≠ (Parts.small [106]).calldata := by decide +kernel
  exact ⟨h₁, h₂, (verify_eq_or_collide h₁ h₂ (Parts.sections_prefix (.small [9]))
    (Parts.sections_prefix (.small [106]))).resolve_left hne⟩

end Replay

end StarkReplay
