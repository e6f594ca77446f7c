import StarkReplay.Proofs.Verifier

/-!
What the challenges depend on. Two proofs that agree in all that is absorbed before the first FRI
layer, and in the number and the size of the query indices, are queried at the same places. The
point of a layer depends in addition on the commitments to the layers before it, and on nothing
that comes later: not on its own commitment, the last layer, the nonce or any opening.
-/
namespace StarkReplay.Replay

/-- Two lists agree in their first entries, as far as both have them. -/
def AgreeUpTo (k : Nat) (xs ys : List Int) : Prop :=
  ∀ i < k, ∀ x y, xs[i]? = some x → ys[i]? = some y → x = y

theorem AgreeUpTo.take_eq {k i : Nat} {xs ys : List Int} (h : AgreeUpTo k xs ys) (hi : i ≤ k)
    (hx : i ≤ xs.length) (hy : i ≤ ys.length) : xs.take i = ys.take i := by
  have hlength : (xs.take i).length = (ys.take i).length := by
    simp [hx, hy]
  apply List.ext_getElem hlength
  intro j hj hj'
  simp only [List.length_take] at hj hj'
  rw [List.getElem_take, List.getElem_take]
  exact h j (by omega) _ _ (List.getElem?_eq_getElem _) (List.getElem?_eq_getElem _)

namespace Sections

/-- The initial phase reads these sections off a stream of felts, and they lead to this state. -/
structure Begins (H : Hash) (layout : Layout) (params : Layout.Params) (stream : List Int)
    (s : Sections) (t : Start) : Prop where
  felts : Felts stream
  read : ((readSections layout params).run.run (Cursor.ofList stream)).1 = .ok s
  start : ((initial H layout params).run.run (Cursor.ofList stream)).1 = .ok t

/-- The challenges that the sections draw are those of the state that they lead to. -/
structure Draws (H : Hash) (params : Layout.Params) (s : Sections) (t : Start) (c : Challenges) :
    Prop where
  drawn : challenges H s = .ok c
  indices : t.progress.queries.map Prod.fst = c.indices
  values : ∃ rs, rows H params s = .ok rs ∧
    rs.mapM (Polynomial.evaluate · c.beta) = .ok (t.progress.queries.map Prod.snd)
  evalPoints : t.schedule.evalPoints = c.evalPoints

/-- The proofs agree in what is absorbed before the first layer and in the query indices asked
for. -/
structure AgreeOnTrace (s₁ s₂ : Sections) : Prop where
  publicInput : s₁.publicInput = s₂.publicInput
  original : s₁.commitments.original = s₂.commitments.original
  interaction : s₁.commitments.interaction = s₂.commitments.interaction
  composition : s₁.commitments.composition = s₂.commitments.composition
  oodsValues : s₁.commitments.oodsValues = s₂.commitments.oodsValues
  queries : s₁.config.queries = s₂.config.queries
  evalDomain : s₁.config.logTraceDomain + s₁.config.logCosets =
    s₂.config.logTraceDomain + s₂.config.logCosets

variable {H : Hash} {layout : Layout} {params : Layout.Params} {s s₁ s₂ : Sections}

/-! ## One proof -/

/-- The challenges in closed form. -/
def drawn (H : Hash) (s : Sections) : Challenges where
  beta := s.beta H
  indices := (List.range s.count).map (s.index H)
  evalPoints := (List.range s.commitments.friLayers.length).map (s.evalPoint H)
  hasWork := decide (s.HasWork H)

theorem drawn_evalPoints_getElem? {i : Nat} {x : Int} : (s.drawn H).evalPoints[i]? = some x ↔
    i < s.commitments.friLayers.length ∧ s.evalPoint H i = x := by
  simp [drawn, List.getElem?_eq_some_iff]

theorem Begins.draws {stream : List Int} {t : Start} (h : s.Begins H layout params stream t)
    (hparams : layout.params? = some params) : s.Draws H params t (s.drawn H) := by
  obtain ⟨hf, hread, hstart⟩ := h
  rcases hr : (initial H layout params).run.run (Cursor.ofList stream) with ⟨outcome, c⟩
  rw [hr] at hstart
  subst hstart
  obtain ⟨s', left, rfl, hpass, rfl, -⟩ := (initial_eq_ok hparams hf).1 hr
  have hfelts := (felts_append.1 hf).1
  have hchecked := (checked_iff_valid hfelts).2 hpass.valid
  have hsections := (readSections_reads layout params).complete hchecked [] left
  rw [Cursor.ofList_eq_between, hsections] at hread
  obtain rfl := Except.ok.inj hread
  refine ⟨challenges_eq (hpass.opened.drawable hpass.valid hparams hfelts), ?_, ?_, rfl⟩
  · simp [Sections.start, drawn, Function.comp_def]
  · refine ⟨_, (rows_eq_ok hpass.valid hparams hfelts).2 ⟨hpass.opened, rfl⟩, ?_⟩
    simp only [Sections.start, List.map_map, Function.comp_def]
    exact evaluate_rows hfelts

/-! ## Two proofs -/

theorem AgreeOnTrace.traceDigest_eq (h : s₁.AgreeOnTrace s₂) :
    s₁.traceDigest H = s₂.traceDigest H := by
  simp only [traceDigest, h.publicInput, h.original, h.interaction, h.composition, h.oodsValues]

theorem AgreeOnTrace.beta_eq (h : s₁.AgreeOnTrace s₂) : s₁.beta H = s₂.beta H := by
  rw [beta, beta, h.traceDigest_eq]

theorem AgreeOnTrace.index_eq (h : s₁.AgreeOnTrace s₂) : s₁.index H = s₂.index H := by
  funext j
  simp only [index, Config.logEvalDomain, h.traceDigest_eq, h.evalDomain]

/-- The point of a layer behind those in which the commitments agree. -/
theorem AgreeOnTrace.evalPoint_eq (h : s₁.AgreeOnTrace s₂) {k i : Nat}
    (hlayers : AgreeUpTo k s₁.commitments.friLayers s₂.commitments.friLayers) (hi : i ≤ k)
    (hi₁ : i ≤ s₁.commitments.friLayers.length) (hi₂ : i ≤ s₂.commitments.friLayers.length) :
    s₁.evalPoint H i = s₂.evalPoint H i := by
  simp only [evalPoint, layerDigest, h.traceDigest_eq, hlayers.take_eq hi hi₁ hi₂, h.queries]

end Sections

/-- Challenges depend on what is absorbed before they are drawn and on nothing else. -/
theorem challenges_causal {H : Hash} {layout : Layout} {params : Layout.Params}
    (hparams : layout.params? = some params) {stream₁ stream₂ : List Int} {s₁ s₂ : Sections}
    {t₁ t₂ : Start} (h₁ : s₁.Begins H layout params stream₁ t₁)
    (h₂ : s₂.Begins H layout params stream₂ t₂) (h : s₁.AgreeOnTrace s₂) :
    ∃ c₁ c₂, s₁.Draws H params t₁ c₁ ∧ s₂.Draws H params t₂ c₂ ∧
      c₁.beta = c₂.beta ∧ c₁.indices = c₂.indices ∧
        ∀ k, AgreeUpTo k s₁.commitments.friLayers s₂.commitments.friLayers →
          AgreeUpTo (k + 1) c₁.evalPoints c₂.evalPoints := by
  refine ⟨_, _, h₁.draws hparams, h₂.draws hparams, h.beta_eq, ?_, ?_⟩
  · have hcount : s₁.count = s₂.count := by
      rw [Sections.count, Sections.count, h.queries]
    simp only [Sections.drawn, hcount, h.index_eq]
  · intro k hlayers i hi x y hx hy
    obtain ⟨hi₁, rfl⟩ := Sections.drawn_evalPoints_getElem?.1 hx
    obtain ⟨hi₂, rfl⟩ := Sections.drawn_evalPoints_getElem?.1 hy
    exact h.evalPoint_eq hlayers (by omega) hi₁.le hi₂.le

/-- The small proof with other layers, another last layer, proof of work and authentication. -/
def Sections.smallBranch : Sections where
  config := ⟨4, 1, 2, 30, [0, 1, 1, 1], 1⟩
  publicInput := ⟨0, 1, 2, 0x726563757273697665, [14, 4]⟩
  commitments := ⟨63, 0, 15, List.replicate 135 5, [70, 8, 9], [1, 2], 7⟩
  original := ⟨[8, 0, 0, 0, 0, 0, 0, 1, 2, 0, 0, 0, 0, 0], [103]⟩
  interaction := ⟨List.replicate 6 0, []⟩
  composition := ⟨List.replicate 4 0, [7]⟩
  layers := 3

theorem challenges_causal_small :
    ∃ params s₁ s₂ t₁ t₂, Layout.recursive.params? = some params ∧
      Sections.Begins smallHash .recursive params s₁.flat s₁ t₁ ∧
        Sections.Begins smallHash .recursive params s₂.flat s₂ t₂ ∧ s₁.AgreeOnTrace s₂ ∧
          s₁.commitments.friLayers ≠ s₂.commitments.friLayers ∧
          ∃ c₁ c₂, s₁.Draws smallHash params t₁ c₁ ∧ s₂.Draws smallHash params t₂ c₂ ∧
            c₁.beta = c₂.beta ∧ c₁.indices = c₂.indices ∧
              ∀ k, AgreeUpTo k s₁.commitments.friLayers s₂.commitments.friLayers →
                AgreeUpTo (k + 1) c₁.evalPoints c₂.evalPoints := by
  have hparams : Layout.recursive.params? = some ⟨7, 3, 133, 2⟩ := rfl
  have h₁ : Sections.Begins smallHash .recursive ⟨7, 3, 133, 2⟩ (Parts.small [9]).sections.flat
      (Parts.small [9]).sections .small :=
    ⟨by decide +kernel, by decide +kernel, by decide +kernel⟩
  have h₂ : Sections.Begins smallHash .recursive ⟨7, 3, 133, 2⟩ Sections.smallBranch.flat
      .smallBranch ⟨⟨3, [70, 8, 9], [9, 23, 57], [1, 1, 1], 52⟩, ⟨0, [(25, 8), (12, 25)]⟩,
        [1, 2]⟩ :=
    ⟨by decide +kernel, by decide +kernel, by decide +kernel⟩
  have h : Sections.AgreeOnTrace (Parts.small [9]).sections .smallBranch :=
    ⟨rfl, rfl, rfl, rfl, rfl, rfl, rfl⟩
  exact ⟨_, _, _, _, _, hparams, h₁, h₂, h, by decide, challenges_causal hparams h₁ h₂ h⟩

end StarkReplay.Replay
