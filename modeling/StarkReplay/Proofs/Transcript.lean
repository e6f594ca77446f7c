import StarkReplay.Proofs.Channel
import StarkReplay.Proofs.Sections

/-!
The challenges of a proof in closed form. Each is the digest of a chain of digests over the parts
of the proof that are absorbed before it, and of the number of draws since the last of them. The
operations on the channel, run in their order on sections of felts, give these numbers.
-/
namespace StarkReplay.Replay

open Digest (feltOf)

/-- A digest after the commitments are absorbed one by one. -/
def chain (H : Hash) (digest : Int) (commitments : List Int) : Int :=
  commitments.foldl (fun d f => feltOf H [d, f]) digest

theorem isFelt_chain (H : Hash) {digest : Int} (hd : IsFelt digest) (commitments : List Int) :
    IsFelt (chain H digest commitments) := by
  induction commitments generalizing digest with
  | nil => exact hd
  | cons f rest ih => exact ih (Digest.isFelt_feltOf H _)

/-- The point drawn before the commitment at a position, of a list whose first point is drawn
after `drawn` others. -/
def pointBefore (H : Hash) (digest : Int) (drawn : Nat) (commitments : List Int) (i : Nat) : Int :=
  feltOf H [chain H digest (commitments.take i), if i = 0 then drawn else 0]

theorem run_drawEvalPoints (H : Hash) (commitments : List Int) {c : Channel}
    (hc : IsFelt c.digest) (hn : IsFelt c.counter) (hf : Felts commitments) :
    ∃ drawn, (drawEvalPoints H commitments).run.run c =
      (.ok ((List.range commitments.length).map
        (pointBefore H c.digest c.counter commitments)),
        ⟨chain H c.digest commitments, drawn⟩) := by
  induction commitments generalizing c with
  | nil => exact ⟨c.counter, rfl⟩
  | cons f rest ih =>
    obtain ⟨hf, hrest⟩ := felts_cons.1 hf
    have hd : IsFelt (feltOf H [c.digest, f]) := Digest.isFelt_feltOf H _
    obtain ⟨drawn, hr⟩ := ih (c := Channel.ofSeed (feltOf H [c.digest, f])) hd
      ⟨Int.le_refl 0, Felt.prime_pos⟩ hrest
    have ha : (Channel.absorb H [f]).run.run { c with counter := c.counter + 1 } =
        (.ok (), Channel.ofSeed (feltOf H [c.digest, f])) :=
      Channel.run_absorb_of_felts H hc (by simp [hf])
    refine ⟨drawn, ?_⟩
    rw [drawEvalPoints, run_bind_of_ok (Channel.run_draw H hc hn), run_bind_of_ok ha,
      run_bind_of_ok hr, run_pure, List.length_cons, List.range_succ_eq_map, List.map_cons,
      List.map_map]
    have hp : pointBefore H (feltOf H [c.digest, f]) 0 rest =
        pointBefore H c.digest c.counter (f :: rest) ∘ Nat.succ := by
      funext i
      simp [pointBefore, chain]
    simp only [Channel.ofSeed, hp]
    rfl

/-- All that is drawn before the proof of work: the first challenge, the indices and the points. -/
def drawBeforeWork (H : Hash) (config : Config) (c : Commitments) :
    ChannelM (Int × List Int × List Int) := do
  Channel.absorb H [c.original, c.interaction, c.composition]
  Channel.absorb H c.oodsValues
  let beta ← Channel.draw H
  let indices ← Channel.drawIndices H config.logEvalDomain config.queries.toNat
  let evalPoints ← drawEvalPoints H c.friLayers
  Channel.absorb H c.coefficients
  return (beta, indices, evalPoints)

theorem drawChallenges_eq (H : Hash) (config : Config) (c : Commitments) :
    drawChallenges H config c = do
      let (beta, indices, evalPoints) ← drawBeforeWork H config c
      let hasWork ← Channel.checkWork H c.nonce config.workBits
      return { beta, indices, evalPoints, hasWork } := by
  simp [drawChallenges, drawBeforeWork]

namespace Sections

variable (H : Hash) (s : Sections)

/-- The digest that the indices are drawn from. -/
def traceDigest : Int :=
  feltOf H (feltOf H [feltOf H s.publicInput.flat, s.commitments.original,
    s.commitments.interaction, s.commitments.composition] :: s.commitments.oodsValues)

/-- The first challenge; the rows of leaves are taken as polynomials at it. -/
def beta : Int := feltOf H [s.traceDigest H, 0]

/-- The index of a query in the evaluation domain. -/
def index (j : Nat) : Int := feltOf H [s.traceDigest H, j + 1] % 2 ^ s.config.logEvalDomain.toNat

/-- The digest after the commitments to the first FRI layers. -/
def layerDigest (i : Nat) : Int := chain H (s.traceDigest H) (s.commitments.friLayers.take i)

/-- The point at which the cosets of a FRI layer are folded. The first one is drawn right after
the indices, each other one right after the commitment to the layer before. -/
def evalPoint (i : Nat) : Int :=
  feltOf H [s.layerDigest H i, if i = 0 then s.config.queries + 1 else 0]

/-- The digest that the proof of work is about. -/
def workDigest : Int :=
  feltOf H (s.layerDigest H s.commitments.friLayers.length :: s.commitments.coefficients)

/-- What the channel yields, if all that is absorbed are felts and all exponents are small. -/
structure Drawable : Prop where
  publicInput : Felts s.publicInput.flat
  commitments : Felts s.commitments.flat
  queries : 0 ≤ s.config.queries
  queries_lt : s.config.queries + 1 < Felt.prime
  domain : 0 ≤ s.config.logEvalDomain
  domain_le : s.config.logEvalDomain ≤ maxShift
  nonce : Digest.IsNonce s.commitments.nonce
  workBits : 0 ≤ s.config.workBits
  workBits_le : s.config.workBits ≤ 256

variable {H s}

theorem isFelt_traceDigest : IsFelt (s.traceDigest H) := Digest.isFelt_feltOf H _

theorem Drawable.felts (h : s.Drawable) :
    Felts [s.commitments.original, s.commitments.interaction, s.commitments.composition] ∧
      Felts s.commitments.oodsValues ∧ Felts s.commitments.friLayers ∧
        Felts s.commitments.coefficients := by
  have hfelts := h.commitments
  simp only [Commitments.flat, felts_append, felts_span] at hfelts
  obtain ⟨⟨⟨⟨h₁, -, h₂⟩, -, h₃⟩, -, h₄⟩, -⟩ := hfelts
  exact ⟨h₁, h₂, h₃, h₄⟩

theorem run_drawBeta :
    (Channel.draw H).run.run (Channel.ofSeed (s.traceDigest H)) =
      (.ok (s.beta H), ⟨s.traceDigest H, 1⟩) :=
  Channel.run_draw H isFelt_traceDigest ⟨Int.le_refl 0, Felt.prime_pos⟩

theorem run_drawQueries (h : s.Drawable) :
    (Channel.drawIndices H s.config.logEvalDomain s.config.queries.toNat).run.run
        ⟨s.traceDigest H, 1⟩ =
      (.ok ((List.range s.config.queries.toNat).map (s.index H)),
        ⟨s.traceDigest H, 1 + s.config.queries.toNat⟩) := by
  have hq := h.queries
  have hlt := h.queries_lt
  obtain ⟨bits, hbits⟩ := Int.eq_ofNat_of_zero_le h.domain
  have hb : (bits : Int) ≤ maxShift := by rw [← hbits]; exact h.domain_le
  rw [hbits, Channel.run_drawIndices H (c := ⟨s.traceDigest H, 1⟩) _ isFelt_traceDigest
    (by simp only; omega) hb]
  have hi : s.index H = fun j => feltOf H [s.traceDigest H, (1 + j : Nat)] % 2 ^ bits := by
    funext j
    simp only [index, hbits, Int.toNat_natCast, Nat.cast_add, Nat.cast_one, Int.add_comm]
  rw [hi]

theorem run_drawPoints (h : s.Drawable) :
    ∃ drawn, (drawEvalPoints H s.commitments.friLayers).run.run
        ⟨s.traceDigest H, 1 + s.config.queries.toNat⟩ =
      (.ok ((List.range s.commitments.friLayers.length).map (s.evalPoint H)),
        ⟨s.layerDigest H s.commitments.friLayers.length, drawn⟩) := by
  have hq := h.queries
  have hlt := h.queries_lt
  obtain ⟨drawn, hr⟩ := run_drawEvalPoints H s.commitments.friLayers
    (c := ⟨s.traceDigest H, 1 + s.config.queries.toNat⟩) isFelt_traceDigest
    ⟨by simp only; omega, by simp only; omega⟩ h.felts.2.2.1
  refine ⟨drawn, ?_⟩
  have hp : s.evalPoint H = pointBefore H (s.traceDigest H) (1 + s.config.queries.toNat)
      s.commitments.friLayers := by
    funext i
    have hc : s.config.queries + 1 = (1 + s.config.queries.toNat : Nat) := by omega
    rw [evalPoint, hc]
    split <;> simp [pointBefore, layerDigest, *]
  rw [hr, hp, layerDigest, List.take_length]

theorem run_drawBeforeWork (h : s.Drawable) :
    (drawBeforeWork H s.config s.commitments).run.run (.ofSeed (feltOf H s.publicInput.flat)) =
      (.ok (s.beta H, (List.range s.config.queries.toNat).map (s.index H),
        (List.range s.commitments.friLayers.length).map (s.evalPoint H)),
        .ofSeed (s.workDigest H)) := by
  obtain ⟨hcommitments, hoods, -, hcoefficients⟩ := h.felts
  obtain ⟨drawn, hpoints⟩ := run_drawPoints (H := H) h
  have hseed := Digest.isFelt_feltOf H s.publicInput.flat
  have hchain : IsFelt (s.layerDigest H s.commitments.friLayers.length) :=
    isFelt_chain H isFelt_traceDigest _
  have htrace := Channel.run_absorb_ofSeed H hseed hcommitments
  have hoods : (Channel.absorb H s.commitments.oodsValues).run.run (.ofSeed
      (feltOf H [feltOf H s.publicInput.flat, s.commitments.original, s.commitments.interaction,
        s.commitments.composition])) = (.ok (), .ofSeed (s.traceDigest H)) :=
    Channel.run_absorb_ofSeed H (Digest.isFelt_feltOf H _) hoods
  have hlast : (Channel.absorb H s.commitments.coefficients).run.run
      ⟨s.layerDigest H s.commitments.friLayers.length, drawn⟩ =
      (.ok (), .ofSeed (s.workDigest H)) := Channel.run_absorb_of_felts H hchain hcoefficients
  rw [drawBeforeWork, run_bind_of_ok htrace, run_bind_of_ok hoods, run_bind_of_ok run_drawBeta,
    run_bind_of_ok (run_drawQueries h), run_bind_of_ok hpoints, run_bind_of_ok hlast, run_pure]

theorem challenges_eq (h : s.Drawable) :
    challenges H s = .ok {
      beta := s.beta H
      indices := (List.range s.config.queries.toNat).map (s.index H)
      evalPoints := (List.range s.commitments.friLayers.length).map (s.evalPoint H)
      hasWork :=
        decide (Digest.HasWork H (s.workDigest H) s.commitments.nonce s.config.workBits) } := by
  have hdigest : IsFelt (s.workDigest H) := Digest.isFelt_feltOf H _
  have hwork := Channel.run_checkWork H (c := .ofSeed (s.workDigest H)) hdigest h.nonce.isFelt
    h.workBits h.workBits_le
  rw [challenges, liftFelt_of_ok (Digest.felt_of_felts h.publicInput), bind_eq_ok]
  refine ⟨_, rfl, ?_⟩
  rw [drawChallenges_eq, run_bind_of_ok (run_drawBeforeWork h), run_bind_of_ok hwork, run_pure,
    decide_eq_decide.2 (and_iff_right h.nonce)]
  rfl

end Sections

end StarkReplay.Replay
