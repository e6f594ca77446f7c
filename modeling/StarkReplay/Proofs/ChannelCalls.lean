import Mathlib.Data.List.DropRight
import StarkReplay.Digest.Blake2s
import StarkReplay.Proofs.Channel

/-!
Sequences of calls on one channel. The calls that absorb something make up its digest, and the
calls behind the last one of them its counter. Nothing else is kept: what a call answers depends
on these two numbers alone, and what was drawn before an absorption is forgotten by it.
-/
namespace StarkReplay.Channel

open Digest (feltOf)

/-- A call on a channel. A negative number of indices is none. -/
inductive Call where
  | absorb (values : List Int)
  | draw
  | drawIndex (bits : Int)
  | drawIndices (count bits : Int)
  | checkWork (nonce bits : Int)
  deriving DecidableEq

inductive Answer where
  | done
  | number (v : Int)
  | numbers (vs : List Int)
  | verdict (passed : Bool)
  deriving DecidableEq

/-- The index of so many bits in a draw. -/
def indexOf (H : Hash) (bits digest : Int) (drawn : Nat) : Int :=
  feltOf H [digest, drawn] % 2 ^ bits.toNat

namespace Call

def perform (H : Hash) : Call → ChannelM Answer
  | .absorb values => do
    Channel.absorb H values
    return .done
  | .draw => do return .number (← Channel.draw H)
  | .drawIndex bits => do return .number (← Channel.drawIndex H bits)
  | .drawIndices count bits => do return .numbers (← Channel.drawIndices H bits count.toNat)
  | .checkWork nonce bits => do return .verdict (← Channel.checkWork H nonce bits)

def outcome (H : Hash) (call : Call) (c : Channel) : Except Failure Answer :=
  ((call.perform H).run.run c).1

def next (H : Hash) (call : Call) (c : Channel) : Channel := ((call.perform H).run.run c).2

/-- The values that a call absorbs, if it absorbs any. -/
def absorbed : Call → Option (List Int)
  | .absorb values => some values
  | .checkWork nonce _ => some [nonce]
  | _ => none

/-- The number of draws of a call. If there is no power of two for its indices, the first draw is
the last one, and counts. -/
def draws : Call → Nat
  | .draw | .drawIndex _ => 1
  | .drawIndices count bits => if bits ≤ maxShift then count.toNat else min 1 count.toNat
  | _ => 0

def Proper : Call → Prop
  | .absorb values => Felts values
  | .draw => True
  | .drawIndex bits | .drawIndices _ bits => 0 ≤ bits
  | .checkWork nonce bits => IsFelt nonce ∧ 0 ≤ bits ∧ bits ≤ 256

instance : (call : Call) → Decidable call.Proper
  | .absorb values => inferInstanceAs (Decidable (Felts values))
  | .draw => .isTrue trivial
  | .drawIndex bits => inferInstanceAs (Decidable (0 ≤ bits))
  | .drawIndices _ bits => inferInstanceAs (Decidable (0 ≤ bits))
  | .checkWork nonce bits => inferInstanceAs (Decidable (IsFelt nonce ∧ 0 ≤ bits ∧ bits ≤ 256))

/-- What a channel with this digest, from which so many challenges were drawn, answers. -/
def answer (H : Hash) (digest : Int) (drawn : Nat) : Call → Except Failure Answer
  | .absorb _ => .ok .done
  | .draw => .ok (.number (feltOf H [digest, drawn]))
  | .drawIndex bits =>
    if bits ≤ maxShift then .ok (.number (indexOf H bits digest drawn)) else .error .overflow
  | .drawIndices count bits =>
    if bits ≤ maxShift ∨ count ≤ 0 then
      .ok (.numbers ((List.range count.toNat).map fun j => indexOf H bits digest (drawn + j)))
    else .error .overflow
  | .checkWork nonce bits =>
    .ok (.verdict (decide (Digest.IsNonce nonce ∧ Digest.HasWork H digest nonce bits)))

/-- The channel after a call. -/
def moved (H : Hash) (call : Call) (c : Channel) : Channel :=
  match call.absorbed with
  | some values => ofSeed (feltOf H (c.digest :: values))
  | none => { c with counter := c.counter + call.draws }

/-- The indices of an answer have no more bits than were asked for. -/
def Within : Call → Answer → Prop
  | .drawIndex bits, .number index => 0 ≤ index ∧ index < 2 ^ bits.toNat
  | .drawIndices _ bits, .numbers indices => ∀ index ∈ indices, 0 ≤ index ∧ index < 2 ^ bits.toNat
  | _, _ => True

end Call

/-! ## One call -/

section

variable {H : Hash} {c : Channel} {bits : Int}

theorem indexOf_bounds (digest : Int) (drawn : Nat) :
    0 ≤ indexOf H bits digest drawn ∧ indexOf H bits digest drawn < 2 ^ bits.toNat := by
  have hpos : (0 : Int) < 2 ^ bits.toNat := Int.pow_pos (by decide)
  exact ⟨Int.emod_nonneg _ hpos.ne', Int.emod_lt_of_pos _ hpos⟩

theorem run_drawIndex_of_lt (hc : IsFelt c.digest) (hn : IsFelt c.counter)
    (hb : maxShift < bits) :
    (drawIndex H bits).run.run c = (.error .overflow, { c with counter := c.counter + 1 }) := by
  rw [run_drawIndex_eq H bits hc hn, powerOfTwo_of_lt hb]
  rfl

/-- The first one fails already. -/
theorem run_drawIndices_of_lt (n : Nat) (hc : IsFelt c.digest) (hn : IsFelt c.counter)
    (hb : maxShift < bits) :
    (drawIndices H bits (n + 1)).run.run c =
      (.error .overflow, { c with counter := c.counter + 1 }) := by
  rw [drawIndices, run_bind, run_drawIndex_of_lt hc hn hb]

end

namespace Call

variable {H : Hash} {c : Channel} {call : Call}

theorem run_perform_drawIndices {count bits : Int} (hc : IsFelt c.digest) (hbits : 0 ≤ bits)
    (hdraws : ((c.counter + (drawIndices count bits).draws : Nat) : Int) ≤ Felt.prime) :
    ((drawIndices count bits).perform H).run.run c =
      ((drawIndices count bits).answer H c.digest c.counter,
        (drawIndices count bits).moved H c) := by
  obtain ⟨k, rfl⟩ := Int.eq_ofNat_of_zero_le hbits
  have hmoved : (drawIndices count k).moved H c =
      { c with counter := c.counter + (drawIndices count k).draws } := rfl
  rw [draws] at hdraws
  rw [perform, answer, hmoved, draws]
  by_cases hb : (k : Int) ≤ maxShift
  · rw [if_pos hb] at hdraws
    rw [run_bind_of_ok (run_drawIndices H _ hc hdraws hb), run_pure, if_pos (.inl hb), if_pos hb]
    rfl
  · rw [if_neg hb] at hdraws
    rcases hcount : count.toNat with _ | n
    · have hle : count ≤ 0 := Int.toNat_eq_zero.1 hcount
      rw [Channel.drawIndices, if_pos (.inr hle), if_neg hb]
      rfl
    · have hn : IsFelt c.counter := ⟨Int.natCast_nonneg _, by omega⟩
      rw [run_bind, run_drawIndices_of_lt n hc hn (Int.not_le.1 hb), if_neg (by omega), if_neg hb,
        Nat.min_eq_left (by omega)]

theorem run_perform (hc : IsFelt c.digest) (hcall : call.Proper)
    (hdraws : call.absorbed = none → ((c.counter + call.draws : Nat) : Int) ≤ Felt.prime) :
    (call.perform H).run.run c = (call.answer H c.digest c.counter, call.moved H c) := by
  have counted (hone : call.draws = 1) (hnone : call.absorbed = none) : IsFelt c.counter := by
    have hle := hdraws hnone
    rw [hone] at hle
    exact ⟨Int.natCast_nonneg _, by omega⟩
  cases call with
  | absorb values =>
    rw [perform, run_bind_of_ok (run_absorb_of_felts H hc hcall), run_pure]
    rfl
  | draw =>
    rw [perform, run_bind_of_ok (run_draw H hc (counted rfl rfl)), run_pure]
    rfl
  | drawIndex bits =>
    obtain ⟨k, rfl⟩ := Int.eq_ofNat_of_zero_le hcall
    by_cases hb : (k : Int) ≤ maxShift
    · rw [perform, run_bind_of_ok (run_drawIndex H hc (counted rfl rfl) hb), run_pure, answer,
        if_pos hb]
      rfl
    · rw [perform, run_bind, run_drawIndex_of_lt hc (counted rfl rfl) (Int.not_le.1 hb), answer,
        if_neg hb]
      rfl
  | drawIndices count bits => exact run_perform_drawIndices hc hcall (hdraws rfl)
  | checkWork nonce bits =>
    obtain ⟨hnonce, h₀, h⟩ := hcall
    rw [perform, run_bind_of_ok (run_checkWork H hc hnonce h₀ h), run_pure]
    rfl

/-- A call that absorbs something does not ask how much was drawn. -/
theorem answer_of_absorbed {values : List Int} (h : call.absorbed = some values) (digest : Int)
    (drawn : Nat) : call.answer H digest drawn = call.answer H digest 0 := by
  cases call with
  | absorb values => rfl
  | checkWork nonce bits => rfl
  | _ => cases h

theorem within_of_answer {digest : Int} {drawn : Nat} {a : Answer}
    (h : call.answer H digest drawn = .ok a) : call.Within a := by
  cases call with
  | drawIndex bits =>
    rw [answer] at h
    split at h
    · cases h
      exact indexOf_bounds digest drawn
    · cases h
  | drawIndices count bits =>
    rw [answer] at h
    split at h
    · cases h
      intro index hindex
      obtain ⟨j, -, rfl⟩ := List.mem_map.1 hindex
      exact indexOf_bounds digest (drawn + j)
    · cases h
  | _ => trivial

end Call

/-! ## All calls -/

/-- The channel after some calls, those that fail among them. -/
def after (H : Hash) (calls : List Call) (c : Channel) : Channel :=
  calls.foldl (fun c call => call.next H c) c

/-- What the calls absorb, in order. -/
def absorptions (calls : List Call) : List (List Int) := calls.filterMap Call.absorbed

/-- The digest of a seed and all that is absorbed after it. -/
def chain (H : Hash) (seed : Int) (calls : List Call) : Int :=
  (absorptions calls).foldl (fun digest values => feltOf H (digest :: values)) seed

/-- The number of draws since the last absorption. -/
def drawn (calls : List Call) : Nat :=
  ((calls.rtakeWhile fun call => call.absorbed.isNone).map Call.draws).sum

/-- Calls that a prover or a verifier makes, with no more draws in a row than the field has
elements. -/
structure Proper (calls : List Call) : Prop where
  each : ∀ call ∈ calls, call.Proper
  few : ∀ earlier ∈ calls.inits, (drawn earlier : Int) ≤ Felt.prime

section

variable {H : Hash} {seed : Int} {calls : List Call} {call : Call}

theorem after_concat (c : Channel) : after H (calls ++ [call]) c = call.next H (after H calls c) :=
  List.foldl_concat ..

theorem chain_concat_none (h : call.absorbed = none) :
    chain H seed (calls ++ [call]) = chain H seed calls := by
  simp [chain, absorptions, List.filterMap_append, h]

theorem chain_concat_some {values : List Int} (h : call.absorbed = some values) :
    chain H seed (calls ++ [call]) = feltOf H (chain H seed calls :: values) := by
  simp [chain, absorptions, List.filterMap_append, h]

theorem drawn_concat_none (h : call.absorbed = none) :
    drawn (calls ++ [call]) = drawn calls + call.draws := by
  rw [drawn, List.rtakeWhile_concat_pos _ _ _ (by rw [h]; rfl)]
  simp [drawn]

theorem drawn_concat_some {values : List Int} (h : call.absorbed = some values) :
    drawn (calls ++ [call]) = 0 := by
  rw [drawn, List.rtakeWhile_concat_neg _ _ _ (by rw [h]; nofun)]
  rfl

theorem isFelt_chain (hseed : IsFelt seed) (calls : List Call) : IsFelt (chain H seed calls) := by
  induction calls using List.reverseRecOn with
  | nil => exact hseed
  | append_singleton calls call ih =>
    cases h : call.absorbed with
    | none => rwa [chain_concat_none h]
    | some values =>
      rw [chain_concat_some h]
      exact Digest.isFelt_feltOf H _

theorem Proper.of_concat (h : Proper (calls ++ [call])) :
    Proper calls ∧ call.Proper ∧ (drawn (calls ++ [call]) : Int) ≤ Felt.prime := by
  obtain ⟨heach, hcall⟩ := List.forall_mem_append.1 h.each
  refine ⟨⟨heach, fun earlier hearlier => h.few earlier ?_⟩, List.forall_mem_singleton.1 hcall,
    h.few _ ((List.mem_inits _ _).2 (List.prefix_refl _))⟩
  exact (List.mem_inits _ _).2 (((List.mem_inits _ _).1 hearlier).trans (List.prefix_append ..))

/-- A call on the channel that the transcript gives. -/
theorem run_perform_chain (hseed : IsFelt seed) (h : Proper (calls ++ [call])) :
    (call.perform H).run.run ⟨chain H seed calls, drawn calls⟩ =
      (call.answer H (chain H seed calls) (drawn calls),
        ⟨chain H seed (calls ++ [call]), drawn (calls ++ [call])⟩) := by
  obtain ⟨-, hcall, hdrawn⟩ := h.of_concat
  have hdraws (hnone : call.absorbed = none) :
      ((drawn calls + call.draws : Nat) : Int) ≤ Felt.prime := by
    rwa [drawn_concat_none hnone] at hdrawn
  rw [Call.run_perform (c := ⟨chain H seed calls, drawn calls⟩) (isFelt_chain hseed calls) hcall
    hdraws, Call.moved]
  cases habsorbed : call.absorbed with
  | none => rw [chain_concat_none habsorbed, drawn_concat_none habsorbed]
  | some values =>
    rw [chain_concat_some habsorbed, drawn_concat_some habsorbed]
    rfl

theorem after_eq (hseed : IsFelt seed) (h : Proper calls) :
    after H calls (ofSeed seed) = ⟨chain H seed calls, drawn calls⟩ := by
  induction calls using List.reverseRecOn with
  | nil => rfl
  | append_singleton calls call ih =>
    rw [after_concat, ih h.of_concat.1, Call.next, run_perform_chain hseed h]

/-- Values that are not all felts are refused, and nothing is absorbed. -/
theorem run_absorb_of_not_felts {c : Channel} {values : List Int} (hc : IsFelt c.digest)
    (hvalues : ¬Felts values) :
    ∃ v ∈ values, ¬IsFelt v ∧
      ((Call.absorb values).perform H).run.run c = (.error (.felt (.outOfRange v)), c) := by
  have hall : ¬Felts (c.digest :: values) := fun h => hvalues (felts_cons.1 h).2
  obtain ⟨v, hv, hnot, hfelt⟩ := Digest.felt_of_not_felts H hall
  have hmem : v ∈ values := (List.mem_cons.1 hv).resolve_left fun h => hnot (h ▸ hc)
  refine ⟨v, hmem, hnot, ?_⟩
  rw [Call.perform, run_bind, run_absorb, hfelt]

/-- An absorption forgets what was drawn before it. -/
theorem run_perform_of_absorptions {earlier : List Call} (hseed : IsFelt seed)
    (hcalls : Proper calls) (hearlier : Proper earlier)
    (hsame : absorptions earlier = absorptions calls) (hcall : call.Proper)
    (habsorbs : call.absorbed.isSome) :
    (call.perform H).run.run (after H earlier (ofSeed seed)) =
      (call.perform H).run.run (after H calls (ofSeed seed)) := by
  obtain ⟨values, hvalues⟩ := Option.isSome_iff_exists.1 habsorbs
  have hrun (c : Channel) (hc : IsFelt c.digest) : (call.perform H).run.run c =
      (call.answer H c.digest 0, ofSeed (feltOf H (c.digest :: values))) := by
    rw [Call.run_perform hc hcall (by rw [hvalues]; nofun), Call.answer_of_absorbed hvalues,
      Call.moved, hvalues]
  have hchain : chain H seed earlier = chain H seed calls := by rw [chain, hsame, chain]
  rw [after_eq hseed hearlier, after_eq hseed hcalls, hrun _ (isFelt_chain hseed earlier),
    hrun _ (isFelt_chain hseed calls), hchain]

end

/-- What holds of a channel after some calls from a seed. -/
structure Follows (H : Hash) (seed : Int) (calls : List Call) (c : Channel) : Prop where
  digest : c.digest = chain H seed calls
  counter : c.counter = drawn calls
  answered : ∀ call : Call, Proper (calls ++ [call]) →
    call.outcome H c = call.answer H c.digest c.counter
  within : ∀ (call : Call) a, Proper (calls ++ [call]) → call.outcome H c = .ok a → call.Within a
  refused : ∀ values, ¬Felts values → ∃ v ∈ values, ¬IsFelt v ∧
    ((Call.absorb values).perform H).run.run c = (.error (.felt (.outOfRange v)), c)
  forgets : ∀ earlier (call : Call), Proper earlier → absorptions earlier = absorptions calls →
    call.Proper → call.absorbed.isSome →
      (call.perform H).run.run (after H earlier (ofSeed seed)) = (call.perform H).run.run c

/-- The state of a channel is a function of what was absorbed and of the number of draws after
that, and each answer is a function of the state. -/
theorem state_follows_calls (H : Hash) {seed : Int} (hseed : IsFelt seed) {calls : List Call}
    (hcalls : Proper calls) : Follows H seed calls (after H calls (ofSeed seed)) := by
  have hafter := after_eq (H := H) hseed hcalls
  have hanswer (call : Call) (h : Proper (calls ++ [call])) :
      call.outcome H (after H calls (ofSeed seed)) =
        call.answer H (chain H seed calls) (drawn calls) := by
    rw [hafter, Call.outcome, run_perform_chain hseed h]
  refine ⟨?_, ?_, ?_, ?_, ?_, ?_⟩
  · rw [hafter]
  · rw [hafter]
  · intro call h
    rw [hanswer call h, hafter]
  · intro call a h ha
    rw [hanswer call h] at ha
    exact Call.within_of_answer ha
  · intro values hvalues
    rw [hafter]
    exact run_absorb_of_not_felts (isFelt_chain hseed calls) hvalues
  · intro earlier call hearlier hsame hcall habsorbs
    exact run_perform_of_absorptions hseed hcalls hearlier hsame hcall habsorbs

/-- Values, three draws, a nonce and an index. -/
theorem state_follows_calls_small :
    IsFelt 3 ∧ Proper [.absorb [7], .draw, .drawIndices 2 8, .checkWork 5 0, .drawIndex 3] ∧
      (after Blake2s.hash [.absorb [7], .draw, .drawIndices 2 8, .checkWork 5 0, .drawIndex 3]
        (ofSeed 3)).digest = feltOf Blake2s.hash [feltOf Blake2s.hash [3, 7], 5] ∧
      (after Blake2s.hash [.absorb [7], .draw, .drawIndices 2 8, .checkWork 5 0, .drawIndex 3]
        (ofSeed 3)).counter = 1 := by
  have hseed : IsFelt 3 := by decide
  have hcalls : Proper [.absorb [7], .draw, .drawIndices 2 8, .checkWork 5 0, .drawIndex 3] :=
    ⟨by decide, by decide⟩
  have hfollows := state_follows_calls Blake2s.hash hseed hcalls
  have hdrawn : drawn [.absorb [7], .draw, .drawIndices 2 8, .checkWork 5 0, .drawIndex 3] = 1 := by
    decide
  -- for any hash function, so that none is evaluated
  have hchain (H : Hash) :
      chain H 3 [.absorb [7], .draw, .drawIndices 2 8, .checkWork 5 0, .drawIndex 3] =
        feltOf H [feltOf H [3, 7], 5] := rfl
  exact ⟨hseed, hcalls, hfollows.digest.trans (hchain _), hfollows.counter.trans hdrawn⟩

/-- An index of more bits than any number has. -/
theorem index_overflows :
    IsFelt 0 ∧ Proper [.drawIndex 100000000000000000000] ∧
      (Call.drawIndex 100000000000000000000).outcome Blake2s.hash (ofSeed 0) =
        .error .overflow := by
  have hseed : IsFelt 0 := by decide
  have hcalls : Proper ([] ++ [.drawIndex 100000000000000000000]) := ⟨by decide, by decide⟩
  have hrun := run_perform_chain (H := Blake2s.hash) hseed hcalls
  rw [Call.answer, if_neg (by decide)] at hrun
  exact ⟨hseed, hcalls, congrArg Prod.fst hrun⟩

end StarkReplay.Channel
