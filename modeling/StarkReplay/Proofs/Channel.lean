import StarkReplay.Channel
import StarkReplay.Proofs.Felts
import StarkReplay.Proofs.Numerals

/-!
The channel on felts. While its digest is a felt and fewer challenges than the field has elements
are drawn since the last absorption, no operation fails; the results are given here as digests of
the state.
-/
namespace StarkReplay

namespace Digest

/-- The bytes that are hashed for the proof of work on a felt and a nonce. -/
def workBytes (seed nonce : Int) : List UInt8 := words [seed] ++ Felt.bytesOnto 8 nonce.toNat []

/-- The digest of the proof of work begins with so many zero bits. -/
def HasWork (H : Hash) (seed nonce bits : Int) : Prop :=
  (H (workBytes seed nonce)).toNat < 2 ^ (256 - bits.toNat)

instance (H : Hash) (seed nonce bits : Int) : Decidable (HasWork H seed nonce bits) :=
  inferInstanceAs (Decidable (_ < _))

theorem IsNonce.isFelt {n : Int} (h : IsNonce n) : IsFelt n :=
  isFelt_of_lt h.1 (Int.lt_trans h.2 (by decide))

theorem workMessage_eq_ok {seed nonce : Int} {bytes : List UInt8} :
    workMessage seed nonce = .ok bytes ↔
      (IsFelt seed ∧ IsNonce nonce) ∧ bytes = workBytes seed nonce := by
  have hwords : words [seed] = Felt.word seed.toNat := List.flatMap_singleton ..
  simp only [workMessage, bind_eq_ok, liftFelt_eq_ok, Felt.toBytes_eq_ok, workBytes, hwords]
  constructor
  · rintro ⟨_, ⟨hseed, rfl⟩, h⟩
    split at h
    · rename_i hnonce
      exact ⟨⟨hseed, hnonce⟩, (pure_eq_ok.1 h).symm⟩
    · cases h
  · rintro ⟨⟨hseed, hnonce⟩, rfl⟩
    exact ⟨_, ⟨hseed, rfl⟩, if_pos hnonce⟩

theorem work_eq_ok {H : Hash} {seed nonce : Int} (hs : IsFelt seed) (hn : IsNonce nonce) :
    work H seed nonce = .ok (H (workBytes seed nonce)) := by
  rw [work, bind_eq_ok]
  exact ⟨_, workMessage_eq_ok.2 ⟨⟨hs, hn⟩, rfl⟩, rfl⟩

theorem hasWork_iff {H : Hash} {seed nonce bits : Int} (h₀ : 0 ≤ bits) (h : bits ≤ 256) :
    HasWork H seed nonce bits ↔ bits ≤ leadingZeros (H (workBytes seed nonce)) := by
  have hl := Numeral.bitLength_le_iff (H (workBytes seed nonce)).toNat 256
  have hb := Numeral.bitLength_le_iff (H (workBytes seed nonce)).toNat (256 - bits.toNat)
  have := (H (workBytes seed nonce)).isLt
  unfold leadingZeros HasWork
  omega

theorem hasWork_eq_ok {H : Hash} {seed nonce bits : Int} (hs : IsFelt seed) (hn : IsNonce nonce)
    (h₀ : 0 ≤ bits) (h : bits ≤ 256) :
    hasWork H seed nonce bits = .ok (decide (HasWork H seed nonce bits)) := by
  rw [hasWork, if_pos hn, work_eq_ok hs hn, bind_eq_ok]
  refine ⟨_, rfl, ?_⟩
  rw [if_neg (by omega)]
  exact congrArg Except.ok (decide_eq_decide.2 (hasWork_iff h₀ h).symm)

/-- A number that is no nonce passes for no work. -/
theorem hasWork_of_isFelt {H : Hash} {seed nonce bits : Int} (hs : IsFelt seed) (h₀ : 0 ≤ bits)
    (h : bits ≤ 256) :
    hasWork H seed nonce bits = .ok (decide (IsNonce nonce ∧ HasWork H seed nonce bits)) := by
  by_cases hn : IsNonce nonce
  · rw [hasWork_eq_ok hs hn h₀ h, decide_eq_decide.2 (and_iff_right hn)]
  · rw [hasWork, if_neg hn, decide_eq_false fun hw => hn hw.1]
    rfl

end Digest

namespace Channel

open Digest (feltOf)

theorem run_absorb_of_felts (H : Hash) {values : List Int} {c : Channel} (hc : IsFelt c.digest)
    (hv : Felts values) :
    (absorb H values).run.run c = (.ok (), ofSeed (feltOf H (c.digest :: values))) := by
  rw [run_absorb, Digest.felt_of_felts (felts_cons.2 ⟨hc, hv⟩)]

theorem run_absorb_ofSeed (H : Hash) {digest : Int} {values : List Int} (hd : IsFelt digest)
    (hv : Felts values) :
    (absorb H values).run.run (ofSeed digest) = (.ok (), ofSeed (feltOf H (digest :: values))) :=
  run_absorb_of_felts H hd hv

theorem run_draw (H : Hash) {c : Channel} (hc : IsFelt c.digest) (hn : IsFelt c.counter) :
    (draw H).run.run c =
      (.ok (feltOf H [c.digest, c.counter]), { c with counter := c.counter + 1 }) := by
  have hd : Digest.felt H [c.digest, (c.counter : Int)] = .ok (feltOf H [c.digest, c.counter]) :=
    Digest.felt_of_felts (by simp [hc, hn])
  rw [draw, run_bind_of_ok (run_get _), run_bind_of_ok (run_liftFelt_of_ok hd _),
    run_bind_of_ok (run_set _ _), run_pure]

/-- An index is drawn before its power of two is formed. -/
theorem run_drawIndex_eq (H : Hash) {c : Channel} (bits : Int) (hc : IsFelt c.digest)
    (hn : IsFelt c.counter) :
    (drawIndex H bits).run.run c =
      ((powerOfTwo bits).map fun p => feltOf H [c.digest, c.counter] % p,
        { c with counter := c.counter + 1 }) := by
  rw [drawIndex, run_bind_of_ok (run_draw H hc hn), run_bind, run_lift]
  cases powerOfTwo bits with
  | error e => rfl
  | ok p => rfl

theorem run_drawIndex (H : Hash) {c : Channel} {bits : Nat} (hc : IsFelt c.digest)
    (hn : IsFelt c.counter) (hb : (bits : Int) ≤ maxShift) :
    (drawIndex H bits).run.run c =
      (.ok (feltOf H [c.digest, c.counter] % 2 ^ bits), { c with counter := c.counter + 1 }) := by
  have hp : powerOfTwo bits = .ok (2 ^ bits) := powerOfTwo_ofNat hb
  rw [run_drawIndex_eq H bits hc hn, hp]
  simp [Except.map]

/-- The draws of a number of indices differ in the counter alone. -/
theorem run_drawIndices (H : Hash) {c : Channel} {bits : Nat} (n : Nat) (hc : IsFelt c.digest)
    (hn : ((c.counter + n : Nat) : Int) ≤ Felt.prime) (hb : (bits : Int) ≤ maxShift) :
    (drawIndices H bits n).run.run c =
      (.ok ((List.range n).map fun j =>
        feltOf H [c.digest, (c.counter + j : Nat)] % 2 ^ bits),
        { c with counter := c.counter + n }) := by
  induction n generalizing c with
  | zero => rfl
  | succ n ih =>
    have hd : IsFelt c.counter := ⟨by omega, by omega⟩
    have hrest := ih (c := { c with counter := c.counter + 1 }) hc (by simp only; omega)
    rw [drawIndices, run_bind_of_ok (run_drawIndex H hc hd hb), run_bind_of_ok hrest, run_pure,
      List.range_succ_eq_map, List.map_cons, List.map_map]
    simp only [Function.comp_def, Nat.add_zero, Nat.succ_eq_add_one, Nat.add_assoc,
      Nat.add_comm 1]

theorem run_checkWork (H : Hash) {c : Channel} {nonce bits : Int} (hc : IsFelt c.digest)
    (hnonce : IsFelt nonce) (h₀ : 0 ≤ bits) (h : bits ≤ 256) :
    (checkWork H nonce bits).run.run c =
      (.ok (decide (Digest.IsNonce nonce ∧ Digest.HasWork H c.digest nonce bits)),
        ofSeed (feltOf H [c.digest, nonce])) := by
  have hw : (liftM (Digest.hasWork H c.digest nonce bits) : ChannelM Bool).run.run c =
      (.ok (decide (Digest.IsNonce nonce ∧ Digest.HasWork H c.digest nonce bits)), c) := by
    rw [run_lift, Digest.hasWork_of_isFelt hc h₀ h]
  rw [checkWork, run_bind_of_ok (run_get _), run_bind_of_ok hw,
    run_bind_of_ok (run_absorb_of_felts H hc (by simp [hnonce])), run_pure]

end Channel

end StarkReplay
