import Mathlib.Algebra.BigOperators.Fin
import StarkReplay.Cursor
import StarkReplay.Digest
import StarkReplay.Proofs.Outcome

/-!
Sequences of felts and their digests. On felts hashing cannot fail, so the digests of a sequence
are given here as plain numbers too; `Digest.felt` and `Digest.commitment` succeed exactly on
felts and give these numbers.
-/
namespace StarkReplay

/-- All elements are in the field. -/
def Felts (vs : List Int) : Prop := ∀ v ∈ vs, IsFelt v

instance (vs : List Int) : Decidable (Felts vs) :=
  inferInstanceAs (Decidable (∀ v ∈ vs, IsFelt v))

theorem isFelt_of_lt {v : Int} (h₀ : 0 ≤ v) (h : v < 2 ^ 251) : IsFelt v :=
  ⟨h₀, Int.lt_trans h (by decide)⟩

theorem isFelt_natCast {n : Nat} (h : n ≤ 2 ^ 15) : IsFelt n :=
  isFelt_of_lt (Int.natCast_nonneg n) (by omega)

theorem IsFelt.nonneg {v : Int} (h : IsFelt v) : 0 ≤ v := h.1

@[simp] theorem felts_nil : Felts [] := nofun

@[simp] theorem felts_cons {v : Int} {vs : List Int} :
    Felts (v :: vs) ↔ IsFelt v ∧ Felts vs := List.forall_mem_cons

theorem felts_singleton {v : Int} : Felts [v] ↔ IsFelt v := List.forall_mem_singleton

@[simp] theorem felts_append {vs ws : List Int} : Felts (vs ++ ws) ↔ Felts vs ∧ Felts ws :=
  List.forall_mem_append

@[simp] theorem felts_span {vs : List Int} :
    Felts (Cursor.span vs) ↔ IsFelt vs.length ∧ Felts vs := felts_cons

@[simp] theorem felts_flatMap {α : Type} {f : α → List Int} {as : List α} :
    Felts (as.flatMap f) ↔ ∀ a ∈ as, Felts (f a) := by
  simp only [Felts, List.mem_flatMap]
  constructor
  · intro h a ha v hv
    exact h v ⟨a, ha, hv⟩
  · rintro h v ⟨a, ha, hv⟩
    exact h a ha v hv

theorem Felts.take {vs : List Int} (h : Felts vs) (n : Nat) : Felts (vs.take n) :=
  fun v hv => h v (List.mem_of_mem_take hv)

theorem Felts.drop {vs : List Int} (h : Felts vs) (n : Nat) : Felts (vs.drop n) :=
  fun v hv => h v (List.mem_of_mem_drop hv)

namespace Felt

theorem check_eq_ok {v w : Int} : check v = .ok w ↔ IsFelt v ∧ w = v := by
  unfold check
  split
  · rename_i h
    simp [h, eq_comm]
  · rename_i h
    simp [h]

theorem toBytes_eq_ok {v : Int} {bytes : List UInt8} :
    toBytes v = .ok bytes ↔ IsFelt v ∧ bytes = word v.toNat := by
  unfold toBytes
  rw [bind_eq_ok]
  constructor
  · rintro ⟨w, hw, h⟩
    obtain ⟨hv, rfl⟩ := check_eq_ok.1 hw
    exact ⟨hv, (pure_eq_ok.1 h).symm⟩
  · rintro ⟨hv, rfl⟩
    exact ⟨v, check_of_isFelt hv, rfl⟩

end Felt

namespace Digest

/-- The 32-byte words of a sequence, one after another. -/
def words (vs : List Int) : List UInt8 := vs.flatMap (fun v => Felt.word v.toNat)

/-- The digest of a sequence of felts, reduced into the field. -/
def feltOf (H : Hash) (vs : List Int) : Int := (H (words vs)).toNat % Felt.prime

/-- The commitment to a sequence of felts. -/
def commitmentOf (H : Hash) (vs : List Int) : Int := ((H (words vs)).toNat % 2 ^ 160 : Nat)

theorem message_eq_ok {vs : List Int} {bytes : List UInt8} :
    message vs = .ok bytes ↔ Felts vs ∧ bytes = words vs := by
  induction vs generalizing bytes with
  | nil => simp [message, words, eq_comm]
  | cons v vs ih =>
    simp only [message, bind_eq_ok, Felt.toBytes_eq_ok, ih, pure_eq_ok, felts_cons]
    constructor
    · rintro ⟨_, ⟨hv, rfl⟩, _, ⟨hvs, rfl⟩, rfl⟩
      exact ⟨⟨hv, hvs⟩, rfl⟩
    · rintro ⟨⟨hv, hvs⟩, rfl⟩
      exact ⟨_, ⟨hv, rfl⟩, _, ⟨hvs, rfl⟩, rfl⟩

theorem felt_eq_ok {H : Hash} {vs : List Int} {d : Int} :
    felt H vs = .ok d ↔ Felts vs ∧ d = feltOf H vs := by
  simp only [felt, bind_eq_ok, message_eq_ok, pure_eq_ok]
  constructor
  · rintro ⟨_, ⟨hvs, rfl⟩, rfl⟩
    exact ⟨hvs, rfl⟩
  · rintro ⟨hvs, rfl⟩
    exact ⟨_, ⟨hvs, rfl⟩, rfl⟩

theorem commitment_eq_ok {H : Hash} {vs : List Int} {d : Int} :
    commitment H vs = .ok d ↔ Felts vs ∧ d = commitmentOf H vs := by
  simp only [commitment, bind_eq_ok, message_eq_ok, pure_eq_ok]
  constructor
  · rintro ⟨_, ⟨hvs, rfl⟩, rfl⟩
    exact ⟨hvs, rfl⟩
  · rintro ⟨hvs, rfl⟩
    exact ⟨_, ⟨hvs, rfl⟩, rfl⟩

theorem felt_of_felts {H : Hash} {vs : List Int} (h : Felts vs) : felt H vs = .ok (feltOf H vs) :=
  felt_eq_ok.2 ⟨h, rfl⟩

/-- An element that is no felt is refused, and named. -/
theorem message_of_not_felts {vs : List Int} (h : ¬Felts vs) :
    ∃ v ∈ vs, ¬IsFelt v ∧ message vs = .error (.outOfRange v) := by
  induction vs with
  | nil => exact absurd felts_nil h
  | cons v vs ih =>
    by_cases hv : IsFelt v
    · obtain ⟨w, hw, hnot, hmessage⟩ := ih fun hvs => h (felts_cons.2 ⟨hv, hvs⟩)
      refine ⟨w, List.mem_cons_of_mem v hw, hnot, ?_⟩
      rw [message, Felt.toBytes_eq_ok.2 ⟨hv, rfl⟩, ok_bind, hmessage]
      rfl
    · refine ⟨v, List.mem_cons_self, hv, ?_⟩
      rw [message, Felt.toBytes, Felt.check_of_not_isFelt hv]
      rfl

/-- A number that is no felt is refused by both digests, whatever the hash function. -/
theorem digests_of_not_felts {vs : List Int} (h : ¬Felts vs) : ∃ v ∈ vs, ¬IsFelt v ∧
    ∀ H, felt H vs = .error (.outOfRange v) ∧ commitment H vs = .error (.outOfRange v) := by
  obtain ⟨v, hv, hnot, hmessage⟩ := message_of_not_felts h
  exact ⟨v, hv, hnot, fun H =>
    ⟨bind_eq_error.2 (.inl hmessage), bind_eq_error.2 (.inl hmessage)⟩⟩

theorem felt_of_not_felts (H : Hash) {vs : List Int} (h : ¬Felts vs) :
    ∃ v ∈ vs, ¬IsFelt v ∧ felt H vs = .error (.outOfRange v) := by
  obtain ⟨v, hv, hnot, hdigests⟩ := digests_of_not_felts h
  exact ⟨v, hv, hnot, (hdigests H).1⟩

theorem isFelt_feltOf (H : Hash) (vs : List Int) : IsFelt (feltOf H vs) := Felt.isFelt_emod _

end Digest

end StarkReplay
