import StarkReplay.Failure

/-!
Field elements. Streams hold integers; the ones from 0 up to the prime of the field, itself
excluded, are its elements. All arithmetic on them is modulo that prime.
-/
namespace StarkReplay

namespace Felt

/-- The number `2 ^ 251 + 17 * 2 ^ 192 + 1`. -/
def prime : Int := 0x800000000000011000000000000000000000000000000000000000000000001

end Felt

def IsFelt (v : Int) : Prop := 0 ≤ v ∧ v < Felt.prime

instance (v : Int) : Decidable (IsFelt v) := inferInstanceAs (Decidable (0 ≤ v ∧ v < Felt.prime))

namespace Felt

theorem prime_pos : 0 < prime := by decide

def check (v : Int) : Except FeltError Int :=
  if IsFelt v then .ok v else .error (.outOfRange v)

theorem check_of_isFelt {v : Int} (h : IsFelt v) : check v = .ok v := if_pos h

theorem check_of_not_isFelt {v : Int} (h : ¬IsFelt v) : check v = .error (.outOfRange v) :=
  if_neg h

theorem isFelt_emod (v : Int) : IsFelt (v % prime) :=
  ⟨Int.emod_nonneg v (by decide), Int.emod_lt_of_pos v prime_pos⟩

end Felt

end StarkReplay
