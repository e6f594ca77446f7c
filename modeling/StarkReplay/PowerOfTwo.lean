import StarkReplay.Failure

/-!
Powers of two with an exponent that is read from a stream, and so may be negative or far too
large for the power to be formed.
-/
namespace StarkReplay

/-- No number has more bits than this. -/
def maxShift : Int := 69175290276410818320

/-- `2 ^ n`, if there is such a number. -/
def powerOfTwo (n : Int) : Except Failure Nat :=
  if n < 0 then .error .negativeShift
  else if maxShift < n then .error .overflow
  else .ok (Nat.pow 2 n.toNat)

theorem powerOfTwo_ofNat {n : Nat} (h : (n : Int) ≤ maxShift) :
    powerOfTwo n = .ok (Nat.pow 2 n) := by
  rw [powerOfTwo, if_neg (by omega), if_neg (by omega), Int.toNat_natCast]

/-- The exponents that a verifier has checked are small. -/
theorem powerOfTwo_of_small {n : Nat} (h : n ≤ 15) : powerOfTwo n = .ok (Nat.pow 2 n) :=
  powerOfTwo_ofNat (Int.le_trans (Int.ofNat_le.2 h) (by decide))

theorem powerOfTwo_of_lt {n : Int} (h : maxShift < n) : powerOfTwo n = .error .overflow := by
  have h₀ : (0 : Int) < maxShift := by decide
  rw [powerOfTwo, if_neg (by omega), if_pos h]

end StarkReplay
