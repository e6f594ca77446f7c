import StarkReplay.Text.Numeral

/-!
Numbers of the binary64 format. A finite one is a sign and a natural number of units, where a
unit is the least positive number of the format, `2 ^ (-1074)`. Decimal numbers are rounded to
the nearest number of the format, a tie going to the even significand.
-/
namespace StarkReplay

inductive Binary64 where
  | nan
  | infinite (negative : Bool)
  | finite (negative : Bool) (units : Nat)
  deriving DecidableEq

namespace Binary64

/-- Units of the number one. -/
def one : Nat := Nat.pow 2 1074

/-- Units of the least power of two past the finite numbers. -/
def overflow : Nat := Nat.pow 2 2098

/-- The spacing of the format around `units`: the significand has 53 bits. -/
def spacing (units : Nat) : Nat := Nat.pow 2 (units.log2 - 52)

/-- The integer nearest to `num / den`, the even one of two. -/
def roundQuotient (num den : Nat) : Nat :=
  let q := num / den
  let r := num % den
  if 2 * r < den then q
  else if den < 2 * r then q + 1
  else q + q % 2

/-- The number nearest to `num / den` units. -/
def ofQuotient (negative : Bool) (num den : Nat) : Binary64 :=
  let s := spacing (num / den)
  let units := roundQuotient num (den * s) * s
  if units < overflow then finite negative units else infinite negative

/-- The number nearest to `coefficient * 10 ^ exponent`. The number of digits in front of the
point settles what lies past `10 ^ 310` or below `10 ^ (-325)`, so no such power is computed. -/
def ofDecimal (negative : Bool) (coefficient : Nat) (exponent : Int) : Binary64 :=
  let point := (Numeral.digits 10 coefficient).length + exponent
  if coefficient = 0 ∨ point < -325 then finite negative 0
  else if 310 < point then infinite negative
  else if 0 ≤ exponent then
    ofQuotient negative (coefficient * Nat.pow 10 exponent.toNat * one) 1
  else ofQuotient negative (coefficient * one) (Nat.pow 10 (-exponent).toNat)

end Binary64

end StarkReplay
