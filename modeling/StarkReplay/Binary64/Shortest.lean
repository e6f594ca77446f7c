import StarkReplay.Binary64

/-!
The shortest decimal text of a binary64 number: the fewest digits that are rounded back to the
number, and of those the nearest. Decimal points stand where the exponent of the first digit is
from -4 to 15; other numbers are written with an exponent of two digits at least.
-/
namespace StarkReplay.Binary64

/-- A decimal number `coefficient * 10 ^ exponent`. -/
structure Decimal where
  coefficient : Nat
  exponent : Int

/-- Quarters of a unit between the number and the ends of the interval that is rounded to it.
Below a power of two the spacing halves. -/
def margins (units : Nat) : Nat × Nat :=
  let s := spacing units
  (if units = Nat.pow 2 units.log2 ∧ 1 < s then s else 2 * s, 2 * s)

/-- Does `quarters / den` quarters of a unit lie in the interval that is rounded to `units`?
Its ends belong to it when the significand is even. -/
def roundsTo (units quarters den : Nat) : Bool :=
  let (below, above) := margins units
  let low := (4 * units - below) * den
  let high := (4 * units + above) * den
  if units / spacing units % 2 = 0 then low ≤ quarters && quarters ≤ high
  else low < quarters && quarters < high

/-- The least `j` with `1 ≤ units * 10 ^ (j + 1)` in the scale of `one`, from `j` on. -/
def leadingZeros (units : Nat) : Nat → Nat → Nat
  | 0, j => j
  | fuel + 1, j => if one ≤ units * Nat.pow 10 (j + 1) then j else leadingZeros units fuel (j + 1)

/-- The `p` with `10 ^ (p - 1) ≤ x < 10 ^ p` for the positive number `x` of so many units. -/
def point (units : Nat) : Int :=
  if one ≤ units then (Numeral.digits 10 (units / one)).length
  else -(leadingZeros units 330 0 : Int)

/-- The multiple of `10 ^ exponent` next to the number that is rounded back to it, if any. -/
def onGrid (units : Nat) (exponent : Int) : Option Nat :=
  let num := Nat.pow 10 exponent.toNat * one
  let den := Nat.pow 10 (-exponent).toNat
  let low := units * den / num
  let high := low + 1
  let fits := fun c => roundsTo units (4 * c * num) den
  if fits low && fits high then
    let toLow := units * den - low * num
    let toHigh := high * num - units * den
    some (if toLow < toHigh ∨ (toLow = toHigh ∧ low % 2 = 0) then low else high)
  else if fits low then some low
  else if fits high then some high
  else none

/-- The first grid with a hit among those of `n`, `n + 1`, … digits. -/
def shortestFrom (units : Nat) (point : Int) : Nat → Nat → Decimal
  | 0, n => ⟨units, n - point⟩
  | fuel + 1, n =>
    match onGrid units (point - n) with
    | some c => ⟨c, point - n⟩
    | none => shortestFrom units point fuel (n + 1)

/-- Seventeen digits always suffice. -/
def shortest (units : Nat) : Decimal := shortestFrom units (point units) 17 1

/-- The digits without trailing zeros. -/
def significant (digits : Text) : Text :=
  (digits.reverse.dropWhile (fun c : CodePoint => c = '0')).reverse

def zeros (n : Nat) : Text := List.replicate n ('0' : CodePoint)

/-- The sign and two digits at least. -/
def exponentText (e : Int) : Text :=
  let ds := Numeral.decimal e.natAbs
  (if e < 0 then ('-' : CodePoint) else '+') :: zeros (2 - ds.length) ++ ds

/-- The text of `0.ds * 10 ^ point`. -/
def layOut (ds : Text) (point : Int) : Text :=
  if point ≤ -4 ∨ 16 < point then
    let fraction := ds.drop 1
    ds.take 1 ++ (if fraction.isEmpty then [] else ('.' : CodePoint) :: fraction) ++
      ('e' : CodePoint) :: exponentText (point - 1)
  else if point ≤ 0 then Text.ofString "0." ++ zeros (-point).toNat ++ ds
  else if ds.length ≤ point then ds ++ zeros (point.toNat - ds.length) ++ Text.ofString ".0"
  else ds.take point.toNat ++ ('.' : CodePoint) :: ds.drop point.toNat

def magnitude (units : Nat) : Text :=
  if units = 0 then "0.0"
  else
    let d := shortest units
    let ds := Numeral.decimal d.coefficient
    layOut (significant ds) (ds.length + d.exponent)

def signed (negative : Bool) (t : Text) : Text :=
  if negative then ('-' : CodePoint) :: t else t

def toText : Binary64 → Text
  | nan => "nan"
  | infinite negative => signed negative "inf"
  | finite negative units => signed negative (magnitude units)

end StarkReplay.Binary64
