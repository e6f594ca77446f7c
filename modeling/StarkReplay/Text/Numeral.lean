import StarkReplay.Text

/-!
Numbers as digits, most significant first, and their decimal and hexadecimal texts.
-/
namespace StarkReplay.Numeral

def digitsOnto (base : Nat) : Nat → Nat → List Nat → List Nat
  | 0, n, acc => n :: acc
  | fuel + 1, n, acc =>
    if n < base then n :: acc else digitsOnto base fuel (n / base) (n % base :: acc)

/-- The digits of `n`; zero has the one digit `0`. -/
def digits (base n : Nat) : List Nat := digitsOnto base n.log2 n []

def ofDigits (base : Nat) (ds : List Nat) : Nat := ds.foldl (fun n d => n * base + d) 0

/-- The number of bits of `n` without leading zeros. -/
def bitLength (n : Nat) : Nat := if n = 0 then 0 else n.log2 + 1

/-- The sign of one digit below sixteen. -/
def digit (d : Nat) : CodePoint := CodePoint.ofNat (if d < 10 then 0x30 + d else 0x57 + d)

def isDecimalDigit (c : CodePoint) : Bool := 0x30 ≤ c.val && c.val ≤ 0x39

def isHexDigit (c : CodePoint) : Bool :=
  isDecimalDigit c || (0x61 ≤ c.val && c.val ≤ 0x66) || (0x41 ≤ c.val && c.val ≤ 0x46)

/-- The value of a hexadecimal digit of either case. -/
def digitValue (c : CodePoint) : Nat :=
  if c.val < 0x3A then c.val - 0x30 else if c.val < 0x61 then c.val - 0x37 else c.val - 0x57

def decimal (n : Nat) : Text := (digits 10 n).map digit

def integer (n : Int) : Text :=
  if n < 0 then ('-' : CodePoint) :: decimal n.natAbs else decimal n.natAbs

def hexDigits (n : Nat) : Text := (digits 16 n).map digit

/-- At least `width` hexadecimal digits, with zeros in front. -/
def hexPadded (width n : Nat) : Text :=
  List.replicate (width - (hexDigits n).length) ('0' : CodePoint) ++ hexDigits n

/-- Decimal numerals of more digits are neither read nor written. -/
def maxDigits : Nat := 4300

def isTooLong (n : Nat) : Bool := Nat.pow 10 maxDigits ≤ n

def ofDecimal (t : Text) : Nat := ofDigits 10 (t.map digitValue)

def ofHex (t : Text) : Nat := ofDigits 16 (t.map digitValue)

/-- The integer that a decimal numeral spells, with a minus sign in front or without. One of too
many digits is refused with their number. -/
def readInteger (t : Text) : Except Nat Int :=
  let negative := t.head? = some '-'
  let ds := if negative then t.tail else t
  if maxDigits < ds.length then .error ds.length
  else
    let n : Int := ofDecimal ds
    .ok (if negative then -n else n)

theorem digitValue_digit {d : Nat} (h : d < 16) : digitValue (digit d) = d := by
  unfold digit digitValue
  rw [CodePoint.val_ofNat (by split <;> omega)]
  split <;> split <;> (try split) <;> omega

theorem ofDigits_append (base : Nat) (xs ys : List Nat) :
    ofDigits base (xs ++ ys) = ys.foldl (fun n d => n * base + d) (ofDigits base xs) := by
  simp [ofDigits]

end StarkReplay.Numeral
