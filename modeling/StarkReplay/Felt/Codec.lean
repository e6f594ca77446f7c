import StarkReplay.Felt
import StarkReplay.Text.Blank

/-!
Field elements as texts and as bytes: unsigned decimal numerals, hexadecimal numerals after `0x`,
and big-endian bytes. No reader reduces a number into the field.
-/
namespace StarkReplay.Felt

/-! ## Bytes -/

def natOfBytes (bytes : List UInt8) : Nat := bytes.foldl (fun n b => n * 256 + b.toNat) 0

/-- The low `width` bytes of `n`, most significant first, in front of `acc`. -/
def bytesOnto : Nat → Nat → List UInt8 → List UInt8
  | 0, _, acc => acc
  | width + 1, n, acc => bytesOnto width (n / 256) ((n % 256).toUInt8 :: acc)

/-- The bytes of `n` without leading zeros. -/
def minimalBytes (n : Nat) : List UInt8 := bytesOnto ((Numeral.bitLength n + 7) / 8) n []

def ofBytes (bytes : List UInt8) : Except FeltError Int :=
  if 32 < bytes.length then .error (.tooManyBytes bytes.length) else check (natOfBytes bytes)

/-- The 32 bytes of a number below `2 ^ 256`. -/
def word (n : Nat) : List UInt8 := bytesOnto 32 n []

def toBytes (v : Int) : Except FeltError (List UInt8) := do
  return word (← check v).toNat

/-! ## Texts -/

/-- The digits of a text that begins with `0x` or `0X`. -/
def hexBody? : Text → Option Text
  | z :: x :: ds =>
    if z = '0' ∧ (x = 'x' ∨ x = 'X') ∧ ds.isEmpty = false ∧ ds.all Numeral.isHexDigit then some ds
    else none
  | _ => none

def isDecimal (t : Text) : Bool := !t.isEmpty && t.all Numeral.isDecimalDigit

def natOfText (t : Text) : Except FeltError Nat :=
  match hexBody? t with
  | some ds => .ok (Numeral.ofHex ds)
  | none =>
    if isDecimal t then
      if Numeral.maxDigits < t.length then .error (.tooManyDigits t.length)
      else .ok (Numeral.ofDecimal t)
    else .error (.notNumeral t)

/-- The field element that a text spells, blanks around it ignored. A number of more than 64 bits
goes through its bytes, so that one of too many bytes is refused as such. -/
def ofText (t : Text) : Except FeltError Int := do
  let n ← natOfText t.strip
  if Nat.pow 2 64 ≤ n then ofBytes (minimalBytes n) else check n

/-- The hexadecimal numeral of any natural number. -/
def hexNumeral (n : Nat) : Text := ('0' : CodePoint) :: ('x' : CodePoint) :: Numeral.hexDigits n

def toHex (v : Int) : Except FeltError Text := do
  return hexNumeral (← check v).toNat

def toDecimal (v : Int) : Except FeltError Text := do
  return Numeral.integer (← check v)

theorem length_bytesOnto (width n : Nat) (acc : List UInt8) :
    (bytesOnto width n acc).length = width + acc.length := by
  induction width generalizing n acc with
  | zero => simp [bytesOnto]
  | succ width ih => simp [bytesOnto, ih]; omega

theorem length_word (n : Nat) : (word n).length = 32 := length_bytesOnto 32 n []

end StarkReplay.Felt
