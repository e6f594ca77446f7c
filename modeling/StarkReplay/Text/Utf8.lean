import StarkReplay.Text.Numeral

/-!
UTF-8: encoding refuses lone surrogates, decoding refuses every sequence that encoding does
not produce.
-/
namespace StarkReplay.Utf8

/-- The bytes of one code point. -/
def encodeOne (c : CodePoint) : List UInt8 :=
  let n := c.val
  if n < 0x80 then [n.toUInt8]
  else if n < 0x800 then [(0xC0 + n / 0x40).toUInt8, (0x80 + n % 0x40).toUInt8]
  else if n < 0x10000 then
    [(0xE0 + n / 0x1000).toUInt8, (0x80 + n / 0x40 % 0x40).toUInt8, (0x80 + n % 0x40).toUInt8]
  else
    [(0xF0 + n / 0x40000).toUInt8, (0x80 + n / 0x1000 % 0x40).toUInt8,
      (0x80 + n / 0x40 % 0x40).toUInt8, (0x80 + n % 0x40).toUInt8]

def encode? (t : Text) : Option (List UInt8) :=
  if t.any CodePoint.isSurrogate then none else some (t.flatMap encodeOne)

/-- The payload of a continuation byte. -/
def tail? (b : UInt8) : Option Nat :=
  if 0x80 ≤ b ∧ b ≤ 0xBF then some (b.toNat - 0x80) else none

/-- The code point a byte sequence starts with, and what follows its bytes. Overlong forms,
surrogates and numbers past the last code point are refused. -/
def decodeOne? : List UInt8 → Option (CodePoint × List UInt8)
  | [] => none
  | a :: r =>
    if a < 0x80 then some (CodePoint.ofNat a.toNat, r)
    else if 0xC2 ≤ a ∧ a ≤ 0xDF then
      match r with
      | b :: r => do
        let n := (a.toNat - 0xC0) * 0x40 + (← tail? b)
        some (CodePoint.ofNat n, r)
      | _ => none
    else if 0xE0 ≤ a ∧ a ≤ 0xEF then
      match r with
      | b :: c :: r => do
        let n := (a.toNat - 0xE0) * 0x1000 + (← tail? b) * 0x40 + (← tail? c)
        let p := CodePoint.ofNat n
        if n < 0x800 ∨ p.isSurrogate then none else some (p, r)
      | _ => none
    else if 0xF0 ≤ a ∧ a ≤ 0xF4 then
      match r with
      | b :: c :: d :: r => do
        let n := (a.toNat - 0xF0) * 0x40000 + (← tail? b) * 0x1000 + (← tail? c) * 0x40 +
          (← tail? d)
        if n < 0x10000 ∨ 0x110000 ≤ n then none else some (CodePoint.ofNat n, r)
      | _ => none
    else none

/-- Each decoded code point takes one byte at least, so the number of bytes bounds the steps. -/
def decodeWithin : Nat → List UInt8 → Option Text
  | _, [] => some []
  | 0, _ :: _ => none
  | fuel + 1, bytes => do
    let (c, rest) ← decodeOne? bytes
    (c :: ·) <$> decodeWithin fuel rest

def decode? (bytes : List UInt8) : Option Text := decodeWithin bytes.length bytes

def replaceWithin (bad : UInt8 → Text) : Nat → List UInt8 → Text
  | _, [] => []
  | 0, _ :: _ => []
  | fuel + 1, b :: r =>
    match decodeOne? (b :: r) with
    | some (c, rest) => c :: replaceWithin bad fuel rest
    | none => bad b ++ replaceWithin bad fuel r

/-- The decoded text, with `bad b` for each byte `b` that belongs to no encoded code point. -/
def decodeReplacing (bad : UInt8 → Text) (bytes : List UInt8) : Text :=
  replaceWithin bad bytes.length bytes

/-- The decoded text, with `\xNN` for each byte that belongs to no encoded code point. -/
def display (bytes : List UInt8) : Text :=
  decodeReplacing (fun b => Text.ofString "\\x" ++ Numeral.hexPadded 2 b.toNat) bytes

end StarkReplay.Utf8
