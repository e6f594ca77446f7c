import StarkReplay.Felt.Codec

/-!
Short strings: up to 31 ASCII characters in one field element, the first in the highest byte.
-/
namespace StarkReplay.ShortString

def encode (t : Text) : Except Failure Int :=
  if 31 < t.length then .error (.longShortString t)
  else if t.all CodePoint.isAscii then .ok (Felt.natOfBytes (t.map (fun c => c.val.toUInt8)))
  else .error .unencodable

/-- The graphic characters of ASCII and the space. -/
def isGraphic (b : UInt8) : Bool := 0x20 ≤ b && b ≤ 0x7E

/-- The text whose bytes make up the number, or its hexadecimal numeral if one of them is no
graphic character. -/
def decodeNat (n : Nat) : Text :=
  let bytes := Felt.minimalBytes n
  if bytes.all isGraphic then bytes.map (fun b => CodePoint.ofNat b.toNat) else Felt.hexNumeral n

def decode (v : Int) : Except Failure Text :=
  if v < 0 then .error .overflow else .ok (decodeNat v.toNat)

end StarkReplay.ShortString
