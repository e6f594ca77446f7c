import StarkReplay.Felt.Codec

/-!
Digests of felt sequences. The felts are hashed as 32-byte big-endian words, one after another;
for the proof of work a word is followed by a nonce of eight bytes. The hash function is a
parameter: nothing here depends on more than the length of its digests.
-/
namespace StarkReplay

/-- A hash function. Its digest of 32 bytes is taken as a big-endian number. -/
abbrev Hash := List UInt8 → BitVec 256

namespace Digest

/-- The bytes that are hashed for a sequence of field elements. -/
def message : List Int → Except FeltError (List UInt8)
  | [] => .ok []
  | v :: vs => do
    let head ← Felt.toBytes v
    return head ++ (← message vs)

/-- The digest of a sequence, reduced into the field. -/
def felt (H : Hash) (vs : List Int) : Except FeltError Int := do
  return (H (← message vs)).toNat % Felt.prime

/-- The commitment to a sequence: the low 160 bits of its digest. -/
def commitment (H : Hash) (vs : List Int) : Except FeltError Int := do
  return ((H (← message vs)).toNat % Nat.pow 2 160 : Nat)

/-! ## Proof of work -/

/-- A nonce has eight bytes. -/
def nonceBound : Int := 0x10000000000000000

def IsNonce (n : Int) : Prop := 0 ≤ n ∧ n < nonceBound

instance (n : Int) : Decidable (IsNonce n) := inferInstanceAs (Decidable (0 ≤ n ∧ n < nonceBound))

/-- The bytes that are hashed for the proof of work. -/
def workMessage (seed nonce : Int) : Except Failure (List UInt8) := do
  let head ← Felt.toBytes seed
  if IsNonce nonce then return head ++ Felt.bytesOnto 8 nonce.toNat [] else .error .overflow

def work (H : Hash) (seed nonce : Int) : Except Failure (BitVec 256) := do
  return H (← workMessage seed nonce)

def leadingZeros (d : BitVec 256) : Nat := 256 - Numeral.bitLength d.toNat

/-- Does the digest of the proof of work begin with `bits` zero bits? -/
def hasWork (H : Hash) (seed nonce bits : Int) : Except Failure Bool := do
  if IsNonce nonce then
    let d ← work H seed nonce
    if 256 < bits then .error .negativeShift else return decide (bits ≤ leadingZeros d)
  else return false

end Digest

end StarkReplay
