import StarkReplay.Digest

/-!
The hash function BLAKE2s with digests of 32 bytes and no key.
-/
namespace StarkReplay.Blake2s

def initial : Vector UInt32 8 := #v[
  0x6A09E667, 0xBB67AE85, 0x3C6EF372, 0xA54FF53A, 0x510E527F, 0x9B05688C, 0x1F83D9AB, 0x5BE0CD19]

/-- The order in which the ten rounds take the words of a block. -/
def order : List (Vector (Fin 16) 16) := [
  #v[0, 1, 2, 3, 4, 5, 6, 7, 8, 9, 10, 11, 12, 13, 14, 15],
  #v[14, 10, 4, 8, 9, 15, 13, 6, 1, 12, 0, 2, 11, 7, 5, 3],
  #v[11, 8, 12, 0, 5, 2, 15, 13, 10, 14, 3, 6, 7, 1, 9, 4],
  #v[7, 9, 3, 1, 13, 12, 11, 14, 2, 6, 5, 10, 4, 0, 15, 8],
  #v[9, 0, 5, 7, 2, 4, 10, 15, 14, 1, 11, 12, 6, 8, 3, 13],
  #v[2, 12, 6, 10, 0, 11, 8, 3, 4, 13, 7, 5, 15, 14, 1, 9],
  #v[12, 5, 1, 15, 14, 13, 4, 10, 0, 7, 6, 3, 9, 2, 8, 11],
  #v[13, 11, 7, 14, 12, 1, 3, 9, 5, 0, 15, 4, 8, 6, 2, 10],
  #v[6, 15, 14, 9, 11, 3, 0, 8, 12, 2, 13, 7, 1, 4, 10, 5],
  #v[10, 2, 8, 4, 7, 6, 1, 5, 15, 11, 9, 14, 3, 12, 13, 0]]

def rotateRight (x n : UInt32) : UInt32 := (x >>> n) ||| (x <<< (32 - n))

/-- One mixing of the words at four positions with two words of the block. -/
def mix (v : Vector UInt32 16) (a b c d : Fin 16) (x y : UInt32) : Vector UInt32 16 :=
  let va := v[a] + v[b] + x
  let vd := rotateRight (v[d] ^^^ va) 16
  let vc := v[c] + vd
  let vb := rotateRight (v[b] ^^^ vc) 12
  let va := va + vb + y
  let vd := rotateRight (vd ^^^ va) 8
  let vc := vc + vd
  let vb := rotateRight (vb ^^^ vc) 7
  (((v.set a va).set b vb).set c vc).set d vd

/-- The columns of the state as a square, then its diagonals. -/
def round (m : Vector UInt32 16) (v : Vector UInt32 16) (s : Vector (Fin 16) 16) :
    Vector UInt32 16 :=
  let v := mix v 0 4 8 12 m[s[0]] m[s[1]]
  let v := mix v 1 5 9 13 m[s[2]] m[s[3]]
  let v := mix v 2 6 10 14 m[s[4]] m[s[5]]
  let v := mix v 3 7 11 15 m[s[6]] m[s[7]]
  let v := mix v 0 5 10 15 m[s[8]] m[s[9]]
  let v := mix v 1 6 11 12 m[s[10]] m[s[11]]
  let v := mix v 2 7 8 13 m[s[12]] m[s[13]]
  mix v 3 4 9 14 m[s[14]] m[s[15]]

/-- The sixteen little-endian words of a block, which is filled up with zero bytes. -/
def blockWords (block : List UInt8) : Vector UInt32 16 :=
  let bytes := block.toArray
  Vector.ofFn (fun i =>
    let byte := fun k => (bytes.getD (4 * i.val + k) 0).toUInt32
    byte 0 ||| (byte 1 <<< 8) ||| (byte 2 <<< 16) ||| (byte 3 <<< 24))

/-- The chaining value after a block, `count` bytes being hashed with it. -/
def compress (h : Vector UInt32 8) (block : List UInt8) (count : Nat) (last : Bool) :
    Vector UInt32 8 :=
  let v : Vector UInt32 16 := h ++ initial
  let v := v.set 12 (v[12] ^^^ count.toUInt32)
  let v := v.set 13 (v[13] ^^^ (count / 0x100000000).toUInt32)
  let v := if last then v.set 14 (~~~ v[14]) else v
  let v := order.foldl (round (blockWords block)) v
  Vector.ofFn (fun i => h[i] ^^^ v.get ⟨i.val, by omega⟩ ^^^ v.get ⟨i.val + 8, by omega⟩)

/-- Takes the blocks one by one; the last one is compressed even if it is empty. -/
def absorb : Nat → Vector UInt32 8 → Nat → List UInt8 → Vector UInt32 8
  | 0, h, _, _ => h
  | fuel + 1, h, count, bytes =>
    match bytes.drop 64 with
    | [] => compress h bytes (count + bytes.length) true
    | rest => absorb fuel (compress h (bytes.take 64) (count + 64) false) (count + 64) rest

/-- The first chaining value: digests of 32 bytes, no key, no tree. -/
def start : Vector UInt32 8 := initial.set 0 (initial[0] ^^^ 0x01010020)

def littleEndian (w : UInt32) : List UInt8 :=
  [w.toUInt8, (w >>> 8).toUInt8, (w >>> 16).toUInt8, (w >>> 24).toUInt8]

def hash : Hash := fun bytes =>
  let h := absorb (bytes.length + 1) start 0 bytes
  BitVec.ofNat 256 (Felt.natOfBytes (h.toList.flatMap littleEndian))

end StarkReplay.Blake2s
