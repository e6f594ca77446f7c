import StarkReplay.Digest
import StarkReplay.PowerOfTwo

/-!
The channel of the Fiat–Shamir transform: a chain of digests that absorbs the elements of a proof
and yields challenges. A challenge is the digest of the chain and of the number of challenges
drawn since something was absorbed last.
-/
namespace StarkReplay

structure Channel where
  digest : Int
  counter : Nat
  deriving DecidableEq

/-- Operations on a channel. What changed before a failure stays changed. -/
abbrev ChannelM := ExceptT Failure (StateM Channel)

namespace Channel

def ofSeed (seed : Int) : Channel := ⟨seed, 0⟩

def absorb (H : Hash) (values : List Int) : ChannelM Unit := do
  let c ← get
  let digest ← Digest.felt H (c.digest :: values)
  set (Channel.ofSeed digest)

def draw (H : Hash) : ChannelM Int := do
  let c ← get
  let value ← Digest.felt H [c.digest, c.counter]
  set { c with counter := c.counter + 1 }
  return value

/-- An index of so many bits: the low bits of a challenge. -/
def drawIndex (H : Hash) (bits : Int) : ChannelM Int := do
  let value ← draw H
  return value % (← powerOfTwo bits)

/-- So many indices, in the order in which they are drawn. -/
def drawIndices (H : Hash) (bits : Int) : Nat → ChannelM (List Int)
  | 0 => return []
  | n + 1 => do
    let index ← drawIndex H bits
    return index :: (← drawIndices H bits n)

/-- Checks the proof of work against the chain and absorbs its nonce in either case. -/
def checkWork (H : Hash) (nonce bits : Int) : ChannelM Bool := do
  let c ← get
  let passed ← Digest.hasWork H c.digest nonce bits
  absorb H [nonce]
  return passed

theorem run_absorb (H : Hash) (values : List Int) (c : Channel) :
    (absorb H values).run.run c =
      match Digest.felt H (c.digest :: values) with
      | .ok digest => (.ok (), ofSeed digest)
      | .error e => (.error (.felt e), c) := by
  change ((Digest.felt H (c.digest :: values) : ChannelM Int) >>= fun d =>
    set (ofSeed d)).run.run c = _
  cases Digest.felt H (c.digest :: values) <;> rfl

end Channel

end StarkReplay
