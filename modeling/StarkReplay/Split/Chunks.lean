import StarkReplay.Proof.Text
import StarkReplay.Replay.Trace

/-!
Split calldata. A verifier that cannot take a proof in one call gets it in chunks: first the part
up to the first FRI layer, then one chunk for each layer, then the last layer. Each chunk but the
first begins with the state that the verifier has reached.
-/
namespace StarkReplay.Split

structure Chunks where
  initial : List Int
  steps : List (List Int)
  final : List Int
  deriving DecidableEq

namespace Chunks

def numbered : Nat → List (List Int) → List (Stream × List Int)
  | _, [] => []
  | n, chunk :: rest => (.step n, chunk) :: numbered (n + 1) rest

/-- The chunks in the order in which they are submitted. -/
def streams (c : Chunks) : List (Stream × List Int) :=
  (.initial, c.initial) :: numbered 1 c.steps ++ [(.final, c.final)]

def totalElements (c : Chunks) : Nat := c.streams.foldr (fun s n => s.2.length + n) 0

end Chunks

/-- A state and what the verifier reads after it. -/
def chunk (s : Fri.Schedule) (p : Fri.Progress) (witness : List Int) :
    Except EncodingError (List Int) := do
  let schedule ← s.encode
  let progress ← p.encode
  return schedule ++ progress ++ witness

def chunks (s : Fri.Schedule) :
    List Fri.Progress → List (List Int) → Except EncodingError (List (List Int))
  | p :: states, witness :: witnesses => do
    let first ← chunk s p witness
    let rest ← chunks s states witnesses
    return first :: rest
  | _, _ => .ok []

/-- Cuts calldata at the states of its trace. -/
def cut (calldata : List Int) (trace : Replay.Trace) : Except Failure Chunks := do
  let cs ← (chunks trace.schedule trace.states trace.witnesses).mapError .encoding
  return {
    initial := Cursor.slice calldata 0 trace.initialLength
    steps := cs.dropLast
    final := cs.getLastD [] }

/-- The chunks of a proof text. Only a proof that verifies is split. -/
def split (H : Hash) (proofText : Text) (layoutName : Text) : Except Failure Chunks := do
  let _ ← Layout.resolve layoutName
  let calldata ← Proof.calldataOf proofText
  let trace ← Replay.verify H layoutName calldata
  cut calldata trace

end StarkReplay.Split
