import StarkReplay.Flat
import StarkReplay.Json.Write

/-!
Proof texts. A proof is a JSON object with four arrays: the configuration, the public input, the
commitments and the witness. Other fields are ignored. Its calldata is the four sections
flattened, one after another, and the version tag.
-/
namespace StarkReplay

structure Proof where
  config : List Json
  publicInput : List Json
  unsentCommitment : List Json
  witness : List Json

namespace Proof

/-- How many code points of a text a parse error shows at most. -/
def fragmentLength : Nat := 48

/-- The piece of a text around a position. -/
def fragment (t : Text) (position : Nat) : Text :=
  let first := position - fragmentLength / 2
  (t.drop first).take (position + fragmentLength / 2 - first)

/-- The section of this name. -/
def sectionOf (fields : Json.Fields) (name : Text) : Except ParseError (List Json) :=
  match fields.get? name with
  | none => .error (.missingSection name)
  | some (.arr items) => .ok items
  | some v => .error (.sectionNotArray name ((v.write .oneLine).take fragmentLength))

def ofDocument (t : Text) : Json → Except ParseError Proof
  | .obj fields => do
    let config ← sectionOf fields "config"
    let publicInput ← sectionOf fields "public_input"
    let unsentCommitment ← sectionOf fields "unsent_commitment"
    let witness ← sectionOf fields "witness"
    return { config, publicInput, unsentCommitment, witness }
  | _ => .error (.notAnObject (t.take fragmentLength))

def parse (t : Text) : Except ParseError Proof :=
  match Json.read Numeral.maxDigits t with
  | .error (.unmet e position) => .error (.invalidJson e (fragment t position))
  | .error (.tooManyDigits n) => .error (.longNumeral n (t.take fragmentLength))
  | .ok document => ofDocument t document

/-- The four sections flattened and the version tag. -/
def calldata (p : Proof) : Except EncodingError (List Int) := do
  let config ← Flat.flattenItems p.config
  let publicInput ← Flat.flattenItems p.publicInput
  let unsentCommitment ← Flat.flattenItems p.unsentCommitment
  let witness ← Flat.flattenItems p.witness
  return config ++ publicInput ++ unsentCommitment ++ witness ++ [Flat.versionTag]

/-- The calldata of a proof text. -/
def calldataOf (t : Text) : Except Failure (List Int) := do
  let proof ← (parse t).mapError .malformed
  (calldata proof).mapError .encoding

end Proof

end StarkReplay
