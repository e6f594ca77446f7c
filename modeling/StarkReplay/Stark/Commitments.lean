import StarkReplay.Digest
import StarkReplay.PowerOfTwo
import StarkReplay.Stark.Config
import StarkReplay.Stark.Layout

/-!
What a prover commits to before any query is drawn: the trace and composition commitments, the
values sampled outside the domain, one commitment for each FRI layer, the coefficients of the
last layer and the nonce of the proof of work.
-/
namespace StarkReplay

structure Commitments where
  original : Int
  interaction : Int
  composition : Int
  oodsValues : List Int
  friLayers : List Int
  coefficients : List Int
  nonce : Int
  deriving DecidableEq

namespace Commitments

def read : CursorM Commitments := do
  match ← Cursor.readMany 3 with
  | [original, interaction, composition] =>
    let oodsValues ← Cursor.readSpan
    let friLayers ← Cursor.readSpan
    let coefficients ← Cursor.readSpan
    let nonce ← Cursor.read
    return { original, interaction, composition, oodsValues, friLayers, coefficients, nonce }
  | found => throw (.tooFewElements 3 found.length)

/-- The elements of the section. -/
def flat (c : Commitments) : List Int :=
  [c.original, c.interaction, c.composition] ++ Cursor.span c.oodsValues ++
    Cursor.span c.friLayers ++ Cursor.span c.coefficients ++ [c.nonce]

def validate (c : Commitments) (params : Layout.Params) (config : Config) :
    Except Failure Unit := do
  if c.oodsValues.length ≠ params.oodsValues then
    reject (.oodsCount params.oodsValues c.oodsValues.length)
  else if c.friLayers.length ≠ config.layers then
    reject (.commitmentCount config.layers c.friLayers.length)
  else
    let expected ← powerOfTwo config.logLastLayer
    if c.coefficients.length ≠ expected then
      rejectShowing [expected] (.coefficientCount expected c.coefficients.length)
    else if Digest.nonceBound ≤ c.nonce then reject .nonceTooLarge
    else return ()

end Commitments

end StarkReplay
