import StarkReplay.Felt.Polynomial
import StarkReplay.Fri.State
import StarkReplay.PowerOfTwo
import StarkReplay.Stark.Opening

/-!
The rounds of a FRI verification. A round checks the opening of its layer, checks that each coset
holds the value folded so far, and folds the cosets into the values of the next round. After the
last round the values have to be those of the last layer's polynomial.
-/
namespace StarkReplay.Replay

/-- The element at a position; a negative one counts from the end. -/
def elementAt (xs : List Int) (i : Int) : Except Failure Int :=
  let k := if i < 0 then xs.length + i else i
  if k < 0 then .error .noElement
  else match xs[k.toNat]? with
    | some x => .ok x
    | none => .error .noElement

/-- One query through a layer: its index tells the place in its coset of `2 ^ step` elements. -/
def foldQuery (layer : Int) (step : Nat) (point : Int) (query : Int × Int) (coset : List Int) :
    Except Failure (Int × Int) := do
  let (index, value) := query
  if (← elementAt coset (index % coset.length)) ≠ value then
    rejectShowing [index] (.layerInconsistent layer index)
  else
    let folded ← Polynomial.evaluate coset point
    return (index >>> step, folded)

def foldQueries (layer : Int) (step : Nat) (point : Int) :
    List (Int × Int) → List (List Int) → Except Failure (List (Int × Int))
  | query :: queries, coset :: cosets => do
    let folded ← foldQuery layer step point query coset
    let rest ← foldQueries layer step point queries cosets
    return folded :: rest
  | _, _ => .ok []

/-- One round: the progress after the layer. -/
def step (H : Hash) (s : Fri.Schedule) (p : Fri.Progress) (layer : Opening) :
    Except Failure Fri.Progress := do
  if s.layers ≤ p.round then
    rejectShowing [p.round + 1, s.layers] (.stepBeyond (p.round + 1) s.layers)
  else
    let size ← elementAt s.stepSizes p.round
    let coset ← powerOfTwo size
    let queries := p.queries.length
    if layer.leaves.length ≠ queries * coset then
      rejectShowing [coset] (.layerLeafCount (p.round + 1) layer.leaves.length queries coset)
    else
      let found ← layer.commitment H
      if found ≠ (← elementAt s.commitments p.round) then reject (.layerCommitment (p.round + 1))
      else
        let point ← elementAt s.evalPoints p.round
        let cosets ← (Table.ofCells layer.leaves queries coset).mapError Failure.table
        let folded ← foldQueries (p.round + 1) size.toNat point p.queries cosets
        return { round := p.round + 1, queries := folded }

def checkLastLayer (coefficients : List Int) : List (Int × Int) → Except Failure Unit
  | [] => .ok ()
  | (index, value) :: rest => do
    if (← Polynomial.evaluate coefficients index) ≠ value then reject (.evaluationMismatch index)
    else checkLastLayer coefficients rest

/-- The check after the last round. -/
def finish (H : Hash) (s : Fri.Schedule) (p : Fri.Progress) (coefficients : List Int) :
    Except Failure Unit := do
  if p.round ≠ s.layers then rejectShowing [p.round, s.layers] (.finalTooEarly p.round s.layers)
  else if (← Digest.felt H coefficients) ≠ s.lastLayerDigest then reject .coefficientsMismatch
  else checkLastLayer coefficients p.queries

end StarkReplay.Replay
