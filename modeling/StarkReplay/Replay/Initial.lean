import StarkReplay.Channel
import StarkReplay.Felt.Polynomial
import StarkReplay.Fri.State
import StarkReplay.Stark.Commitments
import StarkReplay.Stark.Opening
import StarkReplay.Stark.PublicInput

/-!
The initial phase of a verification. It reads the sections of a proof up to the first FRI layer,
checks the openings of the trace commitments, and replays the channel to derive the FRI schedule,
the query indices and the value at each of them.
-/
namespace StarkReplay.Replay

/-- What the initial phase reads. -/
structure Sections where
  config : Config
  publicInput : PublicInput
  commitments : Commitments
  original : Opening
  interaction : Opening
  composition : Opening
  layers : Int
  deriving DecidableEq

/-- The elements of the sections, up to the first FRI layer. -/
def Sections.flat (s : Sections) : List Int :=
  s.config.flat ++ s.publicInput.flat ++ s.commitments.flat ++ s.original.flat ++
    s.interaction.flat ++ s.composition.flat ++ [s.layers]

/-- Reads the sections, each checked before the next one is read. -/
def readSections (layout : Layout) (params : Layout.Params) : CursorM Sections := do
  let config ← Config.read
  config.validate
  let publicInput ← PublicInput.read
  publicInput.validate layout config
  let commitments ← Commitments.read
  commitments.validate params config
  let original ← Opening.read
  let interaction ← Opening.read
  let composition ← Opening.read
  let layers ← Cursor.read
  return { config, publicInput, commitments, original, interaction, composition, layers }

/-- A proof that ends too early is rejected. -/
def readSectionsOrReject (layout : Layout) (params : Layout.Params) : CursorM Sections :=
  try readSections layout params
  catch
    | .exhausted e => throw (.rejected (.truncated e))
    | f => throw f

/-- The elements opened for each query: original, interaction and composition columns. -/
def rows (H : Hash) (params : Layout.Params) (s : Sections) : Except Failure (List (List Int)) := do
  let queries := s.config.queries
  let original ← s.original.check H "original" s.commitments.original queries
    params.originalColumns
  let interaction ← s.interaction.check H "interaction" s.commitments.interaction queries
    params.interactionColumns
  let composition ← s.composition.check H "composition" s.commitments.composition queries
    params.constraintDegree
  return List.zipWith (· ++ ·) original (List.zipWith (· ++ ·) interaction composition)

/-- What the channel yields for a proof. -/
structure Challenges where
  beta : Int
  indices : List Int
  evalPoints : List Int
  hasWork : Bool
  deriving DecidableEq

/-- One challenge for each FRI layer, drawn before the commitment to the layer is absorbed. -/
def drawEvalPoints (H : Hash) : List Int → ChannelM (List Int)
  | [] => return []
  | commitment :: rest => do
    let point ← Channel.draw H
    Channel.absorb H [commitment]
    let points ← drawEvalPoints H rest
    return point :: points

/-- The trace commitments, the values outside the domain, then `beta` and the query indices, then
layer by layer, then the last layer and the proof of work. -/
def drawChallenges (H : Hash) (config : Config) (c : Commitments) : ChannelM Challenges := do
  Channel.absorb H [c.original, c.interaction, c.composition]
  Channel.absorb H c.oodsValues
  let beta ← Channel.draw H
  let indices ← Channel.drawIndices H config.logEvalDomain config.queries.toNat
  let evalPoints ← drawEvalPoints H c.friLayers
  Channel.absorb H c.coefficients
  let hasWork ← Channel.checkWork H c.nonce config.workBits
  return { beta, indices, evalPoints, hasWork }

def challenges (H : Hash) (s : Sections) : Except Failure Challenges := do
  let seed ← Digest.felt H s.publicInput.flat
  ((drawChallenges H s.config s.commitments).run.run (Channel.ofSeed seed)).1

/-- The state before the first round, and the coefficients of the last layer. -/
structure Start where
  schedule : Fri.Schedule
  progress : Fri.Progress
  coefficients : List Int
  deriving DecidableEq

/-- The state that checked sections lead to. The value at a query is the polynomial that its row
of leaves gives, taken at `beta`. -/
def startOf (H : Hash) (params : Layout.Params) (s : Sections) : Except Failure Start := do
  if s.layers ≠ s.config.layers then
    rejectShowing [s.layers] (.layerDeclaration s.layers s.config.layers)
  else
    let rows ← rows H params s
    let c ← challenges H s
    if c.hasWork then
      let values ← rows.mapM (Polynomial.evaluate · c.beta)
      let lastLayerDigest ← Digest.felt H s.commitments.coefficients
      return {
        schedule := {
          layers := s.config.layers
          commitments := s.commitments.friLayers
          evalPoints := c.evalPoints
          stepSizes := s.config.stepSizes.tail
          lastLayerDigest }
        progress := { round := 0, queries := c.indices.zip values }
        coefficients := s.commitments.coefficients }
    else reject .proofOfWork

/-- The initial phase on a stream. -/
def initial (H : Hash) (layout : Layout) (params : Layout.Params) : CursorM Start := do
  let sections ← readSectionsOrReject layout params
  startOf H params sections

end StarkReplay.Replay
