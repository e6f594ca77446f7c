import StarkReplay.Fri.Witness
import StarkReplay.Replay.Initial
import StarkReplay.Replay.Round

/-!
Verification of a whole proof in one stream, with a trace of every state it passes through.
-/
namespace StarkReplay.Replay

structure Trace where
  schedule : Fri.Schedule
  /-- The progress before each round, then after the last one. -/
  states : List Fri.Progress
  /-- The flat layer of each round, then the flat coefficients of the last layer. -/
  witnesses : List (List Int)
  /-- How many elements the initial phase takes. -/
  initialLength : Int
  deriving DecidableEq

/-- Refuses a stream with an element outside the field, naming the first one. -/
def checkStream (stream : Stream) : Nat → List Int → Except Failure Unit
  | _, [] => .ok ()
  | offset, v :: vs =>
    match Felt.check v with
    | .ok _ => checkStream stream (offset + 1) vs
    | .error e => reject (.notAFelt stream offset e)

/-- The progress before each of the layers, then after the last one. -/
def states (H : Hash) (s : Fri.Schedule) :
    Fri.Progress → List Opening → Except Failure (List Fri.Progress)
  | p, [] => .ok [p]
  | p, layer :: layers => do
    let next ← step H s p layer
    let rest ← states H s next layers
    return p :: rest

/-- The coefficients of the last layer as one run. -/
def lastLayerRun (coefficients : List Int) : Except Failure (List Int) :=
  (Flat.flatten (Flat.array coefficients)).mapError .encoding

def verify (H : Hash) (layoutName : Text) (calldata : List Int) : Except Failure Trace := do
  let (layout, params) ← Layout.resolve layoutName
  checkStream .calldata 0 calldata
  if calldata.getLast? ≠ some Flat.versionTag then reject .versionTag
  else
    let body := calldata.dropLast
    let (outcome, cursor) := (initial H layout params).run.run (Cursor.ofList body)
    let start ← outcome
    let layers ← Fri.layersOf (Cursor.slice body cursor.offset body.length)
    if (layers.length : Int) ≠ start.schedule.layers then
      reject (.layerTotal start.schedule.layers layers.length)
    else
      let states ← states H start.schedule start.progress layers
      finish H start.schedule (states.getLastD start.progress) start.coefficients
      let last ← lastLayerRun start.coefficients
      return {
        schedule := start.schedule
        states
        witnesses := layers.map Opening.flat ++ [last]
        initialLength := cursor.offset }

end StarkReplay.Replay
