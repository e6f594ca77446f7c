import StarkReplay.Split.Chunks

/-!
Verification of split calldata. The state at the front of each chunk has to be the one that the
chunks before it lead to.
-/
namespace StarkReplay.Split

def readState : CursorM (Fri.Schedule × Fri.Progress) := do
  let schedule ← Fri.Schedule.read
  let progress ← Fri.Progress.read
  return (schedule, progress)

/-- The layer that a chunk holds after its state. -/
def layerPart (chunk : List Int) : List Int :=
  let cursor := (readState.run.run (Cursor.ofList chunk)).2
  Cursor.slice chunk cursor.offset chunk.length

/-- The calldata that the chunks were cut from. -/
def Chunks.join (c : Chunks) : List Int :=
  c.initial ++ c.steps.flatMap layerPart ++ [Flat.versionTag]

/-- Reads the state at the front of a chunk and compares it with the state reached. -/
def resume (stream : Stream) (s : Fri.Schedule) (p : Fri.Progress) : CursorM Unit := do
  let (schedule, progress) ←
    try readState
    catch
      | .exhausted e => throw (.rejected (.stateTruncated stream e))
      | .oddQueryState n => throw (.rejected (.stateMalformed stream n))
      | f => throw f
  if schedule ≠ s then throw (.rejected (.constantMismatch stream))
  else if progress ≠ p then throw (.rejected (.variableMismatch stream))
  else return ()

/-- A chunk of one layer: the progress after it. -/
def verifyStep (H : Hash) (s : Fri.Schedule) (p : Fri.Progress) (number : Nat)
    (chunk : List Int) : Except Failure Fri.Progress := do
  let (outcome, cursor) := (resume (.step number) s p).run.run (Cursor.ofList chunk)
  outcome
  let layers ← Fri.layersOf (Cursor.slice chunk cursor.offset chunk.length)
  match layers with
  | [layer] => Replay.step H s p layer
  | _ => reject (.notOneLayer (.step number) layers.length)

def verifySteps (H : Hash) (s : Fri.Schedule) :
    Nat → Fri.Progress → List (List Int) → Except Failure Fri.Progress
  | _, p, [] => .ok p
  | number, p, chunk :: chunks => do
    let next ← verifyStep H s p number chunk
    verifySteps H s (number + 1) next chunks

/-- The coefficients of the last layer, which are all that the final chunk holds after its
state. -/
def readFinal (s : Fri.Schedule) (p : Fri.Progress) : CursorM (List Int) := do
  resume .final s p
  let coefficients ←
    try Cursor.readSpan
    catch
      | .exhausted e => throw (.rejected (.lastLayerTruncated e))
      | f => throw f
  let c ← get
  if c.atEnd then return coefficients
  else throw (.rejected (.trailing .final c.remaining))

def verifyFinal (H : Hash) (s : Fri.Schedule) (p : Fri.Progress) (chunk : List Int) :
    Except Failure Unit := do
  let coefficients ← ((readFinal s p).run.run (Cursor.ofList chunk)).1
  Replay.finish H s p coefficients

def checkStreams : List (Stream × List Int) → Except Failure Unit
  | [] => .ok ()
  | (stream, elements) :: rest => do
    Replay.checkStream stream 0 elements
    checkStreams rest

def verify (H : Hash) (layoutName : Text) (c : Chunks) : Except Failure Unit := do
  let (layout, params) ← Layout.resolve layoutName
  checkStreams c.streams
  let (outcome, cursor) := (Replay.initial H layout params).run.run (Cursor.ofList c.initial)
  let start ← outcome
  if cursor.atEnd = false then reject (.trailing .initial cursor.remaining)
  else if (c.steps.length : Int) ≠ start.schedule.layers then
    reject (.chunkCount start.schedule.layers c.steps.length)
  else
    let progress ← verifySteps H start.schedule 1 start.progress c.steps
    verifyFinal H start.schedule progress c.final

end StarkReplay.Split
