import StarkReplay.Stark.Opening

/-!
The FRI witness: the openings of the FRI layers one after another. Nothing in the stream marks a
layer; it is two consecutive runs, so the witness has to fall into pairs of runs exactly.
-/
namespace StarkReplay.Fri

def readRun (run : Run) : CursorM (List Int) :=
  try Cursor.readSpan
  catch
    | .exhausted e => throw (.malformed (.truncatedRun run e))
    | f => throw f

/-- The layers from the one of this number on. -/
def readLayers : Nat → Nat → CursorM (List Opening)
  | 0, _ => return []
  | fuel + 1, number => do
    let start ← get
    if start.atEnd then return []
    else
      let leaves ← readRun .leaves
      let middle ← get
      if middle.atEnd then throw (.malformed (.noAuthentications number start.offset))
      else
        let authentications ← readRun .authentications
        let rest ← readLayers fuel (number + 1)
        return ⟨leaves, authentications⟩ :: rest

/-- The layers whose openings, one after another, are the given elements. On felts each layer begins
behind the one before it, so they are read to the last one. A negative count moves the cursor back;
it has two positions for each element, counted from the start and from the end, and a reading that
takes more turns has come back to one of them and goes round without an end. -/
def layersOf (elements : List Int) : Except Failure (List Opening) :=
  ((readLayers (2 * elements.length + 2) 1).run.run (Cursor.ofList elements)).1

end StarkReplay.Fri
