import StarkReplay.Annotations
import StarkReplay.FileTree.Write
import StarkReplay.Json.Write

/-!
Annotation files, which hold one annotation a line, and the proof files that take them.
-/
namespace StarkReplay.Annotations

/-- The lines of an annotation file, if one is given. -/
def readLines : Option Path → FileM (Option (List Text))
  | none => return none
  | some path => do
    let text ← (← get).textAt path
    return some text.lines

/-- A failure to read a JSON text, with its place in the text: lines and columns count from one,
positions from zero. -/
def jsonFailure (t : Text) : Json.ReadError → Failure
  | .unmet e position =>
    let before := t.take position
    let column := (before.reverse.takeWhile (fun c : CodePoint => c ≠ '\n')).length + 1
    .invalidJson e position (before.count (CodePoint.ofChar '\n') + 1) column
  | .tooManyDigits n => .longNumeral n

def readDocument (path : Path) : FileM Json := do
  let text ← (← get).textAt path
  (Json.read Numeral.maxDigits text).mapError (jsonFailure text)

/-- Writes the document of a proof file with the lines of two annotation files merged in. -/
def mergeFiles (proof : Path) (annotations extra : Option Path) (output : Path) : FileM Json := do
  let a ← readLines annotations
  let e ← readLines extra
  let document ← readDocument proof
  let merged ← merge document a e
  FileTree.writeText output (merged.write .indented)
  return merged

end StarkReplay.Annotations
