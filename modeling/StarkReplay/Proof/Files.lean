import StarkReplay.FileTree.Write
import StarkReplay.Proof.Text

/-!
Proof files, and the calldata files made from them.
-/
namespace StarkReplay.Proof

def ofFile (path : Path) : FileM Proof := do
  let text ← (← get).textAt path
  (parse text).mapError Failure.malformed

/-- Writes the calldata of a proof file as decimal numerals, and gives their number. -/
def writeCalldata (proof output : Path) : FileM Nat := do
  let p ← ofFile proof
  let elements ← p.calldata.mapError Failure.encoding
  FileTree.writeText output (Flat.text elements)
  return elements.length

end StarkReplay.Proof
