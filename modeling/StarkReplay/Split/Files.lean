import StarkReplay.FileTree.Directory
import StarkReplay.FileTree.Write
import StarkReplay.Failure.Message
import StarkReplay.Split.Chunks

/-!
Directories of split calldata, with one file for each chunk.
-/
namespace StarkReplay.Split

/-- Makes the directory, unless it is there and empty. A directory that cannot be looked up is
taken as missing, one with too long a name excepted. -/
def prepareDirectory (directory : Path) : FileM Unit := do
  let t ← get
  match t.lookUp directory with
  | .ok _ =>
    if (← t.childrenAt directory).isEmpty then return ()
    else throw (.directoryNotEmpty (FileTree.fullText directory))
  | .error .nameTooLong => throw .nameTooLong
  | .error _ => FileTree.makeDirectories directory

def writeFiles (directory : Path) : List (Stream × List Int) → FileM (List Path)
  | [] => return []
  | (stream, elements) :: rest => do
    let path := directory ++ [stream.name]
    FileTree.writeText path (Flat.text elements)
    let paths ← writeFiles directory rest
    return path :: paths

/-- Writes the chunks into a directory that is empty or does not exist, in the order in which they
are submitted. -/
def writeChunks (c : Chunks) (directory : Path) : FileM (List Path) := do
  prepareDirectory directory
  writeFiles directory c.streams

/-- Splits a proof file into a directory. Nothing is written unless the proof verifies. -/
def splitFile (H : Hash) (proof : Path) (layoutName : Text) (directory : Path) :
    FileM Chunks := do
  let text ← (← get).textAt proof
  let c ← split H text layoutName
  let _ ← writeChunks c directory
  return c

end StarkReplay.Split
