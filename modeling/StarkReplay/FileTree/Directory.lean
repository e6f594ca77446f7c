import StarkReplay.FileTree

/-!
Making directories. The directories on the way to one that is missing are made first, and those
that were made stay if a later one cannot be.
-/
namespace StarkReplay.FileTree

/-- Makes one directory where nothing stands. -/
def makeDirectory (t : FileTree) (p : Path) : Except Failure FileTree := do
  let place ← t.resolve p
  match t.node? place with
  | none => .ok (t.put place .directory)
  | some _ => .error .alreadyThere

def isDirectory (t : FileTree) (p : Path) : Bool :=
  match t.lookUp p with
  | .ok .directory => true
  | _ => false

/-- Makes one directory, unless it is there. -/
def ensureDirectory (p : Path) : FileM Unit := do
  let t ← get
  match t.makeDirectory p with
  | .ok made => set made
  | .error f => if t.isDirectory p then return () else throw f

/-- Makes the directory that the first so many names of a path lead to. -/
def makeFirst (p : Path) : Nat → FileM Unit
  | 0 => return ()
  | k + 1 => do
    let t ← get
    match t.makeDirectory (p.take (k + 1)) with
    | .error .noSuchPath =>
      makeFirst p k
      ensureDirectory (p.take (k + 1))
    | _ => ensureDirectory (p.take (k + 1))

def makeDirectories (p : Path) : FileM Unit := makeFirst p p.length

end StarkReplay.FileTree
