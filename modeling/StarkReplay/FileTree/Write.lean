import StarkReplay.FileTree

/-!
Writing a file. The text goes to a temporary file beside the target, which then replaces the
target in one step, so the target never holds a part of the text. If a step fails the temporary
file is removed.
-/
namespace StarkReplay.FileTree

inductive WriteStep where
  | create (temporary : Place)
  | fill (temporary : Place) (text : Text)
  | replace (temporary : Place) (target : Path)
  | remove (temporary : Place)

def WriteStep.run (t : FileTree) : WriteStep → Except Failure FileTree
  | .create temporary => do
    let _ ← t.resolve temporary
    match t.node? temporary with
    | none => .ok (t.put temporary (.file []))
    | some _ => .error .alreadyThere
  | .fill temporary text =>
    match Utf8.encode? text with
    | some bytes => .ok (t.put temporary (.file bytes))
    | none => .error .unencodable
  | .replace temporary target => do
    let place ← t.resolve target
    if target.getLast? = some FileName.above then .error .busy
    else match t.node? place, t.node? temporary with
      | some .directory, _ => .error .isDirectory
      | _, some n => .ok ((t.put place n).erase temporary)
      | _, none => .error .noSuchPath
  | .remove temporary => .ok (t.erase temporary)

/-- The characters that tell temporary files apart. -/
def labelCharacters : Text := Text.ofString "abcdefghijklmnopqrstuvwxyz0123456789_"

/-- The eight characters that a temporary file of this number has in its name. -/
def label (k : Nat) : Text :=
  (List.range 8).map fun i => labelCharacters.getD (k / Nat.pow 37 i % 37) '_'

/-- The number of labels. -/
def labels : Nat := Nat.pow 37 8

/-- One of the names for a temporary file beside a target of this name. -/
def temporaryName (name : Text) (k : Nat) : Text := Text.concat [".", name, ".", label k, ".tmp"]

/-- The places for a temporary file beside the target. -/
def temporaryAt (target : Path) (k : Nat) : Place :=
  (collapse target.dropLast ++ [temporaryName (target.getLastD []) k]).map FileName.stored

/-- The first place for a temporary file at which nothing stands. Of more places than the tree has
entries one is free; if none is, the first one is given. -/
def temporaryPlace (t : FileTree) (target : Path) : Place :=
  let free := (List.range (min (t.entries.length + 1) labels)).find?
    (fun k => (t.node? (temporaryAt target k)).isNone)
  temporaryAt target (free.getD 0)

/-- The trees that the steps pass through, the first one included, and what stopped them. -/
def runSteps (t : FileTree) : List WriteStep → List FileTree × Except Failure Unit
  | [] => ([t], .ok ())
  | step :: rest =>
    match step.run t with
    | .ok t' =>
      let (passed, outcome) := runSteps t' rest
      (t :: passed, outcome)
    | .error f => ([t], .error f)

/-- The trees that writing a file passes through, from the given one to the one it ends with. -/
def writeHistory (t : FileTree) (target : Path) (text : Text) :
    List FileTree × Except Failure Unit :=
  let temporary := t.temporaryPlace target
  match (WriteStep.create temporary).run t with
  | .error f => ([t], .error f)
  | .ok created =>
    match runSteps created [.fill temporary text, .replace temporary target] with
    | (passed, .ok ()) => (t :: passed, .ok ())
    | (passed, .error f) =>
      (t :: passed ++ [(passed.getLastD created).erase temporary], .error f)

def writeText (target : Path) (text : Text) : FileM Unit := do
  let t ← get
  let (passed, outcome) := t.writeHistory target text
  set (passed.getLastD t)
  outcome

end StarkReplay.FileTree
