import StarkReplay.Failure
import StarkReplay.FileTree.Name
import StarkReplay.Text.Line

/-!
File trees. A tree lists what stands at each place, a directory or a file with its bytes; the top
directory is not listed. A path is followed from the top, name by name: each name but the last has
to lead to a directory, and two dots lead back to the directory above, which for the top is the
top itself.
-/
namespace StarkReplay

/-- The names of a path from the top on, which may lead back. -/
abbrev Path := List Text

/-- The stored names on the way down from the top. -/
abbrev Place := List Text

inductive FileTree.Node where
  | directory
  | file (content : List UInt8)
  deriving DecidableEq

structure FileTree where
  entries : List (Place × FileTree.Node)
  deriving DecidableEq

namespace FileTree

/-! ## Paths -/

/-- The names between the slashes of a text; empty ones and single dots lead nowhere. -/
def namesOf (t : Text) : Path :=
  (t.pieces (fun c => c = '/')).filter (fun name => !name.isEmpty && name ≠ Text.ofString ".")

/-- The path that a text spells, taken from the directory `base` if it does not begin at the top. -/
def pathOf (base : Path) (t : Text) : Path :=
  if t.head? = some '/' then namesOf t else base ++ namesOf t

def pathText (p : Path) : Text := Text.join "/" p

/-- The text of a path from the top on. -/
def fullText (p : Path) : Text := ('/' : CodePoint) :: pathText p

/-- The path without the names that the two dots after them undo. -/
def collapse (p : Path) : Path :=
  p.foldl (fun done name => if name = FileName.above then done.dropLast else done ++ [name]) []

/-- The names that lead from one directory to another place. -/
def relative : Path → Path → Path
  | [], p => p
  | base, [] => base.map (fun _ => FileName.above)
  | b :: base, name :: p =>
    if b = name then relative base p
    else (b :: base).map (fun _ => FileName.above) ++ name :: p

/-- The number of bytes of a path with a slash in front of each name. -/
def pathLength (p : Path) : Nat :=
  p.foldr (fun name n => 1 + (FileName.bytes name).length + n) 0

/-- A path has fewer bytes than this. -/
def pathBound : Nat := 4096

/-- Refuses a path that no file system can be asked for. -/
def checkPath (p : Path) : Except Failure Unit :=
  if p.all FileName.isEncodable = false then .error .unencodable
  else if p.any (fun name => name.contains (CodePoint.ofNat 0)) then .error .nulInPath
  else if pathBound ≤ pathLength p then .error .nameTooLong
  else .ok ()

/-! ## Places -/

def nodeAmong (p : Place) : List (Place × Node) → Option Node
  | [] => none
  | (q, n) :: rest => if q = p then some n else nodeAmong p rest

/-- What stands at a place. -/
def node? (t : FileTree) (p : Place) : Option Node :=
  if p = [] then some .directory else nodeAmong p t.entries

def putAmong (p : Place) (n : Node) : List (Place × Node) → List (Place × Node)
  | [] => [(p, n)]
  | (q, m) :: rest => if q = p then (q, n) :: rest else (q, m) :: putAmong p n rest

def put (t : FileTree) (p : Place) (n : Node) : FileTree := ⟨putAmong p n t.entries⟩

def erase (t : FileTree) (p : Place) : FileTree := ⟨t.entries.filter (fun e => e.1 ≠ p)⟩

/-- What stands directly in a directory. -/
def children (t : FileTree) (p : Place) : List (Place × Node) :=
  t.entries.filter (fun e => e.1 ≠ [] ∧ e.1.dropLast = p)

/-- What stands in a directory at any depth, with the names that lead there from it. -/
def below (t : FileTree) (p : Place) : List (Place × Node) :=
  (t.entries.filter (fun e => p.isPrefixOf e.1 && e.1 ≠ p)).map
    (fun e => (e.1.drop p.length, e.2))

/-- The place that names lead to from the place `here`. Nothing need stand there. -/
def follow (t : FileTree) : Place → Path → Except Failure Place
  | here, [] => .ok here
  | here, name :: rest =>
    match t.node? here with
    | none => .error .noSuchPath
    | some (.file _) => .error .notDirectory
    | some .directory =>
      if name = FileName.above then follow t here.dropLast rest
      else if FileName.isTooLong name then .error .nameTooLong
      else follow t (here ++ [FileName.stored name]) rest

/-- The place of a path. -/
def resolve (t : FileTree) (p : Path) : Except Failure Place := do
  checkPath p
  t.follow [] p

/-- What stands at the place of a path. -/
def lookUp (t : FileTree) (p : Path) : Except Failure Node := do
  match t.node? (← t.resolve p) with
  | some n => .ok n
  | none => .error .noSuchPath

/-- What stands directly in the directory of a path. -/
def childrenAt (t : FileTree) (p : Path) : Except Failure (List (Place × Node)) := do
  match ← t.lookUp p with
  | .directory => return t.children (← t.resolve p)
  | .file _ => .error .notDirectory

def bytesAt (t : FileTree) (p : Path) : Except Failure (List UInt8) := do
  match ← t.lookUp p with
  | .file content => .ok content
  | .directory => .error .isDirectory

/-- The text of a file, with a line feed at each line end. -/
def textAt (t : FileTree) (p : Path) : Except Failure Text := do
  match Utf8.decode? (← t.bytesAt p) with
  | some s => .ok s.unifyLineEnds
  | none => .error .undecodable

/-- All that stands in a directory at any depth, a directory with a slash at its end, in the order
of the code points. -/
def listing (t : FileTree) (p : Place) : List Text :=
  let texts := (t.below p).map (fun e =>
    match e.2 with
    | .directory => pathText e.1 ++ Text.ofString "/"
    | .file _ => pathText e.1)
  texts.mergeSort Text.precedes

theorem nodeAmong_putAmong (p q : Place) (n : Node) (entries : List (Place × Node)) :
    nodeAmong q (putAmong p n entries) = if p = q then some n else nodeAmong q entries := by
  induction entries with
  | nil => simp [putAmong, nodeAmong]
  | cons e rest ih =>
    obtain ⟨r, m⟩ := e
    by_cases hr : r = p
    · subst hr
      by_cases hq : r = q <;> simp [putAmong, nodeAmong, hq]
    · by_cases hq : r = q
      · subst hq
        simp [putAmong, nodeAmong, hr, Ne.symm hr]
      · simp [putAmong, nodeAmong, hr, hq, ih]

theorem node?_put {p : Place} (t : FileTree) (q : Place) (n : Node) (h : p ≠ []) :
    (t.put p n).node? q = if p = q then some n else t.node? q := by
  by_cases hq : q = []
  · subst hq
    simp [node?, h]
  · simp [node?, put, hq, nodeAmong_putAmong]

end FileTree

/-- Operations on a file tree. What was written before a failure stays written. -/
abbrev FileM := ExceptT Failure (StateM FileTree)

end StarkReplay
