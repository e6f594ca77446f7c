import StarkReplay.Flat

/-!
The state of a FRI verification between two rounds: the schedule, which is fixed once the
commitments are known, and the progress, which each round replaces. Both can be handed over as
flat sequences.
-/
namespace StarkReplay.Fri

structure Schedule where
  layers : Int
  commitments : List Int
  evalPoints : List Int
  stepSizes : List Int
  /-- The digest of the coefficients of the last layer. -/
  lastLayerDigest : Int
  deriving DecidableEq

structure Progress where
  /-- The number of rounds done. -/
  round : Int
  /-- The index of each query and the value folded so far at it. -/
  queries : List (Int × Int)
  deriving DecidableEq

namespace Schedule

def tree (s : Schedule) : List Json :=
  [.int s.layers, Flat.array s.commitments, Flat.array s.evalPoints, Flat.array s.stepSizes,
    .int s.lastLayerDigest]

def encode (s : Schedule) : Except EncodingError (List Int) := Flat.flattenItems s.tree

def read : CursorM Schedule := do
  let layers ← Cursor.read
  let commitments ← Cursor.readSpan
  let evalPoints ← Cursor.readSpan
  let stepSizes ← Cursor.readSpan
  let lastLayerDigest ← Cursor.read
  return { layers, commitments, evalPoints, stepSizes, lastLayerDigest }

end Schedule

namespace Progress

def tree (p : Progress) : List Json :=
  [.int p.round, Flat.array (p.queries.flatMap (fun q => [q.1, q.2]))]

def encode (p : Progress) : Except EncodingError (List Int) := Flat.flattenItems p.tree

/-- The elements two by two, if their number is even. -/
def pairs? : List Int → Option (List (Int × Int))
  | [] => some []
  | [_] => none
  | x :: y :: rest => ((x, y) :: ·) <$> pairs? rest

def read : CursorM Progress := do
  let round ← Cursor.read
  let elements ← Cursor.readSpan
  match pairs? elements with
  | some queries => return { round, queries }
  | none => throw (.oddQueryState elements.length)

theorem pairs?_flatMap (queries : List (Int × Int)) :
    pairs? (queries.flatMap (fun q => [q.1, q.2])) = some queries := by
  induction queries with
  | nil => rfl
  | cons q rest ih => simp [pairs?, ih]

end Progress

end StarkReplay.Fri
