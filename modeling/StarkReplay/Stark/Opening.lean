import StarkReplay.Cursor
import StarkReplay.Digest
import StarkReplay.Stark.Table

/-!
Openings of a commitment: the opened leaves, query by query, and the elements that authenticate
them. In a stream an opening is two runs.
-/
namespace StarkReplay

structure Opening where
  leaves : List Int
  authentications : List Int
  deriving DecidableEq

namespace Opening

def read : CursorM Opening := do
  let leaves ← Cursor.readSpan
  let authentications ← Cursor.readSpan
  return { leaves, authentications }

/-- The two runs of an opening. -/
def flat (o : Opening) : List Int :=
  Cursor.span o.leaves ++ Cursor.span o.authentications

/-- The value that the opening has to be committed to by. -/
def commitment (H : Hash) (o : Opening) : Except FeltError Int :=
  Digest.commitment H (o.leaves ++ o.authentications)

/-- Checks the opening of the trace commitment of this name, and gives its rows of leaves, one a
query. -/
def check (H : Hash) (o : Opening) (name : Text) (committed queries columns : Int) :
    Except Failure (List (List Int)) := do
  if (o.leaves.length : Int) ≠ queries * columns then
    rejectShowing [queries, columns] (.traceLeafCount name o.leaves.length queries columns)
  else if (← o.commitment H) ≠ committed then reject (.traceCommitment name)
  else (Table.ofCells o.leaves queries columns).mapError .table

end Opening

end StarkReplay
