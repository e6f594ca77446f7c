import StarkReplay.Failure

/-!
A cursor over a sequence of integers. Every read takes elements from the front and moves the
cursor past them; a read of more elements than are left fails and leaves the cursor in place. A
negative count moves the cursor back: positions before the start of the sequence then count from
its end.
-/
namespace StarkReplay

structure Cursor where
  elements : List Int
  offset : Int
  deriving DecidableEq

/-- Reads on a cursor. What was read before a failure stays read. -/
abbrev CursorM := ExceptT Failure (StateM Cursor)

namespace Cursor

def ofList (elements : List Int) : Cursor := ⟨elements, 0⟩

def remaining (c : Cursor) : Int := c.elements.length - c.offset

def atEnd (c : Cursor) : Bool := c.elements.length ≤ c.offset

/-- A position within a list of `length` elements, a negative one counting from the end. -/
def position (length : Nat) (i : Int) : Nat :=
  if i < 0 then (length + i).toNat else min length i.toNat

/-- The elements from position `first` up to position `last`, itself excluded. -/
def slice (elements : List Int) (first last : Int) : List Int :=
  let start := position elements.length first
  (elements.drop start).take (position elements.length last - start)

/-- Reads `n` elements. -/
def readMany (n : Int) : CursorM (List Int) := do
  let c ← get
  if c.remaining < n then throw (.exhausted ⟨n, c.offset, c.remaining⟩)
  else
    set { c with offset := c.offset + n }
    return slice c.elements c.offset (c.offset + n)

/-- Reads one element. -/
def read : CursorM Int := do
  match ← readMany 1 with
  | v :: _ => return v
  | [] => throw .noElement

/-- Reads a run: a count and that many elements. If they are not there, the count is left
unread too, and the failure tells what remains from it on. -/
def readSpan : CursorM (List Int) := do
  let start ← get
  let count ← read
  let c ← get
  if c.remaining < count then
    set start
    throw (.exhausted ⟨count, start.offset + 1, start.remaining⟩)
  else readMany count

def readRest : CursorM (List Int) := do
  readMany (← get).remaining

/-- The run that `readSpan` reads: a count and the elements. -/
def span (elements : List Int) : List Int := (elements.length : Int) :: elements

theorem run_readMany (n : Int) (c : Cursor) :
    (readMany n).run.run c =
      if c.remaining < n then (.error (.exhausted ⟨n, c.offset, c.remaining⟩), c)
      else (.ok (slice c.elements c.offset (c.offset + n)), { c with offset := c.offset + n }) := by
  change (if c.remaining < n then (throw _ : CursorM (List Int)) else _).run.run c = _
  split <;> rfl

theorem length_span (elements : List Int) : (span elements).length = elements.length + 1 := rfl

end Cursor

end StarkReplay
