import StarkReplay.Stark.Config
import StarkReplay.Stark.Layout

/-!
The public input of a proof: the number of steps, the bounds of the range check, the layout and
the public memory.
-/
namespace StarkReplay

structure PublicInput where
  logSteps : Int
  rangeCheckMin : Int
  rangeCheckMax : Int
  layout : Int
  memory : List Int
  deriving DecidableEq

namespace PublicInput

def read : CursorM PublicInput := do
  match ← Cursor.readMany 4 with
  | [logSteps, rangeCheckMin, rangeCheckMax, layout] =>
    let memory ← Cursor.readSpan
    return { logSteps, rangeCheckMin, rangeCheckMax, layout, memory }
  | found => throw (.tooFewElements 4 found.length)

/-- The elements of the section, which seed the channel. -/
def flat (p : PublicInput) : List Int :=
  [p.logSteps, p.rangeCheckMin, p.rangeCheckMax, p.layout] ++ Cursor.span p.memory

def validate (p : PublicInput) (layout : Layout) (config : Config) : Except Failure Unit := do
  if p.layout ≠ (← layout.shortString) then
    let declared ← ShortString.decode p.layout
    reject (.layoutMismatch declared layout.name)
  else if p.logSteps + Fri.logComponentHeight ≠ config.logTraceDomain then reject .traceSize
  else if p.rangeCheckMax < p.rangeCheckMin then reject .rangeInverted
  else return ()

end PublicInput

end StarkReplay
