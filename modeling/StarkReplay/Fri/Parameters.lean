import StarkReplay.Failure

/-!
FRI parameters for a trace of a given number of steps. The logarithms of the step sizes add up to
the logarithm of the number of trace rows less that of the last layer's degree bound; full steps
come first, then one step for what is left of the sum.
-/
namespace StarkReplay.Fri

/-- The size of a full step. -/
def maxStep : Int := 4

/-- The logarithm of the number of trace rows that one step of a program takes. -/
def logComponentHeight : Int := 4

def lastLayerDegreeBound : Int := 64

structure Parameters where
  stepList : List Int
  lastLayerDegreeBound : Int
  queries : Int
  workBits : Int
  deriving DecidableEq

/-- The least `r` with `x ≤ 2 ^ r`. -/
def ceilLog2 (x : Int) : Except Failure Int :=
  if x < 1 then .error (.logOfNonPositive x) else .ok (Numeral.bitLength (x - 1).toNat)

/-- Full steps, and a last step for the remainder if there is one. -/
def splitSum (sum maxStep : Int) : List Int :=
  List.replicate (sum.fdiv maxStep).toNat maxStep ++
    if 0 < sum.fmod maxStep then [sum.fmod maxStep] else []

/-- What the step sizes add up to for `2 ^ logSteps` steps of sixteen trace rows each. -/
def stepSum (logSteps logLastLayer : Int) : Int := logSteps + logComponentHeight - logLastLayer

/-- No list that is asked for has more entries than this. -/
def maxEntries : Nat := 0x7FFFFFFFFFFFFFFF

/-- Whether a list of `n` entries can be asked for, given the length of the longest one; with `none`
there is no longest one. A negative `n` asks for an empty list, but is bounded as well. -/
def canHold : Option Nat → Int → Bool
  | none, _ => true
  | some longest, n => -longest - 1 ≤ n && n ≤ longest

/-- The sizes of the steps, if a list can hold the full ones. The bound on lists is a parameter, so
that what depends on it can be told from what does not. -/
def stepSizes (longest : Option Nat) (logSteps logLastLayer maxStep : Int) :
    Except Failure (List Int) :=
  let sum := stepSum logSteps logLastLayer
  if sum < 0 then .error (.traceTooShort logSteps)
  else if maxStep = 0 then .error .divisionByZero
  else if canHold longest (sum.fdiv maxStep) then .ok (splitSum sum maxStep)
  else .error .overflow

/-! ## Parameters -/

/-- The parameters for a trace of so many steps. -/
def parameters (longest : Option Nat) (traceSteps : Int) : Except Failure Parameters := do
  if traceSteps < 1 then .error (.nonPositiveTrace traceSteps)
  else
    let logSteps ← ceilLog2 traceSteps
    let logLastLayer ← ceilLog2 lastLayerDegreeBound
    let steps ← stepSizes longest logSteps logLastLayer maxStep
    return { stepList := 0 :: steps, lastLayerDegreeBound, queries := 16, workBits := 32 }

end StarkReplay.Fri
