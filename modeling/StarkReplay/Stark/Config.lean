import StarkReplay.Cursor
import StarkReplay.Fri.Parameters

/-!
The configuration of a proof: the sizes of its domains, the number of queries, the proof of work
and the sizes of the FRI steps, all sizes as logarithms.
-/
namespace StarkReplay

structure Config where
  logTraceDomain : Int
  logCosets : Int
  queries : Int
  workBits : Int
  /-- The sizes of the FRI steps, with a leading zero. -/
  stepSizes : List Int
  logLastLayer : Int
  deriving DecidableEq

namespace Config

def maxLayers : Int := 15

def maxLogCosets : Int := 4

def maxLogLastLayer : Int := 15

def maxWorkBits : Int := 50

def read : CursorM Config := do
  let logTraceDomain ← Cursor.read
  let logCosets ← Cursor.read
  let queries ← Cursor.read
  let workBits ← Cursor.read
  let stepSizes ← Cursor.readSpan
  let logLastLayer ← Cursor.read
  return { logTraceDomain, logCosets, queries, workBits, stepSizes, logLastLayer }

/-- The elements of the section. -/
def flat (c : Config) : List Int :=
  [c.logTraceDomain, c.logCosets, c.queries, c.workBits] ++ Cursor.span c.stepSizes ++
    [c.logLastLayer]

/-- The number of FRI layers: one for each step but the leading one. -/
def layers (c : Config) : Int := c.stepSizes.length - 1

def logEvalDomain (c : Config) : Int := c.logTraceDomain + c.logCosets

/-- The logarithm of the domain that the steps and the last layer cover. -/
def logCovered (c : Config) : Int := c.stepSizes.foldr (· + ·) c.logLastLayer

/-- The first step size that is out of range. -/
def badStepSize? (sizes : List Int) : Option Int :=
  sizes.find? (fun s => s < 1 || Fri.maxStep < s)

def validate (c : Config) : Except Failure Unit :=
  if c.stepSizes.head? ≠ some 0 then reject .firstStepNotZero
  else if c.layers < 1 ∨ maxLayers < c.layers then reject (.layerCount c.layers)
  else match badStepSize? c.stepSizes.tail with
    | some s => rejectShowing [s] (.stepSize s)
    | none =>
      if maxLogLastLayer < c.logLastLayer then
        rejectShowing [c.logLastLayer] (.lastLayerTooLarge c.logLastLayer)
      else if c.logCovered ≠ c.logTraceDomain then reject .stepsDoNotCover
      else if c.logCosets < 1 ∨ maxLogCosets < c.logCosets then
        rejectShowing [c.logCosets] (.cosetCount c.logCosets)
      else if c.queries < 1 then reject .noQuery
      else if maxWorkBits < c.workBits then rejectShowing [c.workBits] (.workBits c.workBits)
      else .ok ()

end Config

end StarkReplay
