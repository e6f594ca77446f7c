import StarkReplay.Json.Read

/-!
The causes of failure. Each operation of the library that can fail says with one of these values
what was wrong; their wording is in `StarkReplay.Failure.Message`.
-/
namespace StarkReplay

/-- Why a number, a text or a byte string is no field element. -/
inductive FeltError where
  | notNumeral (text : Text)
  | tooManyDigits (count : Nat)
  | tooManyBytes (count : Nat)
  | outOfRange (value : Int)
  deriving DecidableEq

/-- Why a value cannot be flattened. -/
inductive EncodingError where
  | wrongKind (kind : Text)
  | notAnArray (kind : Text)
  | scalar (cause : FeltError)
  deriving DecidableEq

/-- A read of `needed` elements at `offset`, where only `remaining` are left. -/
structure Exhausted where
  needed : Int
  offset : Int
  remaining : Int
  deriving DecidableEq

/-- The streams of felts that a replay reads. -/
inductive Stream where
  | calldata
  | initial
  | step (number : Nat)
  | final
  deriving DecidableEq

/-- The two runs that make up a layer. -/
inductive Run where
  | leaves
  | authentications
  deriving DecidableEq

/-- Why a text or a stream does not have the form it should have. -/
inductive ParseError where
  | invalidJson (expected : Json.Expectation) (around : Text)
  | longNumeral (digits : Nat) (start : Text)
  | notAnObject (start : Text)
  | missingSection (name : Text)
  | sectionNotArray (name : Text) (start : Text)
  | truncatedTree (cause : Exhausted)
  | arrayLength (offset : Int) (recorded : Int) (expected : Nat)
  | trailingElements (first : List Int)
  | truncatedRun (run : Run) (cause : Exhausted)
  | noAuthentications (layer : Nat) (offset : Int)
  | notAFelt (token : Text)
  | nestedArray (text : Text)
  | unmatchedBracket (text : Text)
  deriving DecidableEq

/-- Why a proof is not accepted. -/
inductive Rejection where
  | firstStepNotZero
  | layerCount (layers : Int)
  | stepSize (size : Int)
  | lastLayerTooLarge (log : Int)
  | stepsDoNotCover
  | cosetCount (log : Int)
  | noQuery
  | workBits (bits : Int)
  | layoutMismatch (declared expected : Text)
  | traceSize
  | rangeInverted
  | oodsCount (expected got : Nat)
  | commitmentCount (expected : Int) (got : Nat)
  | coefficientCount (expected got : Nat)
  | nonceTooLarge
  | truncated (cause : Exhausted)
  | layerDeclaration (declared configured : Int)
  | traceLeafCount (name : Text) (got : Nat) (queries columns : Int)
  | traceCommitment (name : Text)
  | proofOfWork
  | stepBeyond (step layers : Int)
  | layerLeafCount (layer : Int) (got queries coset : Nat)
  | layerCommitment (layer : Int)
  | layerInconsistent (layer index : Int)
  | finalTooEarly (done layers : Int)
  | coefficientsMismatch
  | evaluationMismatch (index : Int)
  | notAFelt (stream : Stream) (offset : Nat) (cause : FeltError)
  | versionTag
  | layerTotal (expected : Int) (got : Nat)
  | trailing (stream : Stream) (elements : Int)
  | chunkCount (expected : Int) (got : Nat)
  | stateTruncated (stream : Stream) (cause : Exhausted)
  | stateMalformed (stream : Stream) (length : Nat)
  | constantMismatch (stream : Stream)
  | variableMismatch (stream : Stream)
  | notOneLayer (stream : Stream) (got : Nat)
  | lastLayerTruncated (cause : Exhausted)
  deriving DecidableEq

/-- Why a list cannot be laid out as a table. -/
inductive TableError where
  | twoNegativeSides
  | negativeHeight
  | negativeWidth
  | sideTooLong
  | tooManyCells
  deriving DecidableEq

inductive Failure where
  | felt (cause : FeltError)
  | encoding (cause : EncodingError)
  | exhausted (cause : Exhausted)
  | malformed (cause : ParseError)
  | rejected (reason : Rejection)
  | unsupportedLayout (name : Text)
  /-- A position outside a list. -/
  | noElement
  | tooFewElements (expected got : Nat)
  | oddQueryState (length : Nat)
  /-- A point or a coefficient of a polynomial outside the field. -/
  | outsideField
  | negativeShift
  /-- A number that does not fit where it has to go. -/
  | overflow
  | divisionByZero
  /-- A number with more decimal digits than may be written. -/
  | longNumber
  /-- A decimal numeral with more digits than may be read. -/
  | longNumeral (digits : Nat)
  | longShortString (text : Text)
  /-- A text with a code point that its encoding does not have. -/
  | unencodable
  /-- Bytes that encode no text. -/
  | undecodable
  | table (cause : TableError)
  | logOfNonPositive (x : Int)
  | traceTooShort (logSteps : Int)
  | nonPositiveTrace (steps : Int)
  | invalidStepCount (shown : Text)
  | missingAnnotations (name : Text)
  | notAnObject
  | invalidJson (expected : Json.Expectation) (position line column : Nat)
  | directoryNotEmpty (path : Text)
  | noSuchPath
  | isDirectory
  | notDirectory
  /-- A path with a null character. -/
  | nulInPath
  /-- A path, or a name on it, with more bytes than it may have. -/
  | nameTooLong
  | alreadyThere
  /-- A place that nothing can replace. -/
  | busy
  deriving DecidableEq

instance : MonadLift (Except FeltError) (Except Failure) := ⟨Except.mapError Failure.felt⟩

def reject {α : Type} (reason : Rejection) : Except Failure α := .error (.rejected reason)

/-- A rejection whose message shows some numbers, unless one of them cannot be written. -/
def rejectShowing {α : Type} (numbers : List Int) (reason : Rejection) : Except Failure α :=
  if numbers.any (fun n => Numeral.isTooLong n.natAbs) then .error .longNumber else reject reason

end StarkReplay
