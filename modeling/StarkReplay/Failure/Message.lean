import StarkReplay.Failure
import StarkReplay.Text.Quoted

/-!
The wording of failures. A parse error shows the fragment it concerns, quoted, after a colon,
unless the fragment is empty.
-/
namespace StarkReplay

open Numeral (decimal integer)

/-- The text of a numeral with too many digits. -/
def longNumeralMessage (digits : Nat) : Text :=
  Text.concat ["Exceeds the limit (", decimal Numeral.maxDigits,
    " digits) for integer string conversion: value has ", decimal digits,
    " digits; use sys.set_int_max_str_digits() to increase the limit"]

/-- The text in place of a message with a number in it that has too many digits to be written. -/
def longNumberMessage : Text :=
  Text.concat ["Exceeds the limit (", decimal Numeral.maxDigits,
    " digits) for integer string conversion",
    "; use sys.set_int_max_str_digits() to increase the limit"]

/-- A message that shows a number, if the number can be written. -/
def showing (n : Int) (message : Text) : Text :=
  if Numeral.isTooLong n.natAbs then longNumberMessage else message

def FeltError.message : FeltError → Text
  | notNumeral t => Text.concat ["invalid digit found in string: ", t.quoted]
  | tooManyDigits n => longNumeralMessage n
  | tooManyBytes n => Text.concat ["number out of range: ", decimal n, " bytes exceeds 32"]
  | outOfRange v => showing v (Text.concat ["number out of range: ", integer v])

def EncodingError.message : EncodingError → Text
  | wrongKind kind => Text.concat ["invalid type: ", kind]
  | notAnArray kind => Text.concat ["section must be an array, got ", kind]
  | scalar cause => cause.message

def Exhausted.message (e : Exhausted) : Text :=
  Text.concat ["need ", integer e.needed, " elements at offset ", integer e.offset, ", only ",
    integer e.remaining, " remain"]

/-- The name of a stream, which is also the name of its file. -/
def Stream.name : Stream → Text
  | calldata => "calldata"
  | initial => "initial"
  | step n => Text.concat ["step", decimal n]
  | final => "final"

def Run.name : Run → Text
  | leaves => "leaves"
  | authentications => "authentications"

/-- The elements between brackets, as a list is shown. -/
def listed (elements : List Int) : Text :=
  Text.concat ["[", Text.join ", " (elements.map integer), "]"]

namespace ParseError

def summary : ParseError → Text
  | invalidJson e _ => Text.concat ["malformed proof text (", e.message, ")"]
  | longNumeral n _ => Text.concat ["malformed proof text (", longNumeralMessage n, ")"]
  | notAnObject _ => "proof text must be a JSON object"
  | missingSection _ => "missing proof section"
  | sectionNotArray name _ => Text.concat ["section ", name, " must be an array"]
  | truncatedTree _ => "flat sequence truncated"
  | arrayLength offset _ _ => Text.concat ["array length mismatch at offset ", integer offset]
  | trailingElements _ => "trailing elements after regroup"
  | truncatedRun run _ => Text.concat ["truncated ", run.name, " run"]
  | noAuthentications layer _ =>
    Text.concat ["layer ", decimal layer, " has no authentication run"]
  | notAFelt token => Text.concat [token.quoted, " is not a valid felt"]
  | nestedArray _ => "nested arrays are not supported"
  | unmatchedBracket _ => "unmatched closing bracket"

/-- The piece of the input, or what was found there, that an error concerns. -/
def fragment : ParseError → Text
  | invalidJson _ around => around
  | longNumeral _ start => start
  | notAnObject start => start
  | missingSection name => name
  | sectionNotArray _ start => start
  | truncatedTree e => e.message
  | arrayLength _ recorded expected =>
    Text.concat ["recorded ", integer recorded, ", expected ", decimal expected]
  | trailingElements first => listed first
  | truncatedRun _ e => e.message
  | noAuthentications _ offset => Text.concat ["offset ", integer offset]
  | notAFelt token => token
  | nestedArray text => text
  | unmatchedBracket text => text

def message (e : ParseError) : Text :=
  if e.fragment.isEmpty then e.summary else Text.concat [e.summary, ": ", e.fragment.quoted]

end ParseError

def Rejection.message : Rejection → Text
  | firstStepNotZero => "first FRI step size must be 0"
  | layerCount n => Text.concat ["invalid number of FRI layers: ", integer n]
  | stepSize s => Text.concat ["invalid FRI step size: ", integer s]
  | lastLayerTooLarge log => Text.concat ["last layer degree bound too large: 2^", integer log]
  | stepsDoNotCover => "FRI steps do not cover the trace domain"
  | cosetCount log => Text.concat ["invalid log_n_cosets: ", integer log]
  | noQuery => "at least one query is required"
  | workBits bits => Text.concat ["proof of work bits too large: ", integer bits]
  | layoutMismatch declared expected =>
    Text.concat ["public input layout ", declared, " does not match ", expected]
  | traceSize => "trace domain size does not match the number of steps"
  | rangeInverted => "range check bounds are inverted"
  | oodsCount expected got =>
    Text.concat ["expected ", decimal expected, " OODS values, got ", decimal got]
  | commitmentCount expected got =>
    Text.concat ["expected ", integer expected, " FRI commitments, got ", decimal got]
  | coefficientCount expected got =>
    Text.concat ["expected ", decimal expected, " last layer coefficients, got ", decimal got]
  | nonceTooLarge => "proof of work nonce exceeds 64 bits"
  | truncated e => Text.concat ["calldata truncated (", e.message, ")"]
  | layerDeclaration declared configured =>
    Text.concat ["witness declares ", integer declared, " FRI layers, config has ",
      integer configured]
  | traceLeafCount name got queries columns =>
    Text.concat [name, " decommitment has ", decimal got, " leaves, expected ", integer queries,
      " x ", integer columns]
  | traceCommitment name => Text.concat [name, " commitment mismatch"]
  | proofOfWork => "proof of work check failed"
  | stepBeyond step layers =>
    Text.concat ["FRI step ", integer step, " beyond ", integer layers, " layers"]
  | layerLeafCount layer got queries coset =>
    Text.concat ["FRI layer ", integer layer, " has ", decimal got, " leaves, expected ",
      decimal queries, " x ", decimal coset]
  | layerCommitment layer => Text.concat ["FRI layer ", integer layer, " commitment mismatch"]
  | layerInconsistent layer index =>
    Text.concat ["FRI layer ", integer layer, " inconsistent at index ", integer index]
  | finalTooEarly done layers =>
    Text.concat ["final check after ", integer done, " of ", integer layers, " FRI steps"]
  | coefficientsMismatch => "last layer coefficients do not match the commitment"
  | evaluationMismatch index =>
    Text.concat ["last layer evaluation mismatch at index ", integer index]
  | notAFelt stream offset cause =>
    Text.concat [stream.name, ": element ", decimal offset, " is not a field element (",
      cause.message, ")"]
  | versionTag => "calldata must end with version tag 1"
  | layerTotal expected got =>
    Text.concat ["expected ", integer expected, " FRI layers, got ", decimal got]
  | trailing stream n => Text.concat [stream.name, ": ", integer n, " trailing elements"]
  | chunkCount expected got =>
    Text.concat ["expected ", integer expected, " step chunks, got ", decimal got]
  | stateTruncated stream e => Text.concat [stream.name, ": state truncated (", e.message, ")"]
  | stateMalformed stream length =>
    Text.concat [stream.name, ": malformed state (query state has odd length ", decimal length,
      ")"]
  | constantMismatch stream => Text.concat [stream.name, ": constant state mismatch"]
  | variableMismatch stream => Text.concat [stream.name, ": variable state mismatch"]
  | notOneLayer stream got =>
    Text.concat [stream.name, ": expected one FRI layer, got ", decimal got]
  | lastLayerTruncated e => Text.concat ["final: last layer truncated (", e.message, ")"]

def TableError.message : TableError → Text
  | twoNegativeSides => "can only specify one unknown dimension"
  | negativeHeight => "cannot reshape array of size 0 into shape (0)"
  | negativeWidth => "cannot reshape array of size 0 into shape (0,newaxis)"
  | sideTooLong => "Maximum allowed dimension exceeded"
  | tooManyCells =>
    Text.concat ["array is too big; `arr.size * arr.dtype.itemsize`",
      " is larger than the maximum possible size."]

def Failure.message : Failure → Text
  | felt cause => cause.message
  | encoding cause => cause.message
  | exhausted cause => cause.message
  | malformed cause => cause.message
  | rejected reason => Text.concat ["verification failed: ", reason.message]
  | unsupportedLayout name => Text.concat ["unsupported layout: ", name]
  | noElement => "position outside the list"
  | tooFewElements expected got =>
    Text.concat ["not enough values to unpack (expected ", decimal expected, ", got ", decimal got,
      ")"]
  | oddQueryState n => Text.concat ["query state has odd length ", decimal n]
  | outsideField => "polynomial input outside the field"
  | negativeShift => "negative shift count"
  | overflow => "number too large"
  | divisionByZero => "division by zero"
  | longNumber => longNumberMessage
  | longNumeral digits => longNumeralMessage digits
  | longShortString t => Text.concat ["short string longer than 31 chars: ", t.quoted]
  | unencodable => "text has no encoding"
  | undecodable => "bytes encode no text"
  | table cause => cause.message
  | logOfNonPositive x => showing x (Text.concat ["ceil_log2 requires x >= 1, got ", integer x])
  | traceTooShort log =>
    showing log (Text.concat ["trace too short: 2^", integer log,
      " steps is below the last layer degree bound"])
  | nonPositiveTrace n =>
    showing n (Text.concat ["trace_steps must be positive, got ", integer n])
  | invalidStepCount shown =>
    Text.concat ["AIR public input has no valid n_steps: ", shown]
  | missingAnnotations name => Text.concat ["missing annotation file: ", name]
  | notAnObject => "annotations can only be merged into an object"
  | invalidJson e position line column =>
    Text.concat [e.message, ": line ", decimal line, " column ", decimal column, " (char ",
      decimal position, ")"]
  | directoryNotEmpty path => Text.concat ["output directory is not empty: ", path]
  | noSuchPath => "no such file or directory"
  | isDirectory => "path is a directory"
  | notDirectory => "path leads through a file"
  | nulInPath => "embedded null byte"
  | nameTooLong => "name too long"
  | alreadyThere => "path is taken"
  | busy => "path cannot be replaced"

end StarkReplay
