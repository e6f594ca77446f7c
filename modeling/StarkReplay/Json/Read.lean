import StarkReplay.Json

/-!
Reading JSON texts. Besides the standard grammar the numbers `NaN`, `Infinity` and `-Infinity`
are read, a lone surrogate may be escaped, and a repeated name replaces the value it had. A
number with a fraction or an exponent is a binary64 number, any other an integer, whose digits
may be limited in number.

The readers below work on the rest of the text. A fault keeps the rest at which it was found, so
its position is what the whole text has more than that.
-/
namespace StarkReplay.Json

inductive Expectation where
  | value
  | propertyName
  | colon
  | comma
  | closingQuote
  | noControlCharacter
  | simpleEscape
  | unicodeEscape
  | endOfText
  | noByteOrderMark
  deriving DecidableEq

def Expectation.message : Expectation → Text
  | value => "Expecting value"
  | propertyName => "Expecting property name enclosed in double quotes"
  | colon => "Expecting ':' delimiter"
  | comma => "Expecting ',' delimiter"
  | closingQuote => "Unterminated string starting at"
  | noControlCharacter => "Invalid control character at"
  | simpleEscape => "Invalid \\escape"
  | unicodeEscape => "Invalid \\uXXXX escape"
  | endOfText => "Extra data"
  | noByteOrderMark => "Unexpected UTF-8 BOM (decode using utf-8-sig)"

inductive Fault where
  | unmet (expected : Expectation) (rest : Text)
  | tooManyDigits (count : Nat)

def isBlank (c : CodePoint) : Bool :=
  c.val == 0x20 || c.val == 0x09 || c.val == 0x0A || c.val == 0x0D

def skipBlank (t : Text) : Text := t.dropWhile isBlank

/-- The rest after the code point `c`. -/
def expect (c : CodePoint) (e : Expectation) : Text → Except Fault Text
  | [] => .error (.unmet e [])
  | d :: r => if d = c then .ok r else .error (.unmet e (d :: r))

/-! ## Strings -/

def hexQuad? (a b c d : CodePoint) : Option Nat :=
  if [a, b, c, d].all Numeral.isHexDigit then some (Numeral.ofHex [a, b, c, d]) else none

/-- The number after `\u` at the front of `t`. A closing quote has to follow somewhere, so four
digits that end the text are refused. -/
def readHexQuad (t : Text) : Except Fault (Nat × Text) :=
  match t.drop 1 with
  | a :: b :: c :: d :: e :: r =>
    match hexQuad? a b c d with
    | some n => .ok (n, e :: r)
    | none => .error (.unmet .unicodeEscape t)
  | _ => .error (.unmet .unicodeEscape t)

def joinSurrogates (high low : Nat) : CodePoint :=
  CodePoint.ofNat (0x10000 + (high - 0xD800) * 0x400 + (low - 0xDC00))

/-- Is there a second escape of four digits, and text after it? -/
def pairFollows : Text → Bool
  | b :: u :: _ :: _ :: _ :: _ :: _ :: _ => b = '\\' && u = 'u'
  | _ => false

/-- The escape `\uXXXX` from its `u` on; two that make a surrogate pair are one code point. -/
def readUnicodeEscape (t : Text) : Except Fault (CodePoint × Text) := do
  let (n, rest) ← readHexQuad t
  let c := CodePoint.ofNat n
  if c.isHighSurrogate && pairFollows rest then
    let (m, rest') ← readHexQuad (rest.drop 1)
    if (CodePoint.ofNat m).isLowSurrogate then .ok (joinSurrogates n m, rest') else .ok (c, rest)
  else .ok (c, rest)

/-- What the letter after a backslash stands for. -/
def escapeValue? (e : CodePoint) : Option CodePoint :=
  if e = '"' ∨ e = '\\' ∨ e = '/' then some e
  else if e = 'b' then some (CodePoint.ofNat 0x08)
  else if e = 'f' then some (CodePoint.ofNat 0x0C)
  else if e = 'n' then some '\n'
  else if e = 'r' then some '\r'
  else if e = 't' then some '\t'
  else none

/-- The string whose characters are still to be read, `opening` being the rest from its opening
quote on. Each turn takes one code point of the text at least. -/
def readString (opening : Text) : Nat → Text → Text → Except Fault (Text × Text)
  | 0, _, _ => .error (.unmet .closingQuote opening)
  | _ + 1, _, [] => .error (.unmet .closingQuote opening)
  | fuel + 1, done, c :: r =>
    if c = '"' then .ok (done.reverse, r)
    else if c = '\\' then
      match r with
      | [] => .error (.unmet .closingQuote opening)
      | e :: r' =>
        if e = 'u' then
          match readUnicodeEscape r with
          | .ok (d, rest) => readString opening fuel (d :: done) rest
          | .error fault => .error fault
        else match escapeValue? e with
          | some d => readString opening fuel (d :: done) r'
          | none => .error (.unmet .simpleEscape (c :: r))
    else if c.val < 0x20 then .error (.unmet .noControlCharacter (c :: r))
    else readString opening fuel (c :: done) r

/-! ## Numbers and words -/

/-- The digits in front of the point: no other digit follows a zero. -/
def integerPart? : Text → Option (Text × Text)
  | [] => none
  | c :: r =>
    if c = '0' then some ([c], r)
    else if Numeral.isDecimalDigit c then
      some (c :: r.takeWhile Numeral.isDecimalDigit, r.dropWhile Numeral.isDecimalDigit)
    else none

/-- The digits after a point; a point without a digit after it belongs to what follows. -/
def fractionPart (t : Text) : Text × Text :=
  match t with
  | c :: r =>
    if c = '.' ∧ (r.takeWhile Numeral.isDecimalDigit).isEmpty = false then
      (r.takeWhile Numeral.isDecimalDigit, r.dropWhile Numeral.isDecimalDigit)
    else ([], t)
  | [] => ([], t)

/-- A sign and the rest after it. -/
def signPart : Text → Bool × Text
  | [] => (false, [])
  | c :: r => if c = '-' then (true, r) else if c = '+' then (false, r) else (false, c :: r)

/-- The exponent, if its letter is followed by digits. -/
def exponentPart (t : Text) : Option Int × Text :=
  match t with
  | c :: r =>
    let (negative, body) := signPart r
    let ds := body.takeWhile Numeral.isDecimalDigit
    if (c = 'e' ∨ c = 'E') ∧ ds.isEmpty = false then
      let n : Int := Numeral.ofDecimal ds
      (some (if negative then -n else n), body.dropWhile Numeral.isDecimalDigit)
    else (none, t)
  | [] => (none, t)

def readNumber (digitLimit : Nat) (t : Text) : Except Fault (Json × Text) :=
  let negative := t.head? = some '-'
  match integerPart? (if negative then t.drop 1 else t) with
  | none => .error (.unmet .value t)
  | some (whole, rest) =>
    let (fraction, rest) := fractionPart rest
    let (exponent, rest) := exponentPart rest
    if fraction.isEmpty ∧ exponent = none then
      if digitLimit < whole.length then .error (.tooManyDigits whole.length)
      else
        let n : Int := Numeral.ofDecimal whole
        .ok (.int (if negative then -n else n), rest)
    else
      let coefficient := Numeral.ofDecimal (whole ++ fraction)
      let scale := exponent.getD 0 - fraction.length
      .ok (.float (Binary64.ofDecimal negative coefficient scale), rest)

/-- The values that are spelled as words. -/
def spelled : List (Text × Json) :=
  [("null", .null), ("true", .bool true), ("false", .bool false), ("NaN", .float .nan),
    ("Infinity", .float (.infinite false)), ("-Infinity", .float (.infinite true))]

def readWord? (t : Text) : Option (Json × Text) :=
  spelled.findSome? (fun (word, value) =>
    if word.isPrefixOf t then some (value, t.drop word.length) else none)

/-! ## Values -/

mutual

/-- The value at the front of the text. -/
def readValue (digitLimit : Nat) : Nat → Text → Except Fault (Json × Text)
  | 0, t => .error (.unmet .value t)
  | _ + 1, [] => .error (.unmet .value [])
  | fuel + 1, c :: r =>
    if c = '"' then do
      let (s, rest) ← readString (c :: r) (fuel + 1) [] r
      .ok (.str s, rest)
    else if c = '[' then
      let r := skipBlank r
      if r.head? = some ']' then .ok (.arr [], r.drop 1)
      else do
        let (items, rest) ← readItems digitLimit fuel r
        .ok (.arr items, rest)
    else if c = '{' then
      let r := skipBlank r
      if r.head? = some '}' then .ok (.obj [], r.drop 1)
      else do
        let (members, rest) ← readMembers digitLimit fuel r
        .ok (.obj (Fields.ofList members), rest)
    else match readWord? (c :: r) with
      | some found => .ok found
      | none => readNumber digitLimit (c :: r)

/-- The items of an array from one of them on, and the rest after the closing bracket. -/
def readItems (digitLimit : Nat) : Nat → Text → Except Fault (List Json × Text)
  | 0, t => .error (.unmet .value t)
  | fuel + 1, t => do
    let (v, rest) ← readValue digitLimit fuel t
    let rest := skipBlank rest
    if rest.head? = some ']' then .ok ([v], rest.drop 1)
    else do
      let rest ← expect ',' .comma rest
      let (vs, rest) ← readItems digitLimit fuel (skipBlank rest)
      .ok (v :: vs, rest)

/-- The members of an object from one of them on, and the rest after the closing brace. -/
def readMembers (digitLimit : Nat) : Nat → Text → Except Fault (List (Text × Json) × Text)
  | 0, t => .error (.unmet .propertyName t)
  | fuel + 1, t => do
    let inside ← expect '"' .propertyName t
    let (name, rest) ← readString t (fuel + 1) [] inside
    let rest ← expect ':' .colon (skipBlank rest)
    let (v, rest) ← readValue digitLimit fuel (skipBlank rest)
    let rest := skipBlank rest
    if rest.head? = some '}' then .ok ([(name, v)], rest.drop 1)
    else do
      let rest ← expect ',' .comma rest
      let (ms, rest) ← readMembers digitLimit fuel (skipBlank rest)
      .ok ((name, v) :: ms, rest)

end

/-! ## Documents -/

inductive ReadError where
  | unmet (expected : Expectation) (position : Nat)
  | tooManyDigits (count : Nat)
  deriving DecidableEq

def Fault.locate (whole : Text) : Fault → ReadError
  | .unmet e rest => .unmet e (whole.length - rest.length)
  | .tooManyDigits count => .tooManyDigits count

/-- Two turns at most are spent on each code point. -/
def enough (t : Text) : Nat := 2 * t.length + 2

def readDocument (digitLimit : Nat) (t : Text) : Except Fault Json := do
  let (v, rest) ← readValue digitLimit (enough t) (skipBlank t)
  let rest := skipBlank rest
  if rest.isEmpty then .ok v else .error (.unmet .endOfText rest)

/-- The document that a text spells, in integers of at most `digitLimit` digits. -/
def read (digitLimit : Nat) (t : Text) : Except ReadError Json :=
  if t.head? = some (CodePoint.ofNat 0xFEFF) then .error (.unmet .noByteOrderMark 0)
  else (readDocument digitLimit t).mapError (Fault.locate t)

end StarkReplay.Json
