import StarkReplay.Json
import StarkReplay.Binary64.Shortest

/-!
JSON texts of documents, in ASCII: on one line with a space after each comma and colon, or with
one item a line, indented by two spaces a level.
-/
namespace StarkReplay.Json

inductive Style where
  | oneLine
  | indented

/-- What stands in front of an item and of a closing bracket. -/
def Style.gap : Style → Nat → Text
  | .oneLine, _ => []
  | .indented, level => '\n' :: List.replicate (2 * level) (' ' : CodePoint)

def Style.comma : Style → Text
  | .oneLine => ", "
  | .indented => ","

/-- An escape of four hexadecimal digits. -/
def unicodeEscape (n : Nat) : Text := Text.ofString "\\u" ++ Numeral.hexPadded 4 n

/-- Code points past the first plane are written as a surrogate pair. -/
def writeCodePoint (c : CodePoint) : Text :=
  if c = '"' then "\\\""
  else if c = '\\' then "\\\\"
  else if c = '\n' then "\\n"
  else if c = '\r' then "\\r"
  else if c = '\t' then "\\t"
  else if c.val = 0x0C then "\\f"
  else if c.val = 0x08 then "\\b"
  else if 0x20 ≤ c.val ∧ c.val ≤ 0x7E then [c]
  else if c.val < 0x10000 then unicodeEscape c.val
  else
    let n := c.val - 0x10000
    unicodeEscape (0xD800 + n / 0x400) ++ unicodeEscape (0xDC00 + n % 0x400)

def writeString (t : Text) : Text :=
  ('"' : CodePoint) :: t.flatMap writeCodePoint ++ [('"' : CodePoint)]

/-- The name of a field and its colon. -/
def writeName (name : Text) : Text := writeString name ++ Text.ofString ": "

def writeFloat : Binary64 → Text
  | .nan => "NaN"
  | .infinite negative => Binary64.signed negative "Infinity"
  | x => x.toText

mutual

def writeAt (style : Style) (level : Nat) : Json → Text
  | null => "null"
  | bool true => "true"
  | bool false => "false"
  | int n => Numeral.integer n
  | float x => writeFloat x
  | str t => writeString t
  | arr [] => "[]"
  | arr (v :: rest) =>
    ('[' : CodePoint) :: style.gap (level + 1) ++ writeAt style (level + 1) v ++
      writeItems style (level + 1) rest ++ style.gap level ++ [(']' : CodePoint)]
  | obj [] => "\x7b\x7d"
  | obj ((k, v) :: rest) =>
    ('{' : CodePoint) :: style.gap (level + 1) ++ writeName k ++ writeAt style (level + 1) v ++
      writeFields style (level + 1) rest ++ style.gap level ++ [('}' : CodePoint)]

/-- The items after the first one, each after a comma. -/
def writeItems (style : Style) (level : Nat) : List Json → Text
  | [] => []
  | v :: rest =>
    style.comma ++ style.gap level ++ writeAt style level v ++ writeItems style level rest

def writeFields (style : Style) (level : Nat) : List (Text × Json) → Text
  | [] => []
  | (k, v) :: rest =>
    style.comma ++ style.gap level ++ writeName k ++ writeAt style level v ++
      writeFields style level rest

end

def write (style : Style) (v : Json) : Text := writeAt style 0 v

end StarkReplay.Json
