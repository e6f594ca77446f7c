import StarkReplay.Text.Numeral
import StarkReplay.Text.Printable

/-!
Quoted texts, as messages show them: apostrophes around the text, or quotation marks if it
holds an apostrophe and no quotation mark, and escapes for all that is not printable.
-/
namespace StarkReplay.Text

def quoteMark (t : Text) : CodePoint :=
  if t.contains ('\'' : CodePoint) && !t.contains ('"' : CodePoint) then '"' else '\''

/-- One code point between quotation marks `mark`. -/
def escaped (mark c : CodePoint) : Text :=
  if c = mark ∨ c = '\\' then ['\\', c]
  else if c = '\n' then "\\n"
  else if c = '\r' then "\\r"
  else if c = '\t' then "\\t"
  else if isPrintable c then [c]
  else if c.val < 0x100 then ofString "\\x" ++ Numeral.hexPadded 2 c.val
  else if c.val < 0x10000 then ofString "\\u" ++ Numeral.hexPadded 4 c.val
  else ofString "\\U" ++ Numeral.hexPadded 8 c.val

def quoted (t : Text) : Text :=
  let mark := quoteMark t
  mark :: t.flatMap (escaped mark) ++ [mark]

end StarkReplay.Text
