import StarkReplay.Text

/-!
Blank code points: the white space of the Unicode character database together with the four
information separators. Words are the maximal runs of code points that are not blank.
-/
namespace StarkReplay.Text

def isBlank (c : CodePoint) : Bool :=
  let n := c.val
  (0x09 ≤ n && n ≤ 0x0D) || (0x1C ≤ n && n ≤ 0x20) || n == 0x85 || n == 0xA0 || n == 0x1680 ||
    (0x2000 ≤ n && n ≤ 0x200A) || n == 0x2028 || n == 0x2029 || n == 0x202F || n == 0x205F ||
    n == 0x3000

/-- The text without the blanks at its two ends. -/
def strip (t : Text) : Text :=
  ((t.dropWhile isBlank).reverse.dropWhile isBlank).reverse

def words (t : Text) : List Text :=
  (t.pieces isBlank).filter (fun w => !w.isEmpty)

end StarkReplay.Text
