import StarkReplay.Text

/-!
Lines of a text file. Reading a file turns every line end into a line feed; cutting a text into
lines then stops at each of the line boundaries of Unicode and at the information separators.
-/
namespace StarkReplay.Text

/-- Carriage returns, alone or before a line feed, become line feeds. -/
def unifyLineEnds : Text → Text
  | [] => []
  | c :: r =>
    if c = '\r' then
      match r with
      | [] => ['\n']
      | d :: r' => if d = '\n' then '\n' :: unifyLineEnds r' else '\n' :: unifyLineEnds (d :: r')
    else c :: unifyLineEnds r

def isLineEnd (c : CodePoint) : Bool :=
  let n := c.val
  (0x0A ≤ n && n ≤ 0x0D) || (0x1C ≤ n && n ≤ 0x1E) || n == 0x85 || n == 0x2028 || n == 0x2029

/-- The lines of a text without their ends. A text that ends with a line end has no empty line
after it, and a carriage return before a line feed makes one end with it. -/
def lines : Text → List Text
  | [] => []
  | c :: r =>
    if isLineEnd c then
      match r with
      | [] => [[]]
      | d :: r' => if c = '\r' ∧ d = '\n' then [] :: lines r' else [] :: lines (d :: r')
    else match lines r with
      | [] => [[c]]
      | l :: ls => (c :: l) :: ls

end StarkReplay.Text
