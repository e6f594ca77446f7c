import StarkReplay.Failure

/-!
Tables: a list of cells cut into rows of equal length.
-/
namespace StarkReplay.Table

/-- So many rows of `columns` cells each. -/
def rows (columns : Nat) : Nat → List Int → List (List Int)
  | 0, _ => []
  | n + 1, cells => cells.take columns :: rows columns n (cells.drop columns)

/-- Sides have at most 63 bits. -/
def sideBound : Int := 0x8000000000000000

/-- What memory could hold of one side, at eight bytes a cell. -/
def cellBound : Int := 0x1000000000000000

/-- The table with sides of the given lengths, whose product is the number of cells. A table that
has cells is no larger than their list. Otherwise sides of negative length or of more than 63 bits
are refused, and so is a table without cells one of whose sides is longer than memory could hold. -/
def ofCells (cells : List Int) (height width : Int) : Except TableError (List (List Int)) :=
  if 0 < height ∧ 0 < width then .ok (rows width.toNat height.toNat cells)
  else if sideBound ≤ height ∨ sideBound ≤ width ∨ height < -sideBound ∨ width < -sideBound then
    .error .sideTooLong
  else if height < 0 ∧ width < 0 then .error .twoNegativeSides
  else if height < 0 then .error .negativeHeight
  else if width < 0 then .error .negativeWidth
  else if cellBound ≤ height ∨ cellBound ≤ width then .error .tooManyCells
  else .ok (rows width.toNat height.toNat cells)

end StarkReplay.Table
