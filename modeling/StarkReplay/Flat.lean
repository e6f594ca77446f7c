import StarkReplay.Cursor
import StarkReplay.Felt.Codec

/-!
Flat sequences. A tree of scalars and arrays is flattened by writing each array as its length and
then its items, each scalar as one field element. A section is the flattening of the items of an
array, whose own length is left out. Regrouping reads a tree back from its flat sequence.
-/
namespace StarkReplay.Flat

/-- A scalar is a numeral in a string or an integer. -/
def scalar : Json → Except EncodingError Int
  | .str t => (Felt.ofText t).mapError .scalar
  | .int n => (Felt.check n).mapError .scalar
  | v => .error (.wrongKind v.kindName)

mutual

def flatten : Json → Except EncodingError (List Int)
  | .arr items => do
    let rest ← flattenItems items
    return items.length :: rest
  | v => do
    let n ← scalar v
    return [n]

/-- The items of an array, without its length. -/
def flattenItems : List Json → Except EncodingError (List Int)
  | [] => .ok []
  | v :: vs => do
    let first ← flatten v
    let rest ← flattenItems vs
    return first ++ rest

end

def flattenSection : Json → Except EncodingError (List Int)
  | .arr items => flattenItems items
  | v => .error (.notAnArray v.kindName)

/-- The elements as decimal numerals with single spaces between them. -/
def text (elements : List Int) : Text := Text.join " " (elements.map Numeral.integer)

/-- An array of integers. -/
def array (elements : List Int) : Json := .arr (elements.map .int)

/-- The last element of the calldata of a proof. -/
def versionTag : Int := 1

/-! ## Shapes -/

inductive Shape where
  | scalar
  | array (items : List Shape)

mutual

def shape : Json → Shape
  | .arr items => .array (shapes items)
  | _ => .scalar

def shapes : List Json → List Shape
  | [] => []
  | v :: vs => shape v :: shapes vs

end

/-! ## Regrouping -/

mutual

/-- Reads a tree of the shape of a template. Each recorded length has to be that of the array in
the template. -/
def readTree : Json → CursorM Json
  | .arr items => do
    let count ← Cursor.read
    let c ← get
    if count ≠ items.length then
      throw (.malformed (.arrayLength (c.offset - 1) count items.length))
    else
      let vs ← readTrees items
      return .arr vs
  | _ => do
    let v ← Cursor.read
    return .int v

def readTrees : List Json → CursorM (List Json)
  | [] => return []
  | template :: templates => do
    let v ← readTree template
    let vs ← readTrees templates
    return v :: vs

end

/-- The tree of the template's shape with this flat sequence. -/
def regroup (elements : List Int) (template : Json) : Except Failure Json :=
  match (readTree template).run.run (Cursor.ofList elements) with
  | (.error (.exhausted e), _) => .error (.malformed (.truncatedTree e))
  | (.error f, _) => .error f
  | (.ok v, c) =>
    if c.atEnd then .ok v
    else .error (.malformed (.trailingElements
      ((Cursor.slice elements c.offset elements.length).take 8)))

end StarkReplay.Flat
