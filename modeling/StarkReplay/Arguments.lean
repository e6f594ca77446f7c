import StarkReplay.Felt.Codec

/-!
Program arguments: field elements between blanks, and arrays of them in brackets. Brackets may
touch the element beside them. Arrays do not nest, and one that is not closed goes on to the end
of the text.
-/
namespace StarkReplay.Arguments

inductive Argument where
  | felt (value : Int)
  | array (items : List Int)
  deriving DecidableEq

inductive Token where
  | opening
  | closing
  | numeral (text : Text)
  deriving DecidableEq

def Token.ofText (t : Text) : Token :=
  if t = [('[' : CodePoint)] then .opening
  else if t = [(']' : CodePoint)] then .closing
  else .numeral t

/-- The tokens of a word that is not empty and whose opening bracket, if it had one, is cut off
already. -/
def bodyTokens (word : Text) : List Token :=
  if word.getLast? = some ']' then
    if word.dropLast.isEmpty then [.closing] else [.ofText word.dropLast, .closing]
  else if word.isEmpty then []
  else [.ofText word]

/-- One opening bracket is cut off at the front of a word, one closing bracket at its end. -/
def wordTokens (word : Text) : List Token :=
  if word.head? = some '[' then .opening :: bodyTokens word.tail else bodyTokens word

def tokens (t : Text) : List Token := t.words.flatMap wordTokens

def feltOf (t : Text) : Except ParseError Int := (Felt.ofText t).mapError (fun _ => .notAFelt t)

/-- The arguments in the rest of the tokens of `whole`. Inside an array, `items` holds its items so
far, the last one first. -/
def collect (whole : Text) : Option (List Int) → List Token → Except ParseError (List Argument)
  | none, [] => .ok []
  | some items, [] => .ok [.array items.reverse]
  | none, .opening :: rest => collect whole (some []) rest
  | some _, .opening :: _ => .error (.nestedArray whole)
  | none, .closing :: _ => .error (.unmatchedBracket whole)
  | some items, .closing :: rest => do
    let arguments ← collect whole none rest
    return .array items.reverse :: arguments
  | none, .numeral t :: rest => do
    let v ← feltOf t
    let arguments ← collect whole none rest
    return .felt v :: arguments
  | some items, .numeral t :: rest => do
    let v ← feltOf t
    collect whole (some (v :: items)) rest

def parse (t : Text) : Except ParseError (List Argument) := collect t none (tokens t)

end StarkReplay.Arguments
