import StarkReplay.Json
import StarkReplay.Text.Quoted
import StarkReplay.Binary64.Shortest

/-!
Literals: values as messages show them, with quoted texts and the spellings `None`, `True` and
`False`.
-/
namespace StarkReplay.Json

mutual

def literal : Json → Text
  | null => "None"
  | bool true => "True"
  | bool false => "False"
  | int n => Numeral.integer n
  | float x => x.toText
  | str t => t.quoted
  | arr items => ('[' : CodePoint) :: Text.join ", " (itemLiterals items) ++ [(']' : CodePoint)]
  | obj fields => ('{' : CodePoint) :: Text.join ", " (fieldLiterals fields) ++ [('}' : CodePoint)]

def itemLiterals : List Json → List Text
  | [] => []
  | v :: rest => literal v :: itemLiterals rest

def fieldLiterals : List (Text × Json) → List Text
  | [] => []
  | (k, v) :: rest => (k.quoted ++ Text.ofString ": " ++ literal v) :: fieldLiterals rest

end

/-- Like `literal`, but a text stands for itself. -/
def shown : Json → Text
  | str t => t
  | v => literal v

end StarkReplay.Json
