import StarkReplay.Binary64

/-!
JSON documents. Integers have any size; the fields of an object are in the order in which their
names came first, and a name comes once.
-/
namespace StarkReplay

inductive Json where
  | null
  | bool (value : Bool)
  | int (value : Int)
  | float (value : Binary64)
  | str (value : Text)
  | arr (items : List Json)
  | obj (fields : List (Text × Json))
  deriving Inhabited

namespace Json

abbrev Fields := List (Text × Json)

/-- The value of a field. -/
def Fields.get? : Fields → Text → Option Json
  | [], _ => none
  | (k, v) :: rest, name => if k = name then some v else Fields.get? rest name

/-- A present field keeps its place and gets the value; an absent one comes last. -/
def Fields.set : Fields → Text → Json → Fields
  | [], name, value => [(name, value)]
  | (k, v) :: rest, name, value =>
    if k = name then (k, value) :: rest else (k, v) :: Fields.set rest name value

/-- The fields of an object as they are read one after another. -/
def Fields.ofList (members : List (Text × Json)) : Fields :=
  members.foldl (fun fields m => fields.set m.1 m.2) []

theorem Fields.get?_set (fields : Fields) (name other : Text) (value : Json) :
    (fields.set name value).get? other =
      if name = other then some value else fields.get? other := by
  induction fields with
  | nil => simp [Fields.set, Fields.get?]
  | cons field rest ih =>
    obtain ⟨k, v⟩ := field
    by_cases hk : k = name
    · subst hk
      by_cases ho : k = other <;> simp [Fields.set, Fields.get?, ho]
    · by_cases ho : k = other
      · subst ho
        simp [Fields.set, Fields.get?, hk, Ne.symm hk]
      · simp [Fields.set, Fields.get?, hk, ho, ih]

/-- The kinds of values as messages name them. -/
def kindName : Json → Text
  | null => "NoneType"
  | bool _ => "bool"
  | int _ => "int"
  | float _ => "float"
  | str _ => "str"
  | arr _ => "list"
  | obj _ => "dict"

end Json

end StarkReplay
