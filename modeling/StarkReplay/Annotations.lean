import StarkReplay.Failure

/-!
Annotations. The recursive verifier takes a proof together with the lines of two annotation
files, as two fields of the proof's document.
-/
namespace StarkReplay.Annotations

def mainName : Text := "annotations"

def extraName : Text := "extra_annotations"

def lineArray (lines : List Text) : Json := .arr (lines.map .str)

/-- The document with both fields, each replaced where it stands or else added at the end. -/
def withLines (proof : Json.Fields) (annotations extra : List Text) : Json.Fields :=
  (proof.set mainName (lineArray annotations)).set extraName (lineArray extra)

/-- Both sources of lines have to be given, and only an object can take them. -/
def merge (proof : Json) (annotations extra : Option (List Text)) : Except Failure Json :=
  match annotations, extra, proof with
  | none, _, _ => .error (.missingAnnotations mainName)
  | some _, none, _ => .error (.missingAnnotations extraName)
  | some a, some e, .obj fields => .ok (.obj (withLines fields a e))
  | some _, some _, _ => .error .notAnObject

end StarkReplay.Annotations
