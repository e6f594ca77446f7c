import StarkReplay.Felt

/-!
Polynomials over the field, as the lists of their coefficients from the constant one on.
-/
namespace StarkReplay.Polynomial

/-- Horner's rule. -/
def horner (coefficients : List Int) (x : Int) : Int :=
  coefficients.foldr (fun c value => (value * x + c) % Felt.prime) 0

/-- The value at `x`; the point and all coefficients have to be field elements. -/
def evaluate (coefficients : List Int) (x : Int) : Except Failure Int :=
  if IsFelt x ∧ ∀ c ∈ coefficients, IsFelt c then .ok (horner coefficients x)
  else .error .outsideField

theorem horner_nil (x : Int) : horner [] x = 0 := rfl

theorem horner_cons (c : Int) (cs : List Int) (x : Int) :
    horner (c :: cs) x = (horner cs x * x + c) % Felt.prime := rfl

end StarkReplay.Polynomial
