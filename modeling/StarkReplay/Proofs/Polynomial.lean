import Mathlib.Data.Int.ModEq
import Mathlib.Tactic.Ring
import StarkReplay.Felt.Polynomial
import StarkReplay.Proofs.Felts

/-!
Values of polynomials. Horner's rule, with its checks made in front or each in its turn, gives the
sum of the coefficients times the powers of the point, modulo the prime of the field. So a
polynomial can be evaluated in two parts: its first coefficients and the ones behind them.
-/
namespace StarkReplay.Polynomial

/-- The sum of `c[k] * x ^ k` over all coefficients, in the field. -/
def value (coefficients : List Int) (x : Int) : Int :=
  (∑ k : Fin coefficients.length, coefficients[k] * x ^ (k : Nat)) % Felt.prime

theorem isFelt_value (cs : List Int) (x : Int) : IsFelt (value cs x) := Felt.isFelt_emod _

theorem value_cons (c : Int) (cs : List Int) (x : Int) :
    value (c :: cs) x = (value cs x * x + c) % Felt.prime := by
  have hsum : ∑ k : Fin (c :: cs).length, (c :: cs)[k] * x ^ (k : Nat) =
      (∑ k : Fin cs.length, cs[k] * x ^ (k : Nat)) * x + c := by
    rw [Finset.sum_mul]
    refine (Fin.sum_univ_succ (n := cs.length) _).trans ?_
    simp [pow_succ, mul_assoc, add_comm]
  rw [value, value, hsum]
  simp only [Int.add_emod, Int.mul_emod, Int.emod_emod]

theorem horner_eq_value (cs : List Int) (x : Int) : horner cs x = value cs x := by
  induction cs with
  | nil => simp [horner_nil, value]
  | cons c cs ih => rw [horner_cons, ih, value_cons]

theorem evaluate_eq_ok {cs : List Int} {x y : Int} :
    evaluate cs x = .ok y ↔ IsFelt x ∧ Felts cs ∧ y = value cs x := by
  unfold evaluate
  rw [horner_eq_value]
  split
  · rename_i h
    constructor
    · intro hy
      cases hy
      exact ⟨h.1, h.2, rfl⟩
    · rintro ⟨-, -, rfl⟩
      rfl
  · rename_i h
    constructor
    · intro hy
      cases hy
    · rintro ⟨hx, hcs, -⟩
      exact absurd ⟨hx, hcs⟩ h

/-- One number outside the field, be it the point or a coefficient, leaves no value. -/
theorem evaluate_eq_error {cs : List Int} {x : Int} :
    evaluate cs x = .error .outsideField ↔ ¬IsFelt x ∨ ∃ c ∈ cs, ¬IsFelt c := by
  unfold evaluate
  split
  · rename_i h
    refine iff_of_false nofun ?_
    rintro (hx | ⟨c, hc, hnot⟩)
    · exact hx h.1
    · exact hnot (h.2 c hc)
  · rename_i h
    refine iff_of_true rfl (or_iff_not_imp_left.2 fun hx => ?_)
    by_contra hnone
    push Not at hx hnone
    exact h ⟨hx, hnone⟩

theorem evaluate_of_felts {cs : List Int} {x : Int} (hx : IsFelt x) (hcs : Felts cs) :
    evaluate cs x = .ok (value cs x) := evaluate_eq_ok.2 ⟨hx, hcs, rfl⟩

theorem mapM_evaluate {rows : List (List Int)} {x : Int} (hx : IsFelt x)
    (h : ∀ cs ∈ rows, Felts cs) : rows.mapM (evaluate · x) = .ok (rows.map (value · x)) := by
  induction rows with
  | nil => rfl
  | cons cs rows ih =>
    obtain ⟨hcs, hrows⟩ := List.forall_mem_cons.1 h
    rw [List.mapM_cons, evaluate_of_felts hx hcs, ih hrows]
    rfl

/-! ## Coefficients in turn -/

/-- A number as an element of the field. -/
def element (v : Int) : Except Failure Int := if IsFelt v then .ok v else .error .outsideField

/-- One turn of Horner's rule. -/
def turn (point value c : Int) : Except Failure Int := do
  return (value * point + (← element c)) % Felt.prime

/-- Horner's rule from the last coefficient on, each number checked when its turn comes. -/
def evaluateInTurn (coefficients : List Int) (x : Int) : Except Failure Int := do
  coefficients.reverse.foldlM (turn (← element x)) 0

theorem foldlM_turn (cs : List Int) (x : Int) : cs.reverse.foldlM (turn x) 0 =
    if Felts cs then .ok (horner cs x) else .error .outsideField := by
  induction cs with
  | nil => rfl
  | cons c cs ih =>
    rw [List.reverse_cons, List.foldlM_append, ih]
    by_cases hcs : Felts cs
    · rw [if_pos hcs, ok_bind, List.foldlM_cons, turn, element]
      by_cases hc : IsFelt c
      · rw [if_pos hc, if_pos (felts_cons.2 ⟨hc, hcs⟩)]
        rfl
      · rw [if_neg hc, if_neg fun h => hc (felts_cons.1 h).1]
        rfl
    · rw [if_neg hcs, if_neg fun h => hcs (felts_cons.1 h).2]
      rfl

/-- The checks may all be made first: one that fails in its turn fails in front of all turns. -/
theorem evaluate_eq_inTurn (cs : List Int) (x : Int) : evaluate cs x = evaluateInTurn cs x := by
  rw [evaluate, evaluateInTurn, element]
  by_cases hx : IsFelt x
  · rw [if_pos hx, ok_bind, foldlM_turn]
    exact if_congr (and_iff_right hx) rfl rfl
  · rw [if_neg hx, if_neg fun h => hx h.1]
    rfl

/-! ## Values as sums of powers -/

theorem value_modEq (cs : List Int) (x : Int) :
    value cs x ≡ ∑ k : Fin cs.length, cs[k] * x ^ (k : Nat) [ZMOD Felt.prime] := Int.mod_modEq _ _

theorem value_cons_modEq (c : Int) (cs : List Int) (x : Int) :
    value (c :: cs) x ≡ value cs x * x + c [ZMOD Felt.prime] := by
  rw [value_cons]
  exact Int.mod_modEq _ _

/-- The coefficients behind the first ones belong to higher powers. -/
theorem value_append_modEq (as bs : List Int) (x : Int) :
    value (as ++ bs) x ≡ value as x + x ^ as.length * value bs x [ZMOD Felt.prime] := by
  induction as with
  | nil => simp [value]
  | cons a as ih =>
    calc value (a :: as ++ bs) x
      _ ≡ value (as ++ bs) x * x + a [ZMOD Felt.prime] := value_cons_modEq a (as ++ bs) x
      _ ≡ (value as x + x ^ as.length * value bs x) * x + a [ZMOD Felt.prime] :=
        (ih.mul_right x).add_right a
      _ = (value as x * x + a) + x ^ (a :: as).length * value bs x := by
        rw [List.length_cons]
        ring
      _ ≡ value (a :: as) x + x ^ (a :: as).length * value bs x [ZMOD Felt.prime] :=
        (value_cons_modEq a as x).symm.add_right _

/-- Horner's rule gives a value exactly if the point and the coefficients are felts: the felt that
is congruent to the sum of the powers. Two lists of coefficients one behind the other have the value
of the first one and, that many powers higher, the value of the second one. -/
theorem evaluate_sums_powers :
    (∀ cs x, evaluate cs x = evaluateInTurn cs x) ∧
      (∀ cs x, evaluate cs x = .error .outsideField ↔ ¬IsFelt x ∨ ∃ c ∈ cs, ¬IsFelt c) ∧
      (∀ cs x, IsFelt x → Felts cs → ∃ y, evaluate cs x = .ok y ∧ IsFelt y ∧
        y ≡ ∑ k : Fin cs.length, cs[k] * x ^ (k : Nat) [ZMOD Felt.prime]) ∧
        ∀ as bs x, IsFelt x → Felts as → Felts bs → ∃ u v w,
          evaluate as x = .ok u ∧ evaluate bs x = .ok v ∧ evaluate (as ++ bs) x = .ok w ∧
            w ≡ u + x ^ as.length * v [ZMOD Felt.prime] := by
  refine ⟨evaluate_eq_inTurn, fun cs x => evaluate_eq_error, fun cs x hx hcs => ?_,
    fun as bs x hx has hbs => ?_⟩
  · exact ⟨value cs x, evaluate_of_felts hx hcs, isFelt_value cs x, value_modEq cs x⟩
  · exact ⟨value as x, value bs x, value (as ++ bs) x, evaluate_of_felts hx has,
      evaluate_of_felts hx hbs, evaluate_of_felts hx (felts_append.2 ⟨has, hbs⟩),
      value_append_modEq as bs x⟩

/-- Three large coefficients at a large point, the last one on its own, and no coefficient at a
point outside the field. -/
theorem evaluate_sums_powers_small :
    (IsFelt (2 ^ 200 + 3) ∧ Felts [5, 2 ^ 240, 7] ∧
      ∃ y, evaluate [5, 2 ^ 240, 7] (2 ^ 200 + 3) = .ok y ∧ IsFelt y ∧
        y ≡ 5 + 2 ^ 240 * (2 ^ 200 + 3) + 7 * (2 ^ 200 + 3) ^ 2 [ZMOD Felt.prime]) ∧
      (∃ u w, evaluate [5, 2 ^ 240] (2 ^ 200 + 3) = .ok u ∧
        evaluate [5, 2 ^ 240, 7] (2 ^ 200 + 3) = .ok w ∧
          w ≡ u + (2 ^ 200 + 3) ^ 2 * 7 [ZMOD Felt.prime]) ∧
        evaluate [] Felt.prime = .error .outsideField := by
  obtain ⟨-, herror, hsum, happend⟩ := evaluate_sums_powers
  have hpoint : IsFelt (2 ^ 200 + 3) := by decide
  have hfelts : Felts ([5, 2 ^ 240] ++ [7]) := by decide
  obtain ⟨y, hy, hfelt, hcongr⟩ := hsum _ _ hpoint hfelts
  obtain ⟨hfirst, hlast⟩ := felts_append.1 hfelts
  obtain ⟨u, v, w, hu, hv, hw, hparts⟩ := happend _ _ _ hpoint hfirst hlast
  have hconstant : evaluate [7] (2 ^ 200 + 3) = .ok 7 := by decide
  obtain rfl : 7 = v := Except.ok.inj (hconstant.symm.trans hv)
  refine ⟨⟨hpoint, hfelts, y, hy, hfelt, hcongr.trans ?_⟩, ⟨u, w, hu, hw, hparts⟩,
    (herror [] Felt.prime).2 (.inl (by decide))⟩
  simp [Fin.sum_univ_succ]

end StarkReplay.Polynomial
