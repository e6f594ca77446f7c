import Mathlib.Data.Nat.Digits.Lemmas
import StarkReplay.Text.Numeral

/-!
Numerals. The digits of a number are those of the library with the most significant one in front,
and zero has one. A number is given back by its decimal numeral, which consists of decimal digits
and begins with a zero only if it is a single one, and by its hexadecimal numeral, however it is
padded.
-/
namespace StarkReplay.Numeral

variable {base : Nat}

theorem digitsOnto_eq (hbase : 2 ≤ base) {fuel n : Nat} (h : n < base ^ (fuel + 1))
    (acc : List Nat) :
    digitsOnto base fuel n acc = (if n = 0 then [0] else (Nat.digits base n).reverse) ++ acc := by
  have hsmall : ∀ {m : Nat}, m < base → ∀ rest : List Nat,
      m :: rest = (if m = 0 then [0] else (Nat.digits base m).reverse) ++ rest := by
    intro m hm rest
    split
    · rename_i hzero
      rw [hzero]
      rfl
    · rename_i hzero
      rw [Nat.digits_of_lt base m hzero hm]
      rfl
  induction fuel generalizing n acc with
  | zero => exact hsmall (by simpa using h) acc
  | succ fuel ih =>
    rw [digitsOnto]
    split
    · rename_i hn
      exact hsmall hn acc
    · rename_i hn
      have hdiv : n / base < base ^ (fuel + 1) := by
        apply Nat.div_lt_of_lt_mul
        rwa [Nat.mul_comm, ← Nat.pow_succ]
      have hpos : n / base ≠ 0 := by
        apply Nat.ne_of_gt
        exact Nat.div_pos (Nat.not_lt.1 hn) (by omega)
      have hzero : n ≠ 0 := by omega
      rw [ih hdiv, if_neg hpos, if_neg hzero, Nat.digits_def' hbase (Nat.pos_of_ne_zero hzero),
        List.reverse_cons, List.append_assoc]
      rfl

theorem digits_eq (hbase : 2 ≤ base) (n : Nat) :
    digits base n = if n = 0 then [0] else (Nat.digits base n).reverse := by
  have h : n < base ^ (n.log2 + 1) :=
    Nat.lt_of_lt_of_le Nat.lt_log2_self (Nat.pow_le_pow_left hbase _)
  rw [digits, digitsOnto_eq hbase h, List.append_nil]

theorem ofDigits_reverse (ds : List Nat) : ofDigits base ds.reverse = Nat.ofDigits base ds := by
  rw [ofDigits, List.foldl_reverse, Nat.ofDigits_eq_foldr]
  congr
  funext d n
  simp [Nat.mul_comm, Nat.add_comm]

theorem ofDigits_eq (ds : List Nat) : ofDigits base ds = Nat.ofDigits base ds.reverse := by
  rw [← ofDigits_reverse, List.reverse_reverse]

theorem ofDigits_digits (hbase : 2 ≤ base) (n : Nat) : ofDigits base (digits base n) = n := by
  rw [digits_eq hbase]
  split
  · rename_i h
    simp [ofDigits, h]
  · rw [ofDigits_reverse, Nat.ofDigits_digits]

theorem lt_of_mem_digits (hbase : 2 ≤ base) {n d : Nat} (h : d ∈ digits base n) : d < base := by
  rw [digits_eq hbase] at h
  split at h
  · rw [List.mem_singleton.1 h]
    omega
  · exact Nat.digits_lt_base hbase (List.mem_reverse.1 h)

/-- A leading zero stands alone. -/
theorem digits_eq_cons (hbase : 2 ≤ base) (n : Nat) :
    ∃ d ds, digits base n = d :: ds ∧ (d = 0 → ds = []) := by
  rw [digits_eq hbase]
  split
  · exact ⟨0, [], rfl, fun _ => rfl⟩
  · rename_i h
    have hne : Nat.digits base n ≠ [] := Nat.digits_ne_nil_iff_ne_zero.2 h
    have hlast := Nat.getLast_digit_ne_zero base h
    rw [← List.dropLast_concat_getLast hne, List.reverse_concat]
    exact ⟨_, _, rfl, fun hzero => absurd hzero hlast⟩

theorem length_digits_le_iff (hbase : 2 ≤ base) {k n : Nat} (hk : 1 ≤ k) :
    (digits base n).length ≤ k ↔ n < base ^ k := by
  rw [digits_eq hbase]
  split
  · rename_i h
    have hpos : 0 < base ^ k := Nat.pow_pos (by omega)
    simp [h, hk, hpos]
  · rw [List.length_reverse, Nat.digits_length_le_iff hbase]

/-- How many bits a number takes tells the powers of two above it. -/
theorem bitLength_le_iff (n k : Nat) : bitLength n ≤ k ↔ n < 2 ^ k := by
  unfold bitLength
  split
  · rename_i h
    rw [h]
    exact iff_of_true (Nat.zero_le k) (Nat.two_pow_pos k)
  · rename_i h
    rw [← Nat.log2_lt h]
    rfl

/-! ## Signs -/

theorem val_digit {d : Nat} (h : d < 16) :
    (digit d).val = if d < 10 then 0x30 + d else 0x57 + d := by
  unfold digit
  rw [CodePoint.val_ofNat]
  split <;> omega

theorem isDecimalDigit_digit {d : Nat} (h : d < 10) : isDecimalDigit (digit d) = true := by
  unfold isDecimalDigit
  rw [val_digit (by omega), if_pos h]
  simp
  omega

theorem isHexDigit_digit {d : Nat} (h : d < 16) : isHexDigit (digit d) = true := by
  unfold isHexDigit isDecimalDigit
  rw [val_digit h]
  split <;> simp <;> omega

theorem map_digitValue_digit {ds : List Nat} (h : ∀ d ∈ ds, d < 16) :
    (ds.map digit).map digitValue = ds := by
  have hid : ∀ d ∈ ds, (digitValue ∘ digit) d = id d := fun d hd => digitValue_digit (h d hd)
  rw [List.map_map, List.map_congr_left hid, List.map_id]

/-! ## Decimal numerals -/

theorem ofDecimal_decimal (n : Nat) : ofDecimal (decimal n) = n := by
  rw [ofDecimal, decimal, map_digitValue_digit, ofDigits_digits (by omega)]
  intro d hd
  exact Nat.lt_trans (lt_of_mem_digits (by omega) hd) (by omega)

theorem isDecimalDigit_of_mem_decimal {n : Nat} {c : CodePoint} (h : c ∈ decimal n) :
    isDecimalDigit c = true := by
  obtain ⟨d, hd, rfl⟩ := List.mem_map.1 h
  exact isDecimalDigit_digit (lt_of_mem_digits (by omega) hd)

theorem decimal_eq_cons (n : Nat) : ∃ c cs, decimal n = c :: cs ∧ (c = '0' → cs = []) := by
  obtain ⟨d, ds, hds, hzero⟩ := digits_eq_cons (show 2 ≤ 10 by omega) n
  refine ⟨digit d, ds.map digit, by rw [decimal, hds, List.map_cons], fun hd => ?_⟩
  have hlt : d < 10 := lt_of_mem_digits (by omega) (hds ▸ List.mem_cons_self)
  have hval := val_digit (d := d) (by omega)
  rw [if_pos hlt, hd] at hval
  have hd : d = 0 := Nat.add_left_cancel hval.symm
  rw [hzero hd, List.map_nil]

/-! ## Hexadecimal numerals -/

/-- A numeral begins with a digit. -/
theorem head?_decimal_append (n : Nat) (rest : Text) {c : CodePoint}
    (hc : isDecimalDigit c = false) : (decimal n ++ rest).head? ≠ some c := by
  obtain ⟨d, ds, hds, -⟩ := decimal_eq_cons n
  have hd := isDecimalDigit_of_mem_decimal (hds ▸ List.mem_cons_self : d ∈ decimal n)
  rw [hds, List.cons_append, List.head?_cons]
  intro heq
  rw [Option.some.inj heq, hc] at hd
  cases hd

theorem isHexDigit_of_mem_hexPadded {width n : Nat} {c : CodePoint} (h : c ∈ hexPadded width n) :
    isHexDigit c = true := by
  rcases List.mem_append.1 h with h | h
  · rw [List.eq_of_mem_replicate h]
    decide
  · obtain ⟨d, hd, rfl⟩ := List.mem_map.1 h
    exact isHexDigit_digit (lt_of_mem_digits (by omega) hd)

theorem ofHex_hexPadded (width n : Nat) : ofHex (hexPadded width n) = n := by
  have hzeros : ∀ k, ofDigits 16 (List.replicate k 0) = 0 := by
    intro k
    induction k with
    | zero => rfl
    | succ k ih => exact ih
  have hdigits : (hexDigits n).map digitValue = digits 16 n :=
    map_digitValue_digit fun d hd => lt_of_mem_digits (by omega) hd
  rw [ofHex, hexPadded, List.map_append, List.map_replicate, hdigits, ofDigits_append]
  change (digits 16 n).foldl _ (ofDigits 16 (List.replicate _ 0)) = n
  rw [hzeros]
  exact ofDigits_digits (by omega) n

theorem le_length_hexPadded (width n : Nat) : width ≤ (hexPadded width n).length := by
  rw [hexPadded, List.length_append, List.length_replicate]
  omega

theorem length_hexPadded_le {width k n : Nat} (hwidth : width ≤ k) (hk : 1 ≤ k) (h : n < 16 ^ k) :
    (hexPadded width n).length ≤ k := by
  have hle := (length_digits_le_iff (show 2 ≤ 16 by omega) hk).2 h
  rw [hexPadded, List.length_append, List.length_replicate, hexDigits, List.length_map]
  omega

theorem length_hexPadded {width n : Nat} (hwidth : 1 ≤ width) (h : n < 16 ^ width) :
    (hexPadded width n).length = width :=
  Nat.le_antisymm (length_hexPadded_le (Nat.le_refl width) hwidth h) (le_length_hexPadded width n)

end StarkReplay.Numeral
