import Mathlib.Tactic.Ring
import Mathlib.Data.List.DropRight
import StarkReplay.Felt.Codec
import StarkReplay.Proofs.Felts
import StarkReplay.Proofs.Numerals

/-!
Felts as text. A text is read as the number of the numeral between its blanks, if that is a felt;
the way of long numbers through their bytes changes neither the number nor the bound. The decimal
and the hexadecimal numeral of a felt are read back.
-/
namespace StarkReplay

namespace Text

/-- The second text is the first one without the blanks around it. -/
structure Strips (t s : Text) : Prop where
  around : ∃ before after, t = before ++ (s ++ after) ∧
    (∀ c ∈ before, isBlank c = true) ∧ ∀ c ∈ after, isBlank c = true
  first : ∀ c ∈ s.head?, isBlank c = false
  last : ∀ c ∈ s.getLast?, isBlank c = false

theorem dropWhile_of_head {s : Text} (h : ∀ c ∈ s.head?, isBlank c = false) :
    s.dropWhile isBlank = s := by
  cases s with
  | nil => rfl
  | cons c s => rw [List.dropWhile_cons, h c rfl, if_neg Bool.false_ne_true]

theorem head_dropWhile (t : Text) : ∀ c ∈ (t.dropWhile isBlank).head?, isBlank c = false := by
  intro c hc
  have hstop := List.head?_dropWhile_not isBlank t
  rwa [Option.mem_def.1 hc] at hstop

theorem Strips.eq_strip {t s : Text} (h : Strips t s) : s = t.strip := by
  obtain ⟨⟨before, after, rfl, hbefore, hafter⟩, hfirst, hlast⟩ := h
  have hfront : (before ++ (s ++ after)).dropWhile isBlank = (s ++ after).dropWhile isBlank :=
    List.dropWhile_append_of_pos hbefore
  by_cases hs : s = []
  · subst hs
    have hnone : after.dropWhile isBlank = [] := List.dropWhile_eq_nil_iff.2 hafter
    rw [strip, hfront, List.nil_append, hnone]
    rfl
  · have hhead : (s ++ after).head? = s.head? := by
      rw [List.head?_append, List.head?_eq_some_head hs, Option.some_or]
    have hbody : (s ++ after).dropWhile isBlank = s ++ after :=
      dropWhile_of_head (hhead ▸ hfirst)
    have hback : (s ++ after).reverse.dropWhile isBlank = s.reverse := by
      rw [List.reverse_append, List.dropWhile_append_of_pos]
      · exact dropWhile_of_head (by rwa [List.head?_reverse])
      · exact fun c hc => hafter c (List.mem_reverse.1 hc)
    rw [strip, hfront, hbody, hback, List.reverse_reverse]

theorem strips_strip (t : Text) : Strips t t.strip := by
  have hfront : t.takeWhile isBlank ++ t.dropWhile isBlank = t :=
    List.takeWhile_append_dropWhile
  have hback : t.strip ++ (t.dropWhile isBlank).rtakeWhile isBlank = t.dropWhile isBlank :=
    List.rdropWhile_append_rtakeWhile
  refine ⟨⟨t.takeWhile isBlank, (t.dropWhile isBlank).rtakeWhile isBlank, ?_, ?_, ?_⟩, ?_, ?_⟩
  · rw [hback, hfront]
  · exact fun c hc => List.mem_takeWhile_imp hc
  · exact fun c hc => List.mem_rtakeWhile_imp hc
  · intro c hc
    apply head_dropWhile t
    rw [← hback, List.head?_append, Option.mem_def.1 hc]
    rfl
  · rw [strip, List.getLast?_reverse]
    exact head_dropWhile _

theorem strips_iff {t s : Text} : Strips t s ↔ s = t.strip :=
  ⟨Strips.eq_strip, fun h => h ▸ strips_strip t⟩

theorem strip_eq_self {t : Text} (h : ∀ c ∈ t, isBlank c = false) : t.strip = t := by
  have hstrips : Strips t t :=
    ⟨⟨[], [], (List.append_nil t).symm, nofun, nofun⟩,
      fun c hc => h c (List.mem_of_mem_head? hc), fun c hc => h c (List.mem_of_mem_getLast? hc)⟩
  exact hstrips.eq_strip.symm

end Text

namespace Felt

/-! ## Bytes -/

theorem foldl_bytesOnto (width n m : Nat) (acc : List UInt8) :
    (bytesOnto width n acc).foldl (fun k b => k * 256 + b.toNat) m =
      acc.foldl (fun k b => k * 256 + b.toNat) (m * 256 ^ width + n % 256 ^ width) := by
  induction width generalizing n acc with
  | zero => simp [bytesOnto, Nat.mod_one]
  | succ width ih =>
    have hbyte : (n % 256).toUInt8.toNat = n % 256 := by simp
    have hvalue : (m * 256 ^ width + n / 256 % 256 ^ width) * 256 + n % 256 =
        m * 256 ^ (width + 1) + n % 256 ^ (width + 1) := by
      rw [Nat.pow_succ', Nat.mod_mul]
      ring
    rw [bytesOnto, ih, List.foldl_cons, hbyte, hvalue]

theorem natOfBytes_bytesOnto {width n : Nat} (h : n < 256 ^ width) :
    natOfBytes (bytesOnto width n []) = n := by
  rw [natOfBytes, foldl_bytesOnto, List.foldl_nil, Nat.zero_mul, Nat.zero_add,
    Nat.mod_eq_of_lt h]

theorem natOfBytes_minimalBytes (n : Nat) : natOfBytes (minimalBytes n) = n := by
  refine natOfBytes_bytesOnto ?_
  have hbits : n < 2 ^ Numeral.bitLength n := (Numeral.bitLength_le_iff n _).1 (Nat.le_refl _)
  refine Nat.lt_of_lt_of_le hbits ?_
  rw [show 256 = 2 ^ 8 from rfl, ← Nat.pow_mul]
  exact Nat.pow_le_pow_right (by decide) (by omega)

theorem length_minimalBytes_le_iff (n : Nat) : (minimalBytes n).length ≤ 32 ↔ n < 2 ^ 256 := by
  rw [← Numeral.bitLength_le_iff, minimalBytes, length_bytesOnto, List.length_nil]
  omega

theorem lt_of_isFelt {v : Int} (h : IsFelt v) : v.natAbs < 10 ^ 77 := by
  have hrange := h.2
  have hpos := h.1
  rw [prime] at hrange
  omega

theorem ofBytes_minimalBytes (n : Nat) : ofBytes (minimalBytes n) =
    if n < 2 ^ 256 then check n else .error (.tooManyBytes (minimalBytes n).length) := by
  rw [ofBytes, natOfBytes_minimalBytes]
  have hlength := length_minimalBytes_le_iff n
  by_cases h : n < 2 ^ 256
  · rw [if_pos h, if_neg (Nat.not_lt.2 (hlength.2 h))]
  · rw [if_neg h, if_pos (Nat.not_le.1 (mt hlength.1 h))]

/-- The bytes of a number are refused exactly if the number is no felt. -/
theorem ofBytes_minimalBytes_eq_ok {n : Nat} {v : Int} :
    ofBytes (minimalBytes n) = .ok v ↔ check n = .ok v := by
  rw [ofBytes_minimalBytes]
  split
  · rfl
  · rename_i h
    refine iff_of_false nofun fun hcheck => h ?_
    have hlt := lt_of_isFelt (check_eq_ok.1 hcheck).1
    omega

/-! ## Texts -/

/-- Short numbers might go through their bytes too. -/
theorem ofText_eq (t : Text) :
    ofText t = natOfText t.strip >>= fun n => ofBytes (minimalBytes n) := by
  rw [ofText]
  congr 1
  funext n
  split
  · rfl
  · rename_i h
    have hsmall : n < 2 ^ 256 := Nat.lt_trans (Nat.not_le.1 h) (by decide)
    rw [ofBytes_minimalBytes, if_pos hsmall]

/-- A text is read as the number of its numeral, if that is a felt. -/
theorem ofText_eq_ok {t : Text} {v : Int} :
    ofText t = .ok v ↔ ∃ n : Nat, natOfText t.strip = .ok n ∧ IsFelt n ∧ v = n := by
  simp only [ofText_eq, bind_eq_ok, ofBytes_minimalBytes_eq_ok, check_eq_ok]

theorem hexBody?_eq_some {t ds : Text} (h : hexBody? t = some ds) :
    ∃ x : CodePoint, t = ('0' : CodePoint) :: x :: ds ∧ (x = 'x' ∨ x = 'X') ∧ ds.isEmpty = false ∧
      ds.all Numeral.isHexDigit = true := by
  unfold hexBody? at h
  split at h
  · split at h
    · rename_i hbody
      obtain ⟨rfl, hx, hds, hdigits⟩ := hbody
      cases h
      exact ⟨_, rfl, hx, hds, hdigits⟩
    · cases h
  · cases h

theorem natOfText_of_hex {x : CodePoint} {ds : Text} (hx : x = 'x' ∨ x = 'X') (hne : ds ≠ [])
    (h : ∀ c ∈ ds, Numeral.isHexDigit c = true) :
    natOfText (('0' : CodePoint) :: x :: ds) = .ok (Numeral.ofHex ds) := by
  have hbody : hexBody? (('0' : CodePoint) :: x :: ds) = some ds :=
    if_pos ⟨rfl, hx, by simpa using hne, List.all_eq_true.2 h⟩
  rw [natOfText, hbody]

theorem natOfText_of_decimal {ds : Text} (hne : ds ≠ [])
    (h : ∀ c ∈ ds, Numeral.isDecimalDigit c = true) : natOfText ds =
      if Numeral.maxDigits < ds.length then .error (.tooManyDigits ds.length)
      else .ok (Numeral.ofDecimal ds) := by
  have hbody : hexBody? ds = none := by
    cases hbody : hexBody? ds with
    | none => rfl
    | some body =>
      obtain ⟨x, hx, hmark, -, -⟩ := hexBody?_eq_some hbody
      have hdigit := h x (by simp [hx])
      rcases hmark with rfl | rfl <;> exact absurd hdigit (by decide)
  have hdecimal : isDecimal ds = true := by
    rw [isDecimal, Bool.and_eq_true]
    exact ⟨by simpa using hne, List.all_eq_true.2 h⟩
  rw [natOfText, hbody]
  simp only [hdecimal, if_true]

/-- The code points that can stand in the numeral of a felt. -/
def isNumeralSign (c : CodePoint) : Bool := Numeral.isHexDigit c || c = 'x' || c = 'X'

theorem isNumeralSign_of_natOfText {t : Text} {n : Nat} (h : natOfText t = .ok n) :
    ∀ c ∈ t, isNumeralSign c = true := by
  intro c hc
  unfold natOfText at h
  split at h
  · rename_i ds hds
    obtain ⟨x, rfl, hx, -, hdigits⟩ := hexBody?_eq_some hds
    rcases List.mem_cons.1 hc with rfl | hc
    · decide
    rcases List.mem_cons.1 hc with rfl | hc
    · rcases hx with rfl | rfl <;> decide
    · simp [isNumeralSign, List.all_eq_true.1 hdigits c hc]
  · split at h
    · rename_i hdecimal
      simp only [isDecimal, Bool.and_eq_true, List.all_eq_true] at hdecimal
      simp [isNumeralSign, Numeral.isHexDigit, hdecimal.2 c hc]
    · cases h

theorem ne_nil_of_natOfText {t : Text} {n : Nat} (h : natOfText t = .ok n) : t ≠ [] := by
  rintro rfl
  cases h

theorem isBlank_of_isNumeralSign {c : CodePoint} (h : isNumeralSign c = true) :
    Text.isBlank c = false := by
  simp only [isNumeralSign, Bool.or_eq_true, decide_eq_true_eq] at h
  rcases h with (h | rfl) | rfl
  · simp only [Numeral.isHexDigit, Numeral.isDecimalDigit, Bool.or_eq_true, Bool.and_eq_true,
      decide_eq_true_eq] at h
    simp only [Text.isBlank, Bool.or_eq_false_iff, Bool.and_eq_false_iff, decide_eq_false_iff_not,
      beq_eq_false_iff_ne]
    omega
  · decide
  · decide

/-! ## Numerals of felts -/

theorem length_decimal_le {v : Int} (h : IsFelt v) :
    (Numeral.decimal v.natAbs).length ≤ Numeral.maxDigits := by
  have hdigits := (Numeral.length_digits_le_iff (show 2 ≤ 10 by omega) (show 1 ≤ 77 by omega)).2
    (lt_of_isFelt h)
  rw [Numeral.decimal, List.length_map, Numeral.maxDigits]
  omega

theorem natOfText_decimal {n : Nat} (h : (Numeral.decimal n).length ≤ Numeral.maxDigits) :
    natOfText (Numeral.decimal n) = .ok n := by
  have hne : Numeral.decimal n ≠ [] := by
    obtain ⟨c, cs, hcs, -⟩ := Numeral.decimal_eq_cons n
    simp [hcs]
  rw [natOfText_of_decimal hne fun c hc => Numeral.isDecimalDigit_of_mem_decimal hc,
    if_neg (Nat.not_lt.2 h), Numeral.ofDecimal_decimal]

theorem natOfText_hexNumeral (n : Nat) : natOfText (hexNumeral n) = .ok n := by
  have hpadded : Numeral.hexPadded 0 n = Numeral.hexDigits n := by simp [Numeral.hexPadded]
  have hdigits : ∀ c ∈ Numeral.hexDigits n, Numeral.isHexDigit c = true := by
    rw [← hpadded]
    exact fun c hc => Numeral.isHexDigit_of_mem_hexPadded hc
  have hne : Numeral.hexDigits n ≠ [] := by
    obtain ⟨d, ds, hds, -⟩ := Numeral.digits_eq_cons (show 2 ≤ 16 by omega) n
    simp [Numeral.hexDigits, hds]
  rw [hexNumeral, natOfText_of_hex (.inl rfl) hne hdigits, ← hpadded, Numeral.ofHex_hexPadded]

/-- A numeral has no blanks around it, and the number of a felt is that felt. -/
theorem ofText_of_natOfText {t : Text} {v : Int} (hv : IsFelt v)
    (h : natOfText t = .ok v.toNat) : ofText t = .ok v := by
  have hstrip : t.strip = t :=
    Text.strip_eq_self fun c hc => isBlank_of_isNumeralSign (isNumeralSign_of_natOfText h c hc)
  have hnat : (v.toNat : Int) = v := Int.toNat_of_nonneg hv.nonneg
  refine ofText_eq_ok.2 ⟨v.toNat, by rw [hstrip, h], ?_, hnat.symm⟩
  rw [hnat]
  exact hv

theorem natOfText_integer {v : Int} (h : IsFelt v) :
    natOfText (Numeral.integer v) = .ok v.toNat := by
  have hpos := h.nonneg
  rw [Numeral.integer, if_neg (Int.not_lt.2 hpos), natOfText_decimal (length_decimal_le h)]
  congr 1
  omega

end Felt

end StarkReplay
