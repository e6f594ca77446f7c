import StarkReplay.Proofs.FeltText

/-!
The codecs of felts. A text is read if and only if the numeral of a felt stands between its blanks,
and is refused otherwise for what is wrong with it. Felts come back from their numerals and from
their bytes; bytes come back with zeros in front.
-/
namespace StarkReplay.Felt

open Text (Strips)

/-! ## Numerals -/

/-- The numerals that can be read and their numbers: hexadecimal ones of any length, decimal ones
of at most so many digits, zeros in front included. -/
inductive Spells : Text → Nat → Prop
  | hexadecimal {x : CodePoint} {ds : Text} : x = 'x' ∨ x = 'X' → ds ≠ [] →
      (∀ c ∈ ds, Numeral.isHexDigit c = true) →
        Spells (('0' : CodePoint) :: x :: ds) (Nat.ofDigits 16 (ds.map Numeral.digitValue).reverse)
  | decimal {ds : Text} : ds ≠ [] → ds.length ≤ Numeral.maxDigits →
      (∀ c ∈ ds, Numeral.isDecimalDigit c = true) →
        Spells ds (Nat.ofDigits 10 (ds.map Numeral.digitValue).reverse)

/-- A decimal numeral with more digits than are read. -/
def TooLong (t : Text) : Prop :=
  (∀ c ∈ t, Numeral.isDecimalDigit c = true) ∧ Numeral.maxDigits < t.length

theorem natOfText_of_spells {t : Text} {n : Nat} (h : Spells t n) : natOfText t = .ok n := by
  cases h with
  | hexadecimal hx hne hdigits =>
    rw [natOfText_of_hex hx hne hdigits, Numeral.ofHex, Numeral.ofDigits_eq]
  | decimal hne hlength hdigits =>
    rw [natOfText_of_decimal hne hdigits, if_neg (Nat.not_lt.2 hlength), Numeral.ofDecimal,
      Numeral.ofDigits_eq]

theorem natOfText_of_tooLong {t : Text} (h : TooLong t) :
    natOfText t = .error (.tooManyDigits t.length) := by
  have hne : t ≠ [] := List.ne_nil_of_length_pos (Nat.zero_lt_of_lt h.2)
  rw [natOfText_of_decimal hne h.1, if_pos h.2]

/-- What the reader makes of a numeral, of too long a one, and of any other text. -/
theorem natOfText_cases (t : Text) :
    (∃ n, Spells t n ∧ natOfText t = .ok n) ∨
      TooLong t ∨ ¬TooLong t ∧ natOfText t = .error (.notNumeral t) := by
  by_cases hlong : TooLong t
  · exact .inr (.inl hlong)
  cases hbody : hexBody? t with
  | some ds =>
    obtain ⟨x, rfl, hx, hne, hdigits⟩ := hexBody?_eq_some hbody
    have hspells := Spells.hexadecimal hx (by simpa using hne) (List.all_eq_true.1 hdigits)
    exact .inl ⟨_, hspells, natOfText_of_spells hspells⟩
  | none =>
    by_cases hdecimal : isDecimal t = true
    · obtain ⟨hne, hdigits⟩ := Bool.and_eq_true_iff.1 hdecimal
      rw [List.all_eq_true] at hdigits
      have hshort : t.length ≤ Numeral.maxDigits := Nat.not_lt.1 fun h => hlong ⟨hdigits, h⟩
      have hspells := Spells.decimal (by simpa using hne) hshort hdigits
      exact .inl ⟨_, hspells, natOfText_of_spells hspells⟩
    · refine .inr (.inr ⟨hlong, ?_⟩)
      rw [natOfText, hbody]
      simp only [hdecimal, Bool.false_eq_true, if_false]

theorem natOfText_eq_ok {t : Text} {n : Nat} : natOfText t = .ok n ↔ Spells t n := by
  refine ⟨fun h => ?_, natOfText_of_spells⟩
  rcases natOfText_cases t with ⟨m, hspells, hm⟩ | hlong | ⟨-, hnone⟩
  · rw [hm] at h
    cases h
    exact hspells
  · rw [natOfText_of_tooLong hlong] at h
    cases h
  · rw [hnone] at h
    cases h

theorem natOfText_eq_error {t : Text} {e : FeltError} : natOfText t = .error e ↔
    TooLong t ∧ e = .tooManyDigits t.length ∨
      (∀ n, ¬Spells t n) ∧ ¬TooLong t ∧ e = .notNumeral t := by
  rcases natOfText_cases t with ⟨n, hspells, hn⟩ | hlong | ⟨hshort, hnone⟩
  · have hshort : ¬TooLong t := fun hlong => by
      rw [natOfText_of_tooLong hlong] at hn
      cases hn
    rw [hn]
    exact iff_of_false nofun fun h => h.elim (hshort ·.1) (·.1 n hspells)
  · rw [natOfText_of_tooLong hlong]
    simp [hlong, eq_comm]
  · have hspells : ∀ n, ¬Spells t n := fun n h => by
      rw [natOfText_of_spells h] at hnone
      cases hnone
    rw [hnone]
    simp [hshort, hspells, eq_comm]

/-! ## Refusals -/

/-- What is wrong with a text that is not read. -/
inductive Refused (t : Text) : FeltError → Prop
  | notNumeral {s : Text} : Strips t s → (∀ n, ¬Spells s n) → ¬TooLong s →
      Refused t (.notNumeral s)
  | tooManyDigits {s : Text} : Strips t s → TooLong s → Refused t (.tooManyDigits s.length)
  | tooManyBytes {s : Text} {n : Nat} : Strips t s → Spells s n → 2 ^ 256 ≤ n →
      Refused t (.tooManyBytes (minimalBytes n).length)
  | outOfRange {s : Text} {n : Nat} : Strips t s → Spells s n → ¬IsFelt n → n < 2 ^ 256 →
      Refused t (.outOfRange n)

theorem check_eq_error {v : Int} {e : FeltError} :
    check v = .error e ↔ ¬IsFelt v ∧ e = .outOfRange v := by
  unfold check
  split
  · rename_i h
    simp [h]
  · rename_i h
    simp [h, eq_comm]

theorem ofText_eq_error {t : Text} {e : FeltError} : ofText t = .error e ↔ Refused t e := by
  have hstrips := Text.strips_strip t
  rw [ofText_eq, bind_eq_error]
  constructor
  · rintro (h | ⟨n, hn, h⟩)
    · rcases natOfText_eq_error.1 h with ⟨hlong, rfl⟩ | ⟨hspells, hshort, rfl⟩
      · exact .tooManyDigits hstrips hlong
      · exact .notNumeral hstrips hspells hshort
    · have hspells := natOfText_eq_ok.1 hn
      rw [ofBytes_minimalBytes] at h
      split at h
      · rename_i hsmall
        obtain ⟨hfelt, rfl⟩ := check_eq_error.1 h
        exact .outOfRange hstrips hspells hfelt hsmall
      · rename_i hlarge
        cases h
        exact .tooManyBytes hstrips hspells (Nat.not_lt.1 hlarge)
  · intro h
    cases h with
    | notNumeral hs hspells hshort =>
      cases hs.eq_strip
      exact .inl (natOfText_eq_error.2 (.inr ⟨hspells, hshort, rfl⟩))
    | tooManyDigits hs hlong =>
      cases hs.eq_strip
      exact .inl (natOfText_of_tooLong hlong)
    | tooManyBytes hs hspells hlarge =>
      cases hs.eq_strip
      refine .inr ⟨_, natOfText_of_spells hspells, ?_⟩
      rw [ofBytes_minimalBytes, if_neg (Nat.not_lt.2 hlarge)]
    | outOfRange hs hspells hfelt hsmall =>
      cases hs.eq_strip
      refine .inr ⟨_, natOfText_of_spells hspells, ?_⟩
      rw [ofBytes_minimalBytes, if_pos hsmall, check_eq_error]
      exact ⟨hfelt, rfl⟩

theorem ofText_eq_ok_iff_spells {t : Text} {v : Int} : ofText t = .ok v ↔
    ∃ s n, Strips t s ∧ Spells s n ∧ IsFelt n ∧ v = n := by
  simp only [ofText_eq_ok, natOfText_eq_ok, Text.strips_iff, exists_and_left, exists_eq_left]

/-! ## Bytes -/

theorem bytesOnto_zero (width : Nat) (acc : List UInt8) :
    bytesOnto width 0 acc = List.replicate width 0 ++ acc := by
  induction width generalizing acc with
  | zero => rfl
  | succ width ih =>
    rw [bytesOnto, ih, List.replicate_succ', List.append_assoc]
    rfl

/-- The lowest bytes of the number of some bytes are these bytes, the last one first. -/
theorem bytesOnto_natOfBytes (width : Nat) (bytes acc : List UInt8) :
    bytesOnto (width + bytes.length) (natOfBytes bytes) acc =
      bytesOnto width 0 (bytes ++ acc) := by
  induction bytes using List.reverseRecOn generalizing acc with
  | nil => rfl
  | append_singleton bytes b ih =>
    have hb := b.toNat_lt
    have hvalue : natOfBytes (bytes ++ [b]) = natOfBytes bytes * 256 + b.toNat := by
      simp [natOfBytes]
    have hrest : (natOfBytes bytes * 256 + b.toNat) / 256 = natOfBytes bytes := by omega
    have hlast : ((natOfBytes bytes * 256 + b.toNat) % 256).toUInt8 = b := by
      rw [Nat.mul_add_mod_self_right, Nat.mod_eq_of_lt hb]
      exact UInt8.ofNat_toNat
    rw [List.length_append, List.length_singleton, ← Nat.add_assoc, bytesOnto, hvalue, hrest, hlast,
      ih, List.append_assoc]
    rfl

theorem ofBytes_eq_ok {bytes : List UInt8} {v : Int} :
    ofBytes bytes = .ok v ↔
      bytes.length ≤ 32 ∧ IsFelt (natOfBytes bytes) ∧ v = natOfBytes bytes := by
  rw [ofBytes]
  split
  · rename_i hlong
    constructor
    · intro h
      cases h
    · intro h
      exact absurd h.1 (Nat.not_le.2 hlong)
  · rename_i h
    rw [check_eq_ok, and_iff_right (Nat.not_lt.1 h)]

theorem toBytes_of_ofBytes {bytes : List UInt8} {v : Int} (h : ofBytes bytes = .ok v) :
    bytes.length ≤ 32 ∧ toBytes v = .ok (List.replicate (32 - bytes.length) 0 ++ bytes) := by
  obtain ⟨hlength, hfelt, rfl⟩ := ofBytes_eq_ok.1 h
  refine ⟨hlength, toBytes_eq_ok.2 ⟨hfelt, ?_⟩⟩
  have hwidth : 32 = 32 - bytes.length + bytes.length := by omega
  rw [Int.toNat_natCast, word, hwidth, bytesOnto_natOfBytes, bytesOnto_zero, List.append_nil,
    ← hwidth]

theorem ofBytes_of_toBytes {v : Int} (h : IsFelt v) : (toBytes v >>= ofBytes) = .ok v := by
  have hnat : (v.toNat : Int) = v := Int.toNat_of_nonneg h.nonneg
  have hsmall := lt_of_isFelt h
  have hvalue : natOfBytes (word v.toNat) = v.toNat := natOfBytes_bytesOnto (by omega)
  rw [toBytes_eq_ok.2 ⟨h, rfl⟩, ok_bind, ofBytes_eq_ok, length_word, hvalue, hnat]
  exact ⟨Nat.le_refl _, h, rfl⟩

/-! ## All codecs -/

/-- Texts are read as the grammar of numerals says and refused otherwise, whether a number goes
through its bytes or not; felts come back from texts and bytes, and bytes from felts. -/
theorem codecs_agree :
    (∀ t v, ofText t = .ok v ↔ ∃ s n, Strips t s ∧ Spells s n ∧ IsFelt n ∧ v = n) ∧
      (∀ t e, ofText t = .error e ↔ Refused t e) ∧
        (∀ (n : Nat) v, ofBytes (minimalBytes n) = .ok v ↔ check n = .ok v) ∧
          (∀ v, IsFelt v → (toHex v >>= ofText) = .ok v ∧ (toDecimal v >>= ofText) = .ok v ∧
            (toBytes v >>= ofBytes) = .ok v) ∧
          ∀ bytes v, ofBytes bytes = .ok v → bytes.length ≤ 32 ∧
            toBytes v = .ok (List.replicate (32 - bytes.length) 0 ++ bytes) := by
  refine ⟨fun t v => ofText_eq_ok_iff_spells, fun t e => ofText_eq_error,
    fun n v => ofBytes_minimalBytes_eq_ok, fun v hv => ⟨?_, ?_, ofBytes_of_toBytes hv⟩,
    fun bytes v h => toBytes_of_ofBytes h⟩
  · rw [toHex, check_of_isFelt hv]
    exact ofText_of_natOfText hv (natOfText_hexNumeral v.toNat)
  · rw [toDecimal, check_of_isFelt hv]
    exact ofText_of_natOfText hv (natOfText_integer hv)

/-- A numeral between blanks, a mark without digits, the greatest felt, and bytes that begin with a
zero. -/
theorem codecs_agree_small :
    (∃ s n, Strips "\t0X0aF\n " s ∧ Spells s n ∧ IsFelt n ∧ (175 : Int) = n) ∧
      Refused " 0x " (.notNumeral "0x") ∧
        (IsFelt (prime - 1) ∧ (toHex (prime - 1) >>= ofText) = .ok (prime - 1)) ∧
          ofBytes [0, 1, 2] = .ok 258 ∧
            toBytes 258 = .ok (List.replicate (32 - 3) 0 ++ [0, 1, 2]) := by
  obtain ⟨hread, hrefused, -, hfelt, hbytes⟩ := codecs_agree
  have hgreatest : IsFelt (prime - 1) := by decide
  have hnumeral : ofText "\t0X0aF\n " = .ok 175 := by decide
  have hmark : ofText " 0x " = .error (.notNumeral "0x") := by decide
  have hthree : ofBytes [0, 1, 2] = .ok 258 := by decide
  exact ⟨(hread _ _).1 hnumeral, (hrefused _ _).1 hmark, ⟨hgreatest, (hfelt _ hgreatest).1⟩,
    hthree, (hbytes _ _ hthree).2⟩

end StarkReplay.Felt
