import StarkReplay.Felt.ShortString
import StarkReplay.Text.Printable
import StarkReplay.Proofs.FeltCodecs
import StarkReplay.Proofs.Utf8

/-!
Short strings. A printable ASCII text of up to 31 characters is the text of the number that its
bytes make up, so no two of them share a number. Every felt is taken either for the one such text
of its bytes or for its hexadecimal numeral: 32 bytes of printable characters would make up more
than the prime.
-/
namespace StarkReplay

namespace Felt

/-! ## Bytes -/

theorem natOfBytes_eq (bytes : List UInt8) :
    natOfBytes bytes = Nat.ofDigits 256 (bytes.map UInt8.toNat).reverse := by
  rw [← Numeral.ofDigits_eq, Numeral.ofDigits, List.foldl_map]
  rfl

theorem natOfBytes_lt (bytes : List UInt8) : natOfBytes bytes < 256 ^ bytes.length := by
  have h := Nat.ofDigits_lt_base_pow_length (b := 256) (l := (bytes.map UInt8.toNat).reverse)
    (by decide) (by simpa using fun b _ => b.toNat_lt)
  rw [List.length_reverse, List.length_map] at h
  rw [natOfBytes_eq]
  exact h

/-- The first byte stands above all others. -/
theorem natOfBytes_cons (b : UInt8) (bytes : List UInt8) :
    natOfBytes (b :: bytes) = b.toNat * 256 ^ bytes.length + natOfBytes bytes := by
  simp [natOfBytes_eq, Nat.ofDigits_append, Nat.add_comm, Nat.mul_comm]

/-- Bytes that do not begin with a zero are all the bytes of their number. -/
theorem minimalBytes_natOfBytes {bytes : List UInt8} (h : bytes.head? ≠ some 0) :
    minimalBytes (natOfBytes bytes) = bytes := by
  have hwidth : (Numeral.bitLength (natOfBytes bytes) + 7) / 8 = bytes.length := by
    cases bytes with
    | nil => rfl
    | cons b bytes =>
      have hb : b.toNat ≠ 0 := fun hzero => h (congrArg some (UInt8.toNat_inj.1 hzero))
      have hlow : 256 ^ bytes.length ≤ natOfBytes (b :: bytes) := by
        rw [natOfBytes_cons]
        exact Nat.le_add_right_of_le (Nat.le_mul_of_pos_left _ (Nat.pos_of_ne_zero hb))
      have hhigh := natOfBytes_lt (b :: bytes)
      rw [List.length_cons, show 256 = 2 ^ 8 from rfl, ← Nat.pow_mul,
        ← Numeral.bitLength_le_iff] at hhigh
      rw [show 256 = 2 ^ 8 from rfl, ← Nat.pow_mul, ← Nat.not_lt,
        ← Numeral.bitLength_le_iff] at hlow
      rw [List.length_cons]
      omega
  have hbytes := bytesOnto_natOfBytes 0 bytes []
  rw [Nat.zero_add, List.append_nil] at hbytes
  rw [minimalBytes, hwidth, hbytes]
  rfl

end Felt

namespace ShortString

/-- A text that fits into a felt: at most 31 characters, all of them ASCII and printable. -/
structure IsShort (t : Text) : Prop where
  length_le : t.length ≤ 31
  ascii : ∀ c ∈ t, c.isAscii = true
  printable : ∀ c ∈ t, Text.isPrintable c = true

/-- The byte of an ASCII character. -/
def byte (c : CodePoint) : UInt8 := c.val.toUInt8

/-- The character of a byte. -/
def character (b : UInt8) : CodePoint := CodePoint.ofNat b.toNat

/-! ## Characters -/

theorem byte_character (b : UInt8) : byte (character b) = b := by
  have hb := b.toNat_lt
  rw [byte, character, CodePoint.val_ofNat (by omega)]
  exact Utf8.toUInt8_toNat b rfl

theorem toNat_byte {c : CodePoint} (h : c.isAscii = true) : (byte c).toNat = c.val := by
  have hc : c.val < 0x80 := of_decide_eq_true h
  exact Utf8.toNat_toUInt8 (by omega)

theorem character_byte {c : CodePoint} (h : c.isAscii = true) : character (byte c) = c :=
  Utf8.ofNat_eq (toNat_byte h)

/-- Of ASCII the printable characters are one range. -/
theorem isPrintable_iff {c : CodePoint} (h : c.isAscii = true) :
    Text.isPrintable c = true ↔ 0x20 ≤ c.val ∧ c.val ≤ 0x7E := by
  have hranges : ∀ r ∈ Text.printableRanges, r = (0x20, 0x7E) ∨ 0x80 ≤ r.1 := by decide +kernel
  have hc : c.val < 0x80 := of_decide_eq_true h
  constructor
  · intro hprintable
    obtain ⟨r, hr, hin⟩ := List.any_eq_true.1 hprintable
    simp only [Bool.and_eq_true, decide_eq_true_eq] at hin
    rcases hranges r hr with rfl | habove
    · exact hin
    · omega
  · exact Text.isPrintable_of_graphic

theorem isGraphic_iff (b : UInt8) : isGraphic b = true ↔ 0x20 ≤ b.toNat ∧ b.toNat ≤ 0x7E := by
  simp [isGraphic, UInt8.le_iff_toNat_le]

theorem isGraphic_byte {c : CodePoint} (h : c.isAscii = true) :
    isGraphic (byte c) = Text.isPrintable c := by
  rw [Bool.eq_iff_iff, isGraphic_iff, isPrintable_iff h, toNat_byte h]

theorem isAscii_character {b : UInt8} (h : isGraphic b = true) :
    (character b).isAscii = true := by
  have hb := (isGraphic_iff b).1 h
  rw [CodePoint.isAscii, character, CodePoint.val_ofNat (by omega)]
  exact decide_eq_true (by omega)

/-! ## Texts -/

theorem encode_eq_ok {t : Text} {v : Int} : encode t = .ok v ↔
    t.length ≤ 31 ∧ (∀ c ∈ t, c.isAscii = true) ∧ v = Felt.natOfBytes (t.map byte) := by
  unfold encode
  split
  · rename_i hlong
    exact iff_of_false nofun fun h => Nat.not_le.2 hlong h.1
  · rename_i hshort
    rw [and_iff_right (Nat.not_lt.1 hshort)]
    split
    · rename_i hascii
      rw [and_iff_right (List.all_eq_true.1 hascii), Except.ok.injEq, eq_comm]
      rfl
    · rename_i hother
      exact iff_of_false nofun fun h => hother (List.all_eq_true.2 h.1)

/-- Whatever is encoded takes 31 bytes at the most. -/
theorem isFelt_of_encode {t : Text} {v : Int} (h : encode t = .ok v) : IsFelt v := by
  obtain ⟨hlength, -, rfl⟩ := encode_eq_ok.1 h
  have hlt := Felt.natOfBytes_lt (t.map byte)
  rw [List.length_map] at hlt
  have hbound : 256 ^ t.length ≤ 256 ^ 31 := Nat.pow_le_pow_right (by decide) hlength
  apply isFelt_of_lt (Int.natCast_nonneg _)
  have hprime : (256 : Nat) ^ 31 ≤ 2 ^ 251 := by decide
  exact_mod_cast Nat.lt_of_lt_of_le hlt (hbound.trans hprime)

theorem map_character_byte {t : Text} (h : ∀ c ∈ t, c.isAscii = true) :
    (t.map byte).map character = t := by
  have hid : ∀ c ∈ t, (character ∘ byte) c = id c := fun c hc => character_byte (h c hc)
  rw [List.map_map, List.map_congr_left hid, List.map_id]

theorem map_byte_character (bytes : List UInt8) : (bytes.map character).map byte = bytes := by
  have hid : byte ∘ character = id := funext byte_character
  rw [List.map_map, hid, List.map_id]

theorem decodeNat_of_graphic {n : Nat} (h : ∀ b ∈ Felt.minimalBytes n, isGraphic b = true) :
    decodeNat n = (Felt.minimalBytes n).map character :=
  if_pos (List.all_eq_true.2 h)

theorem decode_natCast (n : Nat) : decode n = .ok (decodeNat n) := by
  rw [decode, if_neg (by omega), Int.toNat_natCast]

theorem IsShort.graphic {t : Text} (h : IsShort t) : ∀ b ∈ t.map byte, isGraphic b = true := by
  intro b hb
  obtain ⟨c, hc, rfl⟩ := List.mem_map.1 hb
  rw [isGraphic_byte (h.ascii c hc)]
  exact h.printable c hc

/-- No first byte of a printable text is a zero that could get lost. -/
theorem IsShort.minimalBytes {t : Text} (h : IsShort t) :
    Felt.minimalBytes (Felt.natOfBytes (t.map byte)) = t.map byte := by
  apply Felt.minimalBytes_natOfBytes
  intro hzero
  exact absurd (h.graphic 0 (List.mem_of_mem_head? hzero)) (by decide)

theorem IsShort.encode {t : Text} (h : IsShort t) :
    encode t = .ok (Felt.natOfBytes (t.map byte)) :=
  encode_eq_ok.2 ⟨h.length_le, h.ascii, rfl⟩

theorem IsShort.decode {t : Text} (h : IsShort t) :
    decode (Felt.natOfBytes (t.map byte)) = .ok t := by
  have hgraphic := h.graphic
  rw [← h.minimalBytes] at hgraphic
  rw [decode_natCast, decodeNat_of_graphic hgraphic, h.minimalBytes, map_character_byte h.ascii]

/-! ## Felts -/

/-- The prime has 32 bytes, and the first of them is below every printable character. -/
theorem length_le_of_graphic {n : Nat} (hn : IsFelt n)
    (h : ∀ b ∈ Felt.minimalBytes n, isGraphic b = true) : (Felt.minimalBytes n).length ≤ 31 := by
  have hvalue := Felt.natOfBytes_minimalBytes n
  have hprime : n < 0x20 * 256 ^ 31 := by
    have hlt := hn.2
    rw [Felt.prime] at hlt
    omega
  have hlength : (Felt.minimalBytes n).length ≤ 32 :=
    (Felt.length_minimalBytes_le_iff n).2 (by omega)
  by_contra hlong
  obtain ⟨b, bytes, hcons⟩ := List.exists_cons_of_length_pos
    (show 0 < (Felt.minimalBytes n).length by omega)
  rw [hcons] at hvalue hlength hlong h
  rw [List.length_cons] at hlength hlong
  have hb := ((isGraphic_iff b).1 (h b List.mem_cons_self)).1
  have hrest : bytes.length = 31 := by omega
  rw [Felt.natOfBytes_cons, hrest] at hvalue
  have := Nat.mul_le_mul_right (256 ^ 31) hb
  omega

theorem isShort_map_character {bytes : List UInt8} (hlength : bytes.length ≤ 31)
    (h : ∀ b ∈ bytes, isGraphic b = true) : IsShort (bytes.map character) := by
  refine ⟨by rwa [List.length_map], ?_, ?_⟩
  · intro c hc
    obtain ⟨b, hb, rfl⟩ := List.mem_map.1 hc
    exact isAscii_character (h b hb)
  · intro c hc
    obtain ⟨b, hb, rfl⟩ := List.mem_map.1 hc
    rw [← isGraphic_byte (isAscii_character (h b hb)), byte_character]
    exact h b hb

/-- The text of a number all of whose bytes are printable is encoded as that number. -/
theorem encode_of_graphic {n : Nat} (hn : IsFelt n)
    (h : ∀ b ∈ Felt.minimalBytes n, isGraphic b = true) :
    IsShort (decodeNat n) ∧ encode (decodeNat n) = .ok n := by
  have hshort := isShort_map_character (length_le_of_graphic hn h) h
  rw [decodeNat_of_graphic h]
  refine ⟨hshort, encode_eq_ok.2 ⟨hshort.length_le, hshort.ascii, ?_⟩⟩
  rw [map_byte_character, Felt.natOfBytes_minimalBytes]

/-- A number with another byte is that of no printable text, and its hexadecimal numeral is read
back. -/
theorem decode_of_not_graphic {n : Nat} (hn : IsFelt n)
    (h : ¬∀ b ∈ Felt.minimalBytes n, isGraphic b = true) :
    Felt.toHex n = .ok (decodeNat n) ∧ Felt.ofText (decodeNat n) = .ok n ∧
      ∀ t, IsShort t → encode t ≠ .ok n := by
  have hhex : decodeNat n = Felt.hexNumeral n := if_neg (mt List.all_eq_true.1 h)
  have hread : Felt.ofText (Felt.hexNumeral n) = .ok n :=
    Felt.ofText_of_natOfText hn (Felt.natOfText_hexNumeral n)
  rw [hhex, Felt.toHex, Felt.check_of_isFelt hn]
  refine ⟨rfl, hread, fun t ht hencode => h ?_⟩
  rw [ht.encode] at hencode
  obtain rfl : Felt.natOfBytes (t.map byte) = n := by exact_mod_cast Except.ok.inj hencode
  rw [ht.minimalBytes]
  exact ht.graphic

/-- Printable texts of up to 31 ASCII characters come back from their numbers, and each felt comes
back from the one such text that it stands for or, if it stands for none, from its hexadecimal
numeral. -/
theorem decode_inverts_encode :
    (∀ t, IsShort t → ∃ v, encode t = .ok v ∧ decode v = .ok t) ∧
      (∀ t t', IsShort t → IsShort t' → encode t = encode t' → t = t') ∧
        (∀ t v, encode t = .ok v → IsFelt v) ∧
          ∀ v, IsFelt v → ∃ s, decode v = .ok s ∧
            (IsShort s ∧ encode s = .ok v ∨
              Felt.toHex v = .ok s ∧ Felt.ofText s = .ok v ∧
                ∀ t, IsShort t → encode t ≠ .ok v) := by
  refine ⟨fun t ht => ⟨_, ht.encode, ht.decode⟩, fun t t' ht ht' h => ?_,
    fun t v h => isFelt_of_encode h, fun v hv => ?_⟩
  · rw [ht.encode, ht'.encode] at h
    have hdecode := ht.decode
    rw [Except.ok.inj h, ht'.decode] at hdecode
    exact (Except.ok.inj hdecode).symm
  · obtain ⟨n, rfl⟩ := Int.eq_ofNat_of_zero_le hv.nonneg
    refine ⟨decodeNat n, decode_natCast n, ?_⟩
    by_cases hgraphic : ∀ b ∈ Felt.minimalBytes n, isGraphic b = true
    · exact .inl (encode_of_graphic hv hgraphic)
    · exact .inr (decode_of_not_graphic hv hgraphic)

/-- A text with and without a space in front of it, and the greatest felt, which is no text. -/
theorem decode_inverts_encode_small :
    (IsShort " ~recursive" ∧ IsShort "~recursive" ∧
      (∃ v, encode " ~recursive" = .ok v ∧ decode v = .ok " ~recursive" ∧ IsFelt v) ∧
        encode " ~recursive" ≠ encode "~recursive") ∧
      IsFelt (Felt.prime - 1) ∧ ∃ s, decode (Felt.prime - 1) = .ok s ∧
        Felt.toHex (Felt.prime - 1) = .ok s ∧ Felt.ofText s = .ok (Felt.prime - 1) := by
  obtain ⟨hback, hinjective, hfelt, hall⟩ := decode_inverts_encode
  have hspace : IsShort " ~recursive" := ⟨by decide, by decide, by decide⟩
  have hnone : IsShort "~recursive" := ⟨by decide, by decide, by decide⟩
  have hgreatest : IsFelt (Felt.prime - 1) := by decide
  obtain ⟨v, hencode, hdecode⟩ := hback _ hspace
  refine ⟨⟨hspace, hnone, ⟨v, hencode, hdecode, hfelt _ _ hencode⟩, fun h => ?_⟩, hgreatest, ?_⟩
  · exact absurd (hinjective _ _ hspace hnone h) (by decide)
  · obtain ⟨s, hs, ⟨hshort, -⟩ | ⟨hhex, hread, -⟩⟩ := hall _ hgreatest
    · have hlong : decode (Felt.prime - 1) = .ok (Felt.hexNumeral (Felt.prime - 1).toNat) := by
        decide +kernel
      rw [hs] at hlong
      rw [Except.ok.inj hlong] at hshort
      exact absurd hshort.length_le (by decide +kernel)
    · exact ⟨s, hs, hhex, hread⟩

end ShortString

end StarkReplay
