import StarkReplay.FileTree.Name
import StarkReplay.Proofs.Utf8

/-!
Names as they are stored. Storing a name keeps its bytes, and all that decides where a path leads
is told from the bytes of its names; so a name may be replaced by the stored one.
-/
namespace StarkReplay.FileName

open Utf8 (encodeOne decodeOne? replaceWithin decodeReplacing)

theorem isMark_iff {c : CodePoint} : isMark c = true ↔ 0xDC80 ≤ c.val ∧ c.val ≤ 0xDCFF := by
  simp [isMark]

theorem isMark_eq_false {c : CodePoint} (h : c.isSurrogate = false) : isMark c = false := by
  have hrange := Utf8.isSurrogate_eq_false.1 h
  rw [Bool.eq_false_iff, Ne, isMark_iff]
  omega

theorem bytesOf_eq_encodeOne {c : CodePoint} (h : c.isSurrogate = false) :
    bytesOf c = encodeOne c := by
  simp [bytesOf, isMark_eq_false h]

/-- A byte that begins no code point is not ASCII, and so it has a mark. -/
theorem le_of_decodeOne?_eq_none {b : UInt8} {r : List UInt8} (h : decodeOne? (b :: r) = none) :
    0x80 ≤ b.toNat := by
  unfold decodeOne? at h
  simp only [UInt8.lt_iff_toNat_lt, UInt8.reduceToNat] at h
  split at h
  · cases h
  · omega

theorem val_mark (b : UInt8) : (mark b).val = 0xDC00 + b.toNat := by
  have hb := b.toNat_lt
  exact CodePoint.val_ofNat (by omega)

theorem isMark_mark {b : UInt8} (h : 0x80 ≤ b.toNat) : isMark (mark b) = true := by
  have hb := b.toNat_lt
  rw [isMark_iff, val_mark]
  omega

theorem bytesOf_mark {b : UInt8} (h : 0x80 ≤ b.toNat) : bytesOf (mark b) = [b] := by
  rw [bytesOf, if_pos (isMark_mark h), val_mark, Utf8.toUInt8_toNat b (by omega)]

theorem length_rest_lt {bytes rest : List UInt8} {c : CodePoint}
    (h : decodeOne? bytes = some (c, rest)) : rest.length < bytes.length := by
  have hpos := Utf8.length_encodeOne_pos c
  rw [(Utf8.decodeOne?_sound h).1, List.length_append]
  omega

/-- The marks stand for the bytes that they replace. -/
theorem replaceWithin_mark {fuel : Nat} {bs : List UInt8} (h : bs.length ≤ fuel) :
    bytes (replaceWithin (fun b => [mark b]) fuel bs) = bs ∧
      isEncodable (replaceWithin (fun b => [mark b]) fuel bs) = true := by
  induction fuel generalizing bs with
  | zero =>
    rw [List.eq_nil_of_length_eq_zero (Nat.le_zero.1 h)]
    exact ⟨rfl, rfl⟩
  | succ fuel ih =>
    cases bs with
    | nil => exact ⟨rfl, rfl⟩
    | cons b r =>
      rw [replaceWithin]
      split
      · rename_i c rest hone
        have hlength := length_rest_lt hone
        obtain ⟨hbytes, hscalar⟩ := Utf8.decodeOne?_sound hone
        obtain ⟨ihbytes, ihencodable⟩ := ih (show rest.length ≤ fuel by omega)
        constructor
        · rw [bytes, List.flatMap_cons, bytesOf_eq_encodeOne hscalar, hbytes]
          exact congrArg _ ihbytes
        · rw [isEncodable, List.all_cons, hscalar]
          exact ihencodable
      · rename_i hnone
        have hb := le_of_decodeOne?_eq_none hnone
        obtain ⟨ihbytes, ihencodable⟩ := ih (Nat.le_of_succ_le_succ h)
        constructor
        · rw [List.singleton_append, bytes, List.flatMap_cons, bytesOf_mark hb]
          exact congrArg _ ihbytes
        · rw [List.singleton_append, isEncodable, List.all_cons, isMark_mark hb, Bool.or_true]
          exact ihencodable

theorem bytes_stored (name : Text) : bytes (stored name) = bytes name := by
  rw [stored]
  split
  · exact (replaceWithin_mark (Nat.le_refl _)).1
  · rfl

theorem isEncodable_stored {name : Text} (h : isEncodable name = true) :
    isEncodable (stored name) = true := by
  rw [stored]
  split
  · exact (replaceWithin_mark (Nat.le_refl _)).2
  · exact h

/-- Storing a name once more changes nothing. -/
theorem stored_stored (name : Text) : stored (stored name) = stored name := by
  by_cases h : (isEncodable name && name.any isMark) = true
  · by_cases hmarks : (stored name).any isMark = true
    · have hencodable := isEncodable_stored (Bool.and_eq_true_iff.1 h).1
      rw [stored, if_pos (Bool.and_eq_true_iff.2 ⟨hencodable, hmarks⟩), bytes_stored, stored,
        if_pos h]
    · exact stored_eq_self (Bool.not_eq_true _ ▸ hmarks)
  · have hself : stored name = name := if_neg h
    rw [hself, hself]

theorem isTooLong_stored (name : Text) : isTooLong (stored name) = isTooLong name := by
  rw [isTooLong, isTooLong, bytes_stored]

/-! ## Bytes that are told apart -/

theorem mem_bytes {name : Text} {b : UInt8} : b ∈ bytes name ↔ ∃ c ∈ name, b ∈ bytesOf c := by
  simp [bytes]

/-- A byte below `0x80` belongs to the code point of that number alone. -/
theorem mem_bytesOf_of_lt {c : CodePoint} {b : UInt8} (hb : b.toNat < 0x80) :
    b ∈ bytesOf c ↔ c.val = b.toNat := by
  have hc := c.val_lt
  rw [bytesOf]
  split
  · rename_i hmark
    rw [isMark_iff] at hmark
    rw [List.mem_singleton, ← UInt8.toNat_inj, Utf8.toNat_toUInt8 (by omega)]
    omega
  · rw [encodeOne]
    repeat' split
    all_goals
      simp only [List.mem_cons, List.not_mem_nil, or_false, ← UInt8.toNat_inj]
    · rw [Utf8.toNat_toUInt8 (by omega)]
      omega
    · rw [Utf8.toNat_toUInt8 (by omega), Utf8.toNat_toUInt8 (by omega)]
      omega
    · rw [Utf8.toNat_toUInt8 (by omega), Utf8.toNat_toUInt8 (by omega),
        Utf8.toNat_toUInt8 (by omega)]
      omega
    · rw [Utf8.toNat_toUInt8 (by omega), Utf8.toNat_toUInt8 (by omega),
        Utf8.toNat_toUInt8 (by omega), Utf8.toNat_toUInt8 (by omega)]
      omega

theorem contains_nul_iff (name : Text) :
    name.contains (CodePoint.ofNat 0) = true ↔ (0 : UInt8) ∈ bytes name := by
  rw [List.contains_iff_mem, mem_bytes]
  constructor
  · intro h
    exact ⟨_, h, (mem_bytesOf_of_lt (by decide)).2 rfl⟩
  · rintro ⟨c, hmem, hc⟩
    have hzero : 0 = c.val := ((mem_bytesOf_of_lt (by decide)).1 hc).symm
    rwa [Utf8.ofNat_eq hzero]

/-! ## Plain names -/

/-- A name in ASCII without a zero byte. -/
def IsPlain (name : Text) : Prop := ∀ c ∈ name, 0 < c.val ∧ c.val < 0x80

instance (name : Text) : Decidable (IsPlain name) :=
  inferInstanceAs (Decidable (∀ c ∈ name, 0 < c.val ∧ c.val < 0x80))

namespace IsPlain

variable {name : Text} (h : IsPlain name)
include h

theorem isSurrogate {c : CodePoint} (hc : c ∈ name) : c.isSurrogate = false := by
  rw [Utf8.isSurrogate_eq_false]
  have hrange := h c hc
  omega

theorem isEncodable : isEncodable name = true := by
  rw [FileName.isEncodable, List.all_eq_true]
  intro c hc
  rw [h.isSurrogate hc]
  rfl

theorem stored : stored name = name := by
  apply stored_eq_self
  rw [List.any_eq_false]
  intro c hc
  rw [isMark_eq_false (h.isSurrogate hc)]
  exact Bool.false_ne_true

theorem bytesOf_eq {c : CodePoint} (hc : c ∈ name) : bytesOf c = [c.val.toUInt8] := by
  rw [bytesOf_eq_encodeOne (h.isSurrogate hc), encodeOne, if_pos (h c hc).2]

theorem length_bytes : (bytes name).length = name.length := by
  induction name with
  | nil => rfl
  | cons c name ih =>
    rw [bytes, List.flatMap_cons, h.bytesOf_eq List.mem_cons_self, List.singleton_append,
      List.length_cons, List.length_cons]
    exact congrArg _ (ih (List.forall_mem_cons.1 h).2)

theorem lt_of_mem_bytes {b : UInt8} (hb : b ∈ bytes name) : b.toNat < 0x80 := by
  obtain ⟨c, hc, hb⟩ := mem_bytes.1 hb
  have hrange := h c hc
  rw [h.bytesOf_eq hc] at hb
  rw [List.mem_singleton.1 hb, Utf8.toNat_toUInt8 (by omega)]
  exact hrange.2

theorem zero_not_mem : (0 : UInt8) ∉ bytes name := by
  rw [mem_bytes]
  rintro ⟨c, hmem, hc⟩
  have hpos := (h c hmem).1
  rw [(mem_bytesOf_of_lt (by decide)).1 hc] at hpos
  exact absurd hpos (by decide)

end IsPlain

/-- Only the name that leads back is stored as such. -/
theorem stored_eq_above {name : Text} : stored name = above ↔ name = above := by
  constructor
  · intro h
    by_cases hmarks : name.any isMark = true
    · obtain ⟨c, hmem, hc⟩ := List.any_eq_true.1 hmarks
      have hrange := isMark_iff.1 hc
      have hbyte : (c.val - 0xDC00).toUInt8 ∈ bytes name :=
        mem_bytes.2 ⟨c, hmem, by rw [bytesOf, if_pos hc]; exact List.mem_singleton_self _⟩
      rw [← bytes_stored, h] at hbyte
      have hplain : IsPlain above := by decide
      have hlt := hplain.lt_of_mem_bytes hbyte
      rw [Utf8.toNat_toUInt8 (by omega)] at hlt
      omega
    · rwa [stored_eq_self (Bool.not_eq_true _ ▸ hmarks)] at h
  · rintro rfl
    rfl

end StarkReplay.FileName
