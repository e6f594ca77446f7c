import StarkReplay.Flat
import StarkReplay.Proofs.Felts
import StarkReplay.Proofs.Numerals
import StarkReplay.Proofs.Utf8
import StarkReplay.Proofs.Words
import StarkReplay.Text.Line

/-!
Elements as text. The numerals between the spaces are the words of the text, and felts are read
back from them; the text is ASCII without line ends, so it goes to a file and back unchanged.
-/
namespace StarkReplay

namespace Text

theorem unifyLineEnds_eq_self {t : Text} (h : ∀ c ∈ t, c ≠ '\r') : unifyLineEnds t = t := by
  induction t with
  | nil => rfl
  | cons c t ih =>
    obtain ⟨hc, ht⟩ := List.forall_mem_cons.1 h
    unfold unifyLineEnds
    rw [if_neg hc, ih ht]

theorem mem_join {sep : Text} {ws : List Text} {c : CodePoint} (h : c ∈ join sep ws) :
    c ∈ sep ∨ ∃ w ∈ ws, c ∈ w := by
  induction ws with
  | nil => cases h
  | cons w ws ih =>
    cases ws with
    | nil =>
      have hw : c ∈ w := by simpa [join] using h
      exact .inr ⟨w, List.mem_cons_self, hw⟩
    | cons w' ws =>
      rw [join_cons_cons, List.mem_append, List.mem_append] at h
      rcases h with hw | hsep | hrest
      · exact .inr ⟨w, List.mem_cons_self, hw⟩
      · exact .inl hsep
      · rcases ih hrest with hsep | ⟨v, hv, hc⟩
        · exact .inl hsep
        · exact .inr ⟨v, List.mem_cons_of_mem _ hv, hc⟩

end Text

namespace Numeral

theorem readInteger_integer {n : Int} (h : (decimal n.natAbs).length ≤ maxDigits) :
    readInteger (integer n) = .ok n := by
  have hlimit := Nat.not_lt.2 h
  have hvalue := ofDecimal_decimal n.natAbs
  rw [integer]
  split
  · rename_i hneg
    simp [readInteger, hlimit, hvalue, abs_of_neg hneg]
  · rename_i hpos
    have hhead := head?_decimal_append n.natAbs [] (show isDecimalDigit '-' = false by decide)
    rw [List.append_nil] at hhead
    simp [readInteger, hhead, hlimit, hvalue, abs_of_nonneg (Int.not_lt.1 hpos)]

/-- A numeral has a digit and otherwise at most a sign. -/
theorem mem_integer {n : Int} {c : CodePoint} (h : c ∈ integer n) :
    c = '-' ∨ isDecimalDigit c = true := by
  rw [integer] at h
  split at h
  · rcases List.mem_cons.1 h with h | h
    · exact .inl h
    · exact .inr (isDecimalDigit_of_mem_decimal h)
  · exact .inr (isDecimalDigit_of_mem_decimal h)

theorem integer_ne_nil (n : Int) : integer n ≠ [] := by
  obtain ⟨c, cs, hcs, -⟩ := decimal_eq_cons n.natAbs
  rw [integer, hcs]
  split <;> simp

theorem isDecimalDigit_iff {c : CodePoint} :
    isDecimalDigit c = true ↔ 0x30 ≤ c.val ∧ c.val ≤ 0x39 := by
  simp [isDecimalDigit]

theorem isBlank_of_mem_integer {n : Int} {c : CodePoint} (h : c ∈ integer n) :
    Text.isBlank c = false := by
  rcases mem_integer h with rfl | h
  · decide
  · rw [isDecimalDigit_iff] at h
    simp only [Text.isBlank, Bool.or_eq_false_iff, Bool.and_eq_false_iff, decide_eq_false_iff_not,
      beq_eq_false_iff_ne]
    omega

end Numeral

namespace Flat

/-- The numerals of the elements are the words of their text. -/
theorem words_text (elements : List Int) :
    (text elements).words = elements.map Numeral.integer := by
  apply Text.words_join
  intro w hw
  obtain ⟨n, -, rfl⟩ := List.mem_map.1 hw
  exact ⟨Numeral.integer_ne_nil n, fun c hc => Numeral.isBlank_of_mem_integer hc⟩

theorem mem_text {elements : List Int} {c : CodePoint} (h : c ∈ text elements) :
    0x20 ≤ c.val ∧ c.val < 0x80 := by
  rcases Text.mem_join h with h | ⟨w, hw, hc⟩
  · rw [List.mem_singleton.1 h]
    decide
  · obtain ⟨n, -, rfl⟩ := List.mem_map.1 hw
    rcases Numeral.mem_integer hc with rfl | hdigit
    · decide
    · rw [Numeral.isDecimalDigit_iff] at hdigit
      omega

/-- The text of elements is encoded, and read back from its bytes. -/
theorem exists_encode?_text (elements : List Int) : ∃ content,
    Utf8.encode? (text elements) = some content ∧ Utf8.decode? content = some (text elements) := by
  have hscalar : ¬(text elements).any CodePoint.isSurrogate = true := by
    rw [Bool.not_eq_true, List.any_eq_false]
    intro c hc
    have hrange := mem_text hc
    rw [Bool.not_eq_true, Utf8.isSurrogate_eq_false]
    omega
  have hencode : Utf8.encode? (text elements) = some _ := if_neg hscalar
  exact ⟨_, hencode, Utf8.decode?_of_encode? hencode⟩

theorem unifyLineEnds_text (elements : List Int) :
    (text elements).unifyLineEnds = text elements := by
  apply Text.unifyLineEnds_eq_self
  rintro c hc rfl
  have hrange := (mem_text hc).1
  revert hrange
  decide

end Flat

end StarkReplay
