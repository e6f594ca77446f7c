import StarkReplay.Json.Read
import StarkReplay.Json.Write
import StarkReplay.Proofs.Numerals
import StarkReplay.Proofs.Outcome

/-!
Strings of JSON texts, read as they are written. Each code point is written as itself, as a
backslash and a letter, as one escape of four digits or as two. One escape is read together with
the next one if the two make a surrogate pair; so a text comes back if no high surrogate stands in
front of a low one in it.
-/
namespace StarkReplay

/-- No high surrogate stands in front of a low one. -/
def Text.Unpaired (t : Text) : Prop :=
  List.IsChain (fun c d => c.isHighSurrogate = true → d.isLowSurrogate = false) t

/-- All code points are Unicode scalar values. -/
def Text.Scalar (t : Text) : Prop := ∀ c ∈ t, c.isSurrogate = false

theorem CodePoint.ofNat_val (c : CodePoint) : ofNat c.val = c := by
  simp [ofNat, c.val_lt]

theorem Text.Scalar.unpaired {t : Text} (h : t.Scalar) : t.Unpaired := by
  induction t with
  | nil => exact .nil
  | cons c t ih =>
    obtain ⟨hc, ht⟩ := List.forall_mem_cons.1 h
    cases t with
    | nil => exact .singleton c
    | cons d t =>
      refine .cons_cons (fun hhigh => ?_) (ih ht)
      rw [CodePoint.isSurrogate_eq, hhigh] at hc
      cases hc

namespace Json

/-! ## Escapes of four digits -/

theorem unicodeEscape_eq {n : Nat} (h : n < 0x10000) :
    ∃ a b c d : CodePoint, unicodeEscape n = [('\\' : CodePoint), 'u', a, b, c, d] ∧
      hexQuad? a b c d = some n := by
  have hlength := Numeral.length_hexPadded (show 1 ≤ 4 by omega) h
  have hall : ∀ c ∈ Numeral.hexPadded 4 n, Numeral.isHexDigit c = true :=
    fun c hc => Numeral.isHexDigit_of_mem_hexPadded hc
  have hvalue := Numeral.ofHex_hexPadded 4 n
  rw [unicodeEscape]
  match Numeral.hexPadded 4 n, hlength, hall, hvalue with
  | [a, b, c, d], _, hall, hvalue =>
    refine ⟨a, b, c, d, rfl, ?_⟩
    rw [hexQuad?, if_pos (List.all_eq_true.2 hall), hvalue]

/-- The digits are read if something follows them. -/
theorem readHexQuad_unicodeEscape {n : Nat} (h : n < 0x10000) {rest : Text} (hrest : rest ≠ []) :
    readHexQuad ((unicodeEscape n ++ rest).drop 1) = .ok (n, rest) := by
  obtain ⟨a, b, c, d, heq, hquad⟩ := unicodeEscape_eq h
  obtain ⟨e, rest, rfl⟩ := List.exists_cons_of_ne_nil hrest
  rw [heq]
  simp [readHexQuad, hquad]

theorem pairFollows_unicodeEscape {n : Nat} (h : n < 0x10000) {rest : Text} (hrest : rest ≠ []) :
    pairFollows (unicodeEscape n ++ rest) = true := by
  obtain ⟨a, b, c, d, heq, -⟩ := unicodeEscape_eq h
  obtain ⟨e, rest, rfl⟩ := List.exists_cons_of_ne_nil hrest
  rw [heq]
  simp [pairFollows]

/-- No second half of a surrogate pair stands in front of the text. -/
def NoLowHalf (t : Text) : Prop :=
  pairFollows t = true →
    ∃ m rest, readHexQuad (t.drop 1) = .ok (m, rest) ∧ (CodePoint.ofNat m).isLowSurrogate = false

theorem readUnicodeEscape_single {c : CodePoint} (h : c.val < 0x10000) {rest : Text}
    (hrest : rest ≠ []) (hlow : c.isHighSurrogate = true → NoLowHalf rest) :
    readUnicodeEscape ((unicodeEscape c.val ++ rest).drop 1) = .ok (c, rest) := by
  rw [readUnicodeEscape, readHexQuad_unicodeEscape h hrest, ok_bind]
  simp only [CodePoint.ofNat_val]
  split
  · rename_i hpair
    rw [Bool.and_eq_true] at hpair
    obtain ⟨m, rest', hread, hm⟩ := hlow hpair.1 hpair.2
    rw [hread, ok_bind]
    simp [hm]
  · rfl

theorem readUnicodeEscape_pair {high low : Nat} (hhigh : 0xD800 ≤ high ∧ high < 0xDC00)
    (hlow : 0xDC00 ≤ low ∧ low < 0xE000) {rest : Text} (hrest : rest ≠ []) :
    readUnicodeEscape ((unicodeEscape high ++ (unicodeEscape low ++ rest)).drop 1) =
      .ok (joinSurrogates high low, rest) := by
  have hisHigh : (CodePoint.ofNat high).isHighSurrogate = true := by
    rw [CodePoint.isHighSurrogate, CodePoint.val_ofNat (by omega)]
    simpa using hhigh
  have hisLow : (CodePoint.ofNat low).isLowSurrogate = true := by
    rw [CodePoint.isLowSurrogate, CodePoint.val_ofNat (by omega)]
    simpa using hlow
  have hfollows := pairFollows_unicodeEscape (n := low) (by omega) hrest
  rw [readUnicodeEscape, readHexQuad_unicodeEscape (by omega) (by simp [hrest]), ok_bind]
  simp only [hisHigh, hfollows, Bool.and_self, if_true]
  rw [readHexQuad_unicodeEscape (by omega) hrest, ok_bind]
  simp only [hisLow, if_true]

/-! ## Written code points -/

/-- The ways in which a code point is written. -/
inductive Written : CodePoint → Text → Prop where
  | plain {c : CodePoint} (hquote : c ≠ '"') (hbackslash : c ≠ '\\') (hcontrol : 0x20 ≤ c.val) :
      Written c [c]
  | letter {c e : CodePoint} (hletter : e ≠ 'u') (hvalue : escapeValue? e = some c) :
      Written c ['\\', e]
  | escape {c : CodePoint} (h : c.val < 0x10000) : Written c (unicodeEscape c.val)
  | pair {high low : Nat} (hhigh : 0xD800 ≤ high ∧ high < 0xDC00)
      (hlow : 0xDC00 ≤ low ∧ low < 0xE000) :
      Written (joinSurrogates high low) (unicodeEscape high ++ unicodeEscape low)

theorem Written.length_pos {c : CodePoint} {w : Text} (h : Written c w) : 0 < w.length := by
  cases h with
  | plain _ _ _ => exact Nat.one_pos
  | letter _ _ => exact Nat.two_pos
  | escape _ => exact Nat.succ_pos _
  | pair _ _ => exact Nat.succ_pos _

theorem written_writeCodePoint (c : CodePoint) : Written c (writeCodePoint c) := by
  unfold writeCodePoint
  split
  · rename_i h
    rw [h]
    exact .letter (e := '"') (by decide) (by decide)
  split
  · rename_i h
    rw [h]
    exact .letter (e := '\\') (by decide) (by decide)
  split
  · rename_i h
    rw [h]
    exact .letter (e := 'n') (by decide) (by decide)
  split
  · rename_i h
    rw [h]
    exact .letter (e := 'r') (by decide) (by decide)
  split
  · rename_i h
    rw [h]
    exact .letter (e := 't') (by decide) (by decide)
  split
  · rename_i h
    rw [← CodePoint.ofNat_val c, h]
    exact .letter (e := 'f') (by decide) (by decide)
  split
  · rename_i h
    rw [← CodePoint.ofNat_val c, h]
    exact .letter (e := 'b') (by decide) (by decide)
  split
  · rename_i hquote hbackslash _ _ _ _ _ h
    exact .plain hquote hbackslash h.1
  split
  · rename_i h
    exact .escape h
  · rename_i h
    have hval := c.val_lt
    have hsum : 0x10000 + (0xD800 + (c.val - 0x10000) / 0x400 - 0xD800) * 0x400 +
        (0xDC00 + (c.val - 0x10000) % 0x400 - 0xDC00) = c.val := by omega
    have hjoin : joinSurrogates (0xD800 + (c.val - 0x10000) / 0x400)
        (0xDC00 + (c.val - 0x10000) % 0x400) = c := by
      rw [joinSurrogates, hsum, CodePoint.ofNat_val]
    have hpair : Written (joinSurrogates (0xD800 + (c.val - 0x10000) / 0x400)
        (0xDC00 + (c.val - 0x10000) % 0x400)) _ := .pair (by omega) (by omega)
    rwa [hjoin] at hpair

/-! ## Strings -/

theorem noLowHalf_of_head {c : CodePoint} (h : c ≠ '\\') (rest : Text) :
    NoLowHalf (c :: rest) := by
  intro hfollows
  unfold pairFollows at hfollows
  split at hfollows
  · rename_i heq
    simp_all
  · cases hfollows

theorem Written.noLowHalf {c : CodePoint} {w : Text} (h : Written c w)
    (hlow : c.isLowSurrogate = false) {rest : Text} (hrest : rest ≠ []) :
    NoLowHalf (w ++ rest) := by
  cases h with
  | plain _ hbackslash _ => exact noLowHalf_of_head hbackslash rest
  | letter hletter _ =>
    intro hfollows
    unfold pairFollows at hfollows
    split at hfollows
    · rename_i heq
      simp_all
    · cases hfollows
  | escape h =>
    intro _
    refine ⟨c.val, rest, readHexQuad_unicodeEscape h hrest, ?_⟩
    rw [CodePoint.ofNat_val, hlow]
  | @pair high low hhigh hpair =>
    intro _
    refine ⟨high, unicodeEscape low ++ rest, ?_, ?_⟩
    · rw [List.append_assoc]
      exact readHexQuad_unicodeEscape (by omega) (by simp [hrest])
    · rw [CodePoint.isLowSurrogate, CodePoint.val_ofNat (by omega)]
      simp
      omega

theorem readString_escape (opening : Text) (fuel : Nat) (done : Text) {n : Nat} (h : n < 0x10000)
    {d : CodePoint} {more rest : Text}
    (hread : readUnicodeEscape ((unicodeEscape n ++ more).drop 1) = .ok (d, rest)) :
    readString opening (fuel + 1) done (unicodeEscape n ++ more) =
      readString opening fuel (d :: done) rest := by
  obtain ⟨a, b, c, e, heq, -⟩ := unicodeEscape_eq h
  rw [heq] at hread ⊢
  simp only [List.cons_append, List.drop_succ_cons, List.drop_zero] at hread
  simp only [List.cons_append, readString]
  rw [if_neg (by decide), if_pos trivial, if_pos trivial]
  simp only [hread]

/-- One turn reads one written code point. -/
theorem Written.readString {c : CodePoint} {w : Text} (h : Written c w) (opening : Text)
    (fuel : Nat) (done : Text) {rest : Text} (hrest : rest ≠ [])
    (hlow : c.isHighSurrogate = true → NoLowHalf rest) :
    readString opening (fuel + 1) done (w ++ rest) =
      readString opening fuel (c :: done) rest := by
  cases h with
  | plain hquote hbackslash hcontrol =>
    simp only [List.singleton_append, Json.readString]
    rw [if_neg hquote, if_neg hbackslash, if_neg (by omega)]
  | letter hletter hvalue =>
    simp only [List.cons_append, List.nil_append, Json.readString]
    rw [if_neg (by decide), if_pos trivial, if_neg hletter]
    simp only [hvalue]
  | escape h =>
    exact readString_escape opening fuel done h (readUnicodeEscape_single h hrest hlow)
  | pair hhigh hpair =>
    rw [List.append_assoc]
    exact readString_escape opening fuel done (by omega) (readUnicodeEscape_pair hhigh hpair hrest)

/-- The code points of a string are read up to its closing quote. -/
theorem readString_writeCodePoints {t : Text} (ht : t.Unpaired) (opening : Text) {fuel : Nat}
    (hfuel : t.length < fuel) (done rest : Text) :
    readString opening fuel done (t.flatMap writeCodePoint ++ ('"' : CodePoint) :: rest) =
      .ok (done.reverse ++ t, rest) := by
  induction t generalizing fuel done with
  | nil =>
    obtain ⟨fuel, rfl⟩ : ∃ k, fuel = k + 1 := Nat.exists_eq_add_one.2 hfuel
    simp [readString]
  | cons c t ih =>
    obtain ⟨fuel, rfl⟩ : ∃ k, fuel = k + 1 := Nat.exists_eq_add_one.2 (by omega)
    have hmore : t.flatMap writeCodePoint ++ ('"' : CodePoint) :: rest ≠ [] := by simp
    have hlow : c.isHighSurrogate = true →
        NoLowHalf (t.flatMap writeCodePoint ++ ('"' : CodePoint) :: rest) := by
      intro hhigh
      cases ht with
      | singleton => exact noLowHalf_of_head (c := '"') (by decide) rest
      | cons_cons hpair _ =>
        rw [List.flatMap_cons, List.append_assoc]
        exact (written_writeCodePoint _).noLowHalf (hpair hhigh) (by simp)
    have hread := (written_writeCodePoint c).readString opening fuel done hmore hlow
    rw [List.flatMap_cons, List.append_assoc, hread, ih ht.tail (Nat.lt_of_succ_lt_succ hfuel)]
    simp

end Json

end StarkReplay
