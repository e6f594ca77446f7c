import Mathlib.Data.List.TakeWhile
import StarkReplay.Text.Blank

/-!
The words of a text, read from the left. A word stands in front of a break, the end of the text or
a blank; blanks between words do not count. Texts with spaces between them are the words of the
whole.
-/
namespace StarkReplay.Text

section

variable {p : CodePoint → Bool}

theorem pieces_of_none {w : Text} (h : ∀ c ∈ w, p c = false) : pieces p w = [w] := by
  induction w with
  | nil => rfl
  | cons c w ih =>
    obtain ⟨hc, hw⟩ := List.forall_mem_cons.1 h
    simp [pieces, hc, ih hw]

theorem pieces_append {w : Text} (h : ∀ c ∈ w, p c = false) {c : CodePoint} (hc : p c = true)
    (r : Text) : pieces p (w ++ c :: r) = w :: pieces p r := by
  induction w with
  | nil => simp [pieces, hc]
  | cons d w ih =>
    obtain ⟨hd, hw⟩ := List.forall_mem_cons.1 h
    simp [pieces, hd, ih hw]

end

/-- The text is at its end, or a blank comes next. -/
def Breaks (r : Text) : Prop := ∀ c ∈ r.head?, isBlank c = true

/-- Code points without a blank among them. -/
def Solid (w : Text) : Prop := ∀ c ∈ w, isBlank c = false

theorem breaks_nil : Breaks [] := nofun

theorem breaks_cons {c : CodePoint} {r : Text} : Breaks (c :: r) ↔ isBlank c = true := by
  simp [Breaks]

theorem Breaks.of_append {r s : Text} (h : Breaks (r ++ s)) : Breaks r := by
  cases r with
  | nil => exact breaks_nil
  | cons c r => exact breaks_cons.2 (breaks_cons.1 h)

theorem words_blank {c : CodePoint} (hc : isBlank c = true) (r : Text) :
    words (c :: r) = words r := by
  simp [words, pieces, hc]

theorem words_append {w r : Text} (hw : Solid w) (hne : w ≠ []) (hr : Breaks r) :
    words (w ++ r) = w :: words r := by
  cases r with
  | nil => simp [words, pieces_of_none hw, pieces, hne]
  | cons c r =>
    have hc := breaks_cons.1 hr
    rw [words_blank hc, words, pieces_append hw hc]
    simp [words, hne]

/-- A text is a word, if it does not begin with a blank, and what follows it. -/
theorem exists_word (r : Text) : ∃ w rest, r = w ++ rest ∧ Solid w ∧ Breaks rest := by
  refine ⟨r.takeWhile (!isBlank ·), r.dropWhile (!isBlank ·), ?_, ?_, ?_⟩
  · exact List.takeWhile_append_dropWhile.symm
  · intro c hc
    simpa using List.mem_takeWhile_imp hc
  · intro c hc
    have hstop := List.head?_dropWhile_not (!isBlank ·) r
    rw [Option.mem_def.1 hc] at hstop
    simpa using hstop

/-! ## Joined words -/

theorem join_singleton (sep w : Text) : join sep [w] = w := by
  simp [join]

theorem join_cons_cons (sep w w' : Text) (ws : List Text) :
    join sep (w :: w' :: ws) = w ++ (sep ++ join sep (w' :: ws)) := by
  simp [join]

/-- Texts with spaces between them are the words of the whole. -/
theorem words_join {ws : List Text} (h : ∀ w ∈ ws, w ≠ [] ∧ ∀ c ∈ w, isBlank c = false) :
    words (join " " ws) = ws := by
  induction ws with
  | nil => rfl
  | cons w ws ih =>
    obtain ⟨⟨hne, hsolid⟩, hrest⟩ := List.forall_mem_cons.1 h
    cases ws with
    | nil =>
      have hword := words_append hsolid hne breaks_nil
      rw [List.append_nil] at hword
      rw [join_singleton]
      exact hword
    | cons w' ws =>
      have hspace : isBlank ' ' = true := rfl
      have hbreaks : Breaks (" " ++ join " " (w' :: ws)) := breaks_cons.2 hspace
      rw [join_cons_cons, words_append hsolid hne hbreaks]
      exact congrArg (w :: ·) ((words_blank hspace _).trans (ih hrest))

end StarkReplay.Text
