import StarkReplay.Proofs.ElementText
import StarkReplay.Proofs.JsonStrings

/-!
The texts of JSON documents. Whatever is in the strings of a document, its text is printable ASCII
and line feeds, so it goes to a file and back as it is.
-/
namespace StarkReplay.Json

variable {s t : Text} {v : Json}

/-- All numbers of the document are integers. -/
inductive Integral : Json → Prop
  | null : Integral null
  | bool (value : Bool) : Integral (bool value)
  | int (n : Int) : Integral (int n)
  | str (t : Text) : Integral (str t)
  | arr {items : List Json} (values : ∀ v ∈ items, Integral v) : Integral (arr items)
  | obj {fields : List (Text × Json)} (values : ∀ f ∈ fields, Integral f.2) : Integral (obj fields)

/-- The code points are printable ASCII and line feeds. -/
def Printed (t : Text) : Prop := ∀ c ∈ t, c = '\n' ∨ 0x20 ≤ c.val ∧ c.val ≤ 0x7E

instance (t : Text) : Decidable (Printed t) :=
  inferInstanceAs (Decidable (∀ c ∈ t, c = '\n' ∨ 0x20 ≤ c.val ∧ c.val ≤ 0x7E))

theorem Printed.append (hs : Printed s) (ht : Printed t) : Printed (s ++ t) :=
  List.forall_mem_append.2 ⟨hs, ht⟩

theorem Printed.scalar (h : Printed t) : t.Scalar := by
  intro c hc
  rw [Utf8.isSurrogate_eq_false]
  rcases h c hc with rfl | hrange
  · decide
  · omega

theorem Printed.exists_encode? (h : Printed t) : ∃ content, Utf8.encode? t = some content := by
  have hscalar : ¬t.any CodePoint.isSurrogate = true := by
    rw [Bool.not_eq_true, List.any_eq_false]
    intro c hc
    rw [h.scalar c hc]
    exact Bool.false_ne_true
  exact ⟨_, if_neg hscalar⟩

theorem Printed.unifyLineEnds (h : Printed t) : t.unifyLineEnds = t := by
  apply Text.unifyLineEnds_eq_self
  rintro c hc rfl
  have hreturn := h _ hc
  revert hreturn
  decide

theorem printed_comma (style : Style) : Printed style.comma := by
  cases style <;> decide

theorem printed_gap (style : Style) (level : Nat) : Printed (style.gap level) := by
  cases style with
  | oneLine => exact nofun
  | indented =>
    refine List.forall_mem_cons.2 ⟨.inl rfl, fun c hc => ?_⟩
    rw [List.eq_of_mem_replicate hc]
    decide

theorem printed_integer (n : Int) : Printed (Numeral.integer n) := by
  intro c hc
  rcases Numeral.mem_integer hc with rfl | hdigit
  · decide
  · rw [Numeral.isDecimalDigit_iff] at hdigit
    exact .inr (by omega)

theorem printed_unicodeEscape (n : Nat) : Printed (unicodeEscape n) := by
  refine .append (by decide) fun c hc => .inr ?_
  have hdigit := Numeral.isHexDigit_of_mem_hexPadded hc
  simp [Numeral.isHexDigit, Numeral.isDecimalDigit] at hdigit
  omega

theorem printed_writeCodePoint (c : CodePoint) : Printed (writeCodePoint c) := by
  unfold writeCodePoint
  iterate 7
    split
    · decide
  split
  · rename_i h
    exact List.forall_mem_singleton.2 (.inr h)
  split
  · exact printed_unicodeEscape _
  · exact (printed_unicodeEscape _).append (printed_unicodeEscape _)

theorem printed_writeString (t : Text) : Printed (writeString t) := by
  refine .append (List.forall_mem_cons.2 ⟨by decide, fun c hc => ?_⟩) (by decide)
  obtain ⟨d, -, hc⟩ := List.mem_flatMap.1 hc
  exact printed_writeCodePoint d c hc

theorem printed_writeName (name : Text) : Printed (writeName name) :=
  (printed_writeString name).append (by decide)

section

variable {style : Style} {level : Nat}

theorem printed_writeItems {items : List Json}
    (h : ∀ v ∈ items, Printed (writeAt style level v)) :
    Printed (writeItems style level items) := by
  induction items with
  | nil => exact nofun
  | cons v items ih =>
    obtain ⟨hv, hitems⟩ := List.forall_mem_cons.1 h
    rw [writeItems]
    exact (((printed_comma style).append (printed_gap style level)).append hv).append (ih hitems)

theorem printed_writeFields {fields : List (Text × Json)}
    (h : ∀ f ∈ fields, Printed (writeAt style level f.2)) :
    Printed (writeFields style level fields) := by
  induction fields with
  | nil => exact nofun
  | cons f fields ih =>
    obtain ⟨k, v⟩ := f
    obtain ⟨hv, hfields⟩ := List.forall_mem_cons.1 h
    rw [writeFields]
    exact ((((printed_comma style).append (printed_gap style level)).append
      (printed_writeName k)).append hv).append (ih hfields)

end

/-- The text of a document is printable, whatever is in its strings. -/
theorem Integral.printed_writeAt (h : v.Integral) (style : Style) (level : Nat) :
    Printed (writeAt style level v) := by
  induction h generalizing level with
  | null =>
    rw [writeAt]
    decide
  | bool value => cases value <;> rw [writeAt] <;> decide
  | int n => exact printed_integer n
  | str t => exact printed_writeString t
  | @arr items values ih =>
    cases items with
    | nil =>
      rw [writeAt]
      decide
    | cons v items =>
      obtain ⟨hv, hitems⟩ := List.forall_mem_cons.1 ih
      rw [writeAt]
      have hopen : Printed (('[' : CodePoint) :: style.gap (level + 1)) :=
        List.forall_mem_cons.2 ⟨by decide, printed_gap style _⟩
      exact (((hopen.append (hv _)).append (printed_writeItems fun w hw => hitems w hw _)).append
        (printed_gap style level)).append (by decide)
  | @obj fields values ih =>
    cases fields with
    | nil =>
      rw [writeAt]
      decide
    | cons f fields =>
      obtain ⟨k, v⟩ := f
      obtain ⟨hv, hfields⟩ := List.forall_mem_cons.1 ih
      rw [writeAt]
      have hopen : Printed (('{' : CodePoint) :: style.gap (level + 1)) :=
        List.forall_mem_cons.2 ⟨by decide, printed_gap style _⟩
      exact ((((hopen.append (printed_writeName k)).append (hv _)).append
        (printed_writeFields fun f hf => hfields f hf _)).append
          (printed_gap style level)).append (by decide)

end StarkReplay.Json
