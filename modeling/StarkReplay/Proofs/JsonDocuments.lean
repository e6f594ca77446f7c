import StarkReplay.Proofs.JsonStrings
import StarkReplay.Proofs.JsonTurns

/-!
JSON documents, read as they are written. A value is read up to its end, whatever follows it that
cannot go on with a number, in each of the two styles; the fuel that the reader has for a text is
enough for the values written in it.
-/
namespace StarkReplay.Json

/-- A document of texts that satisfy `S` and integers of at most `limit` digits, where the names in
an object are distinct. -/
inductive Plain (S : Text → Prop) (limit : Nat) : Json → Prop where
  | null : Plain S limit null
  | bool (value : Bool) : Plain S limit (bool value)
  | int {n : Int} (digits : (Numeral.decimal n.natAbs).length ≤ limit) : Plain S limit (int n)
  | str {t : Text} (text : S t) : Plain S limit (str t)
  | arr {items : List Json} (values : ∀ v ∈ items, Plain S limit v) : Plain S limit (arr items)
  | obj {fields : List (Text × Json)} (distinct : (fields.map Prod.fst).Nodup)
      (names : ∀ f ∈ fields, S f.1) (values : ∀ f ∈ fields, Plain S limit f.2) :
      Plain S limit (obj fields)

theorem Plain.imp {S S' : Text → Prop} {limit : Nat} {v : Json} (hS : ∀ t, S t → S' t)
    (h : Plain S limit v) : Plain S' limit v := by
  induction h with
  | null => exact .null
  | bool value => exact .bool value
  | int digits => exact .int digits
  | str text => exact .str (hS _ text)
  | arr _ ih => exact .arr ih
  | obj distinct names _ ih => exact .obj distinct (fun f hf => hS _ (names f hf)) ih

/-! ## Blanks -/

theorem skipBlank_cons {c : CodePoint} (h : isBlank c = false) (t : Text) :
    skipBlank (c :: t) = c :: t := by
  rw [skipBlank, List.dropWhile_cons, h]
  rfl

theorem skipBlank_space (t : Text) : skipBlank (' ' :: t) = skipBlank t := rfl

theorem skipBlank_gap (style : Style) (level : Nat) (t : Text) :
    skipBlank (style.gap level ++ t) = skipBlank t := by
  cases style with
  | oneLine => rfl
  | indented =>
    have hspaces : ∀ n, skipBlank (List.replicate n (' ' : CodePoint) ++ t) = skipBlank t := by
      intro n
      induction n with
      | zero => rfl
      | succ n ih =>
        rw [List.replicate_succ, List.cons_append, skipBlank_space, ih]
    exact hspaces (2 * level)

/-- A comma and the gap behind it. -/
theorem comma_gap (style : Style) (level : Nat) (t : Text) :
    ∃ r, style.comma ++ style.gap level ++ t = (',' : CodePoint) :: r ∧
      skipBlank r = skipBlank t := by
  cases style with
  | oneLine => exact ⟨_, rfl, skipBlank_space t⟩
  | indented => exact ⟨_, rfl, skipBlank_gap .indented level t⟩

section

variable {α : Type} {close : CodePoint} (more : Text → Except Fault (List α × Text)) (a : α)

theorem entriesBehind_close (hclose : isBlank close = false) (style : Style) (level : Nat)
    (rest : Text) :
    entriesBehind close more a (style.gap level ++ close :: rest) = .ok ([a], rest) := by
  rw [entriesBehind, skipBlank_gap, skipBlank_cons hclose, List.head?_cons, if_pos rfl]
  rfl

theorem entriesBehind_comma (hclose : close ≠ ',') (style : Style) (level : Nat) {t : Text}
    (ht : skipBlank t = t) :
    entriesBehind close more a (style.comma ++ style.gap level ++ t) =
      more t >>= fun p => .ok (a :: p.1, p.2) := by
  obtain ⟨r, hr, hskip⟩ := comma_gap style level t
  have hne : (some (',' : CodePoint)) ≠ some close := fun h => hclose (Option.some.inj h).symm
  rw [hr, entriesBehind, skipBlank_cons (by decide), List.head?_cons, if_neg hne, expect,
    if_pos rfl, ok_bind, hskip, ht]

end

theorem length_comma_pos (style : Style) : 0 < style.comma.length := by
  cases style <;> decide

/-! ## Numbers -/

/-- No number goes on with this text. -/
def EndsNumber (t : Text) : Prop :=
  ∀ c ∈ t.head?, Numeral.isDecimalDigit c = false ∧ c ≠ '.' ∧ c ≠ 'e' ∧ c ≠ 'E'

theorem span_digits {ds rest : Text} (hds : ∀ c ∈ ds, Numeral.isDecimalDigit c = true)
    (hrest : EndsNumber rest) :
    (ds ++ rest).takeWhile Numeral.isDecimalDigit = ds ∧
      (ds ++ rest).dropWhile Numeral.isDecimalDigit = rest := by
  rw [List.takeWhile_append_of_pos hds, List.dropWhile_append_of_pos hds]
  cases rest with
  | nil => simp
  | cons c rest =>
    have hc := (hrest c rfl).1
    simp [hc]

theorem integerPart?_decimal (n : Nat) {rest : Text} (hrest : EndsNumber rest) :
    integerPart? (Numeral.decimal n ++ rest) = some (Numeral.decimal n, rest) := by
  obtain ⟨c, cs, hcs, hzero⟩ := Numeral.decimal_eq_cons n
  have hdigits : ∀ d ∈ c :: cs, Numeral.isDecimalDigit d = true := by
    intro d hd
    rw [← hcs] at hd
    exact Numeral.isDecimalDigit_of_mem_decimal hd
  obtain ⟨hc, hds⟩ := List.forall_mem_cons.1 hdigits
  obtain ⟨htake, hdrop⟩ := span_digits hds hrest
  rw [hcs, List.cons_append, integerPart?]
  split
  · rename_i h
    rw [hzero h, List.nil_append]
  · simp only [htake, hdrop]

theorem fractionPart_of_ends {rest : Text} (h : EndsNumber rest) :
    fractionPart rest = ([], rest) := by
  cases rest with
  | nil => rfl
  | cons c rest =>
    have hc := (h c rfl).2.1
    simp [fractionPart, hc]

theorem exponentPart_of_ends {rest : Text} (h : EndsNumber rest) :
    exponentPart rest = (none, rest) := by
  cases rest with
  | nil => rfl
  | cons c rest =>
    obtain ⟨-, -, he, hE⟩ := h c rfl
    simp [exponentPart, he, hE]

theorem readNumber_decimal {limit n : Nat} (h : (Numeral.decimal n).length ≤ limit) {rest : Text}
    (hrest : EndsNumber rest) :
    readNumber limit (Numeral.decimal n ++ rest) = .ok (.int n, rest) ∧
      readNumber limit ('-' :: (Numeral.decimal n ++ rest)) = .ok (.int (-n), rest) := by
  have hminus : Numeral.isDecimalDigit '-' = false := by decide
  have hhead := Numeral.head?_decimal_append n rest hminus
  have hlimit := Nat.not_lt.2 h
  have hparts := integerPart?_decimal n hrest
  have hvalue := Numeral.ofDecimal_decimal n
  generalize Numeral.decimal n ++ rest = t at hhead hparts ⊢
  constructor
  · simp [readNumber, hhead, hparts, hlimit, hvalue, fractionPart_of_ends hrest,
      exponentPart_of_ends hrest]
  · simp [readNumber, hparts, hlimit, hvalue, fractionPart_of_ends hrest,
      exponentPart_of_ends hrest]

theorem readNumber_integer {limit : Nat} {n : Int}
    (h : (Numeral.decimal n.natAbs).length ≤ limit) {rest : Text} (hrest : EndsNumber rest) :
    readNumber limit (Numeral.integer n ++ rest) = .ok (.int n, rest) := by
  obtain ⟨hnat, hneg⟩ := readNumber_decimal h hrest
  rw [Numeral.integer]
  split
  · rename_i hn
    rw [List.cons_append, hneg]
    congr
    omega
  · rename_i hn
    rw [hnat]
    congr
    omega

/-- No word has a decimal digit in it, and so none is in front of a numeral. -/
theorem readWord?_of_digit {sign : Text} (hsign : sign.length < 2) {c : CodePoint}
    (hc : Numeral.isDecimalDigit c = true) (rest : Text) :
    readWord? (sign ++ c :: rest) = none := by
  have hwords : ∀ p ∈ spelled, 2 ≤ p.1.length ∧ ∀ d ∈ p.1, Numeral.isDecimalDigit d = false := by
    decide
  rw [readWord?, List.findSome?_eq_none_iff]
  rintro ⟨word, value⟩ hmem
  obtain ⟨hlength, hdigits⟩ := hwords _ hmem
  apply if_neg
  intro hword
  obtain ⟨left, hleft⟩ := List.isPrefixOf_iff_prefix.1 hword
  have hget : word[sign.length]? = some c := by
    have hlt : sign.length < word.length := Nat.lt_of_lt_of_le hsign hlength
    rw [← List.getElem?_append_left hlt, hleft]
    simp
  rw [hdigits c (List.mem_of_getElem? hget)] at hc
  cases hc

theorem readWord?_integer (n : Int) (rest : Text) :
    readWord? (Numeral.integer n ++ rest) = none := by
  obtain ⟨c, cs, hcs, -⟩ := Numeral.decimal_eq_cons n.natAbs
  have hc := Numeral.isDecimalDigit_of_mem_decimal (hcs ▸ List.mem_cons_self : c ∈ _)
  rw [Numeral.integer, hcs]
  split
  · exact readWord?_of_digit (show [('-' : CodePoint)].length < 2 by decide) hc (cs ++ rest)
  · exact readWord?_of_digit (show ([] : Text).length < 2 by decide) hc (cs ++ rest)

theorem endsNumber_nil : EndsNumber [] := nofun

theorem endsNumber_cons {c : CodePoint}
    (h : Numeral.isDecimalDigit c = false ∧ c ≠ '.' ∧ c ≠ 'e' ∧ c ≠ 'E') (t : Text) :
    EndsNumber (c :: t) := by
  intro d hd
  cases hd
  exact h

theorem endsNumber_gap {t : Text} (h : EndsNumber t) (style : Style) (level : Nat) :
    EndsNumber (style.gap level ++ t) := by
  cases style with
  | oneLine => exact h
  | indented => exact endsNumber_cons (c := '\n') (by decide) _

theorem le_length_writeString (t : Text) : t.length + 2 ≤ (writeString t).length := by
  have hle : t.length ≤ (t.flatMap writeCodePoint).length := by
    induction t with
    | nil => exact Nat.le_refl 0
    | cons c t ih =>
      have hc := (written_writeCodePoint c).length_pos
      rw [List.flatMap_cons, List.length_append, List.length_cons]
      omega
  simp only [writeString, List.length_append, List.length_cons, List.length_nil]
  omega

theorem le_length_writeName (name : Text) : name.length + 2 ≤ (writeName name).length := by
  rw [writeName, List.length_append]
  exact Nat.le_add_right_of_le (le_length_writeString name)

/-! ## Values -/

variable {limit : Nat}

/-- The value is read wherever it is written, if nothing that goes on with a number follows. -/
structure Reread (limit : Nat) (v : Json) : Prop where
  starts : ∀ style level, ∃ c r, writeAt style level v = c :: r ∧
    isBlank c = false ∧ c ≠ ']' ∧ c ≠ CodePoint.ofNat 0xFEFF
  reads : ∀ style level fuel rest, 2 * (writeAt style level v).length ≤ fuel → EndsNumber rest →
    readValue limit fuel (writeAt style level v ++ rest) = .ok (v, rest)

namespace Reread

variable {v : Json}

theorem skipBlank (h : Reread limit v) (style : Style) (level : Nat) (t : Text) :
    skipBlank (writeAt style level v ++ t) = writeAt style level v ++ t := by
  obtain ⟨c, r, hcons, hblank, -, -⟩ := h.starts style level
  rw [hcons, List.cons_append, skipBlank_cons hblank]

theorem head?_ne (h : Reread limit v) (style : Style) (level : Nat) (t : Text) :
    (writeAt style level v ++ t).head? ≠ some (']' : CodePoint) := by
  obtain ⟨c, r, hcons, -, hne, -⟩ := h.starts style level
  rw [hcons]
  simpa using hne

/-- No written value begins as a byte order mark does. -/
theorem head?_ne_mark (h : Reread limit v) (style : Style) (level : Nat) :
    (writeAt style level v).head? ≠ some (CodePoint.ofNat 0xFEFF) := by
  obtain ⟨c, r, hcons, -, -, hne⟩ := h.starts style level
  rw [hcons]
  simpa using hne

end Reread

/-- The rest of an array behind one of its items. -/
def itemsEnd (style : Style) (level : Nat) (items : List Json) (rest : Text) : Text :=
  writeItems style (level + 1) items ++ (style.gap level ++ (']' : CodePoint) :: rest)

theorem endsNumber_itemsEnd (style : Style) (level : Nat) (items : List Json) (rest : Text) :
    EndsNumber (itemsEnd style level items rest) := by
  cases items with
  | nil => exact endsNumber_gap (endsNumber_cons (c := ']') (by decide) rest) style level
  | cons v items =>
    cases style
    · exact endsNumber_cons (c := ',') (by decide) _
    · exact endsNumber_cons (c := ',') (by decide) _

theorem readItems_written {items : List Json} (style : Style) (level : Nat) (rest : Text)
    {v : Json} (hv : Reread limit v) (h : ∀ w ∈ items, Reread limit w) (fuel : Nat)
    (hfuel : 2 * ((writeAt style (level + 1) v).length +
      (writeItems style (level + 1) items).length) < fuel) :
    readItems limit fuel (writeAt style (level + 1) v ++ itemsEnd style level items rest) =
      .ok (v :: items, rest) := by
  obtain ⟨fuel, rfl⟩ : ∃ k, fuel = k + 1 := Nat.exists_eq_add_one.2 (by omega)
  have hends := endsNumber_itemsEnd style level items rest
  induction items generalizing v fuel with
  | nil =>
    rw [readItems_succ, hv.reads style _ fuel _ (by omega) hends, ok_bind]
    exact entriesBehind_close _ v (show isBlank ']' = false by decide) style level rest
  | cons w items ih =>
    obtain ⟨hw, hitems⟩ := List.forall_mem_cons.1 h
    have hnext : itemsEnd style level (w :: items) rest = style.comma ++ style.gap (level + 1) ++
        (writeAt style (level + 1) w ++ itemsEnd style level items rest) := by
      rw [itemsEnd, writeItems, itemsEnd]
      simp only [List.append_assoc]
    have hcomma := length_comma_pos style
    rw [writeItems] at hfuel
    simp only [List.length_append] at hfuel
    obtain ⟨fuel, rfl⟩ : ∃ k, fuel = k + 1 := Nat.exists_eq_add_one.2 (by omega)
    have hmore := ih hw hitems fuel (by omega) (endsNumber_itemsEnd style level items rest)
    rw [readItems_succ, hv.reads style _ _ _ (by omega) hends, ok_bind, hnext,
      entriesBehind_comma _ v (by decide) style _ (hw.skipBlank style _ _), hmore]
    rfl

/-- The rest of an object behind one of its members. -/
def membersEnd (style : Style) (level : Nat) (fields : List (Text × Json)) (rest : Text) : Text :=
  writeFields style (level + 1) fields ++ (style.gap level ++ ('}' : CodePoint) :: rest)

theorem endsNumber_membersEnd (style : Style) (level : Nat) (fields : List (Text × Json))
    (rest : Text) : EndsNumber (membersEnd style level fields rest) := by
  cases fields with
  | nil => exact endsNumber_gap (endsNumber_cons (c := '}') (by decide) rest) style level
  | cons f fields =>
    cases style
    · exact endsNumber_cons (c := ',') (by decide) _
    · exact endsNumber_cons (c := ',') (by decide) _

theorem writeName_append (name more : Text) : writeName name ++ more =
    ('"' : CodePoint) :: (name.flatMap writeCodePoint ++
      ('"' : CodePoint) :: (':' : CodePoint) :: (' ' : CodePoint) :: more) := by
  simp [writeName, writeString, Text.ofString]

theorem readMember_written {name : Text} {v : Json} (hname : name.Unpaired) (hv : Reread limit v)
    (style : Style) (level fuel : Nat) {more : Text}
    (hfuel : 2 * ((writeName name).length + (writeAt style level v).length) ≤ fuel)
    (hmore : EndsNumber more) :
    readMember limit fuel (writeName name ++ (writeAt style level v ++ more)) =
      .ok ((name, v), more) := by
  have hlength := le_length_writeName name
  have hread := hv.reads style level fuel more (by omega) hmore
  rw [writeName_append, readMember, expect, if_pos rfl, ok_bind,
    readString_writeCodePoints hname _ (by omega), ok_bind]
  dsimp only
  rw [skipBlank_cons (by decide), expect, if_pos rfl, ok_bind, skipBlank_space, hv.skipBlank, hread]
  rfl

theorem skipBlank_writeName (name more : Text) :
    skipBlank (writeName name ++ more) = writeName name ++ more := by
  rw [writeName_append, skipBlank_cons (by decide)]

theorem readMembers_written {fields : List (Text × Json)} (style : Style) (level : Nat)
    (rest : Text) {name : Text} {v : Json} (hname : name.Unpaired) (hv : Reread limit v)
    (hnames : ∀ f ∈ fields, f.1.Unpaired) (hvalues : ∀ f ∈ fields, Reread limit f.2)
    (fuel : Nat)
    (hfuel : 2 * ((writeName name).length + (writeAt style (level + 1) v).length +
      (writeFields style (level + 1) fields).length) < fuel) :
    readMembers limit fuel (writeName name ++ (writeAt style (level + 1) v ++
      membersEnd style level fields rest)) = .ok ((name, v) :: fields, rest) := by
  obtain ⟨fuel, rfl⟩ : ∃ k, fuel = k + 1 := Nat.exists_eq_add_one.2 (by omega)
  have hends := endsNumber_membersEnd style level fields rest
  induction fields generalizing name v fuel with
  | nil =>
    rw [readMembers_succ, readMember_written hname hv style _ fuel (by omega) hends, ok_bind]
    exact entriesBehind_close _ (name, v) (show isBlank '}' = false by decide) style level rest
  | cons f fields ih =>
    obtain ⟨k, w⟩ := f
    have hk : k.Unpaired := hnames (k, w) List.mem_cons_self
    have hw : Reread limit w := hvalues (k, w) List.mem_cons_self
    have hks := fun f hf => hnames f (List.mem_cons_of_mem (k, w) hf)
    have hws := fun f hf => hvalues f (List.mem_cons_of_mem (k, w) hf)
    have hnext : membersEnd style level ((k, w) :: fields) rest =
        style.comma ++ style.gap (level + 1) ++ (writeName k ++
          (writeAt style (level + 1) w ++ membersEnd style level fields rest)) := by
      rw [membersEnd, writeFields, membersEnd]
      simp only [List.append_assoc]
    have hcomma := length_comma_pos style
    rw [writeFields] at hfuel
    simp only [List.length_append] at hfuel
    obtain ⟨fuel, rfl⟩ : ∃ k, fuel = k + 1 := Nat.exists_eq_add_one.2 (by omega)
    have hmore := ih hk hw hks hws fuel (by omega) (endsNumber_membersEnd style level fields rest)
    rw [readMembers_succ, readMember_written hname hv style _ _ (by omega) hends, ok_bind, hnext,
      entriesBehind_comma _ (name, v) (by decide) style _ (skipBlank_writeName k _), hmore]
    rfl

theorem set_of_not_mem {fields : Fields} {name : Text} (h : name ∉ fields.map Prod.fst)
    (v : Json) : fields.set name v = fields ++ [(name, v)] := by
  induction fields with
  | nil => rfl
  | cons f fields ih =>
    obtain ⟨k, w⟩ := f
    simp only [List.map_cons, List.mem_cons, not_or] at h
    rw [Fields.set, if_neg (Ne.symm h.1), ih h.2, List.cons_append]

/-- Distinct names are kept with their values, in their order. -/
theorem ofList_of_nodup {fields : Fields} (h : (fields.map Prod.fst).Nodup) :
    Fields.ofList fields = fields := by
  have hfold : ∀ done : Fields, ((done ++ fields).map Prod.fst).Nodup →
      fields.foldl (fun all m => all.set m.1 m.2) done = done ++ fields := by
    clear h
    induction fields with
    | nil => simp
    | cons f fields ih =>
      intro done hdone
      have hname : f.1 ∉ done.map Prod.fst := by
        rw [List.map_append, List.map_cons, List.nodup_append'] at hdone
        intro hmem
        exact hdone.2.2 hmem List.mem_cons_self
      rw [List.foldl_cons, set_of_not_mem hname, ih]
      · simp
      · simpa using hdone
  exact hfold [] h

/-! ## Documents -/

theorem readWord?_null (rest : Text) :
    readWord? (Text.ofString "null" ++ rest) = some (.null, rest) := rfl

theorem readWord?_bool (value : Bool) (rest : Text) :
    readWord? (writeAt .oneLine 0 (.bool value) ++ rest) = some (.bool value, rest) := by
  cases value <;> rfl

theorem readValue_scalar {t : Text} {c : CodePoint} {r : Text} (ht : t = c :: r)
    (hc : c ≠ '"' ∧ c ≠ '[' ∧ c ≠ '{') (fuel : Nat) :
    readValue limit (fuel + 1) t =
      match readWord? t with
      | some found => .ok found
      | none => readNumber limit t := by
  subst ht
  obtain ⟨hquote, hbracket, hbrace⟩ := hc
  rw [readValue, if_neg hquote, if_neg hbracket]
  exact if_neg hbrace

theorem reread_word {v : Json} {word : Text} {c : CodePoint} {r : Text}
    (hword : ∀ style level, writeAt style level v = word) (hcons : word = c :: r)
    (hc : (isBlank c = false ∧ c ≠ ']' ∧ c ≠ CodePoint.ofNat 0xFEFF) ∧
      c ≠ '"' ∧ c ≠ '[' ∧ c ≠ '{')
    (hread : ∀ rest, readWord? (word ++ rest) = some (v, rest)) : Reread limit v where
  starts style level := ⟨c, r, (hword style level).trans hcons, hc.1⟩
  reads style level fuel rest hfuel _ := by
    rw [hword, hcons] at hfuel
    obtain ⟨fuel, rfl⟩ : ∃ k, fuel = k + 1 :=
      Nat.exists_eq_add_one.2 (by simp only [List.length_cons] at hfuel; omega)
    have hstart : word ++ rest = c :: (r ++ rest) := by rw [hcons, List.cons_append]
    rw [hword, readValue_scalar hstart hc.2, hread]

/-- A numeral begins with no other value. -/
theorem integer_eq_cons (n : Int) : ∃ c r, Numeral.integer n = c :: r ∧
    (isBlank c = false ∧ c ≠ ']' ∧ c ≠ CodePoint.ofNat 0xFEFF) ∧
      c ≠ '"' ∧ c ≠ '[' ∧ c ≠ '{' := by
  obtain ⟨c, cs, hcs, -⟩ := Numeral.decimal_eq_cons n.natAbs
  have hc := Numeral.isDecimalDigit_of_mem_decimal (hcs ▸ List.mem_cons_self : c ∈ _)
  have hne : ∀ d, Numeral.isDecimalDigit d = false → c ≠ d := by
    rintro d hd rfl
    rw [hc] at hd
    cases hd
  rw [Numeral.integer]
  split
  · exact ⟨'-', _, rfl, by decide⟩
  · refine ⟨c, cs, hcs, ⟨?_, hne _ (by decide), hne _ (by decide)⟩, hne _ (by decide),
      hne _ (by decide), hne _ (by decide)⟩
    simp only [Numeral.isDecimalDigit, Bool.and_eq_true, decide_eq_true_eq] at hc
    simp only [isBlank, Bool.or_eq_false_iff, beq_eq_false_iff_ne]
    omega

theorem reread_integer {n : Int} (h : (Numeral.decimal n.natAbs).length ≤ limit) :
    Reread limit (.int n) := by
  obtain ⟨c, r, hcons, hc⟩ := integer_eq_cons n
  constructor
  · intro style level
    exact ⟨c, r, hcons, hc.1⟩
  · intro style level fuel rest hfuel hrest
    rw [writeAt] at hfuel ⊢
    rw [hcons, List.length_cons] at hfuel
    obtain ⟨fuel, rfl⟩ : ∃ k, fuel = k + 1 := Nat.exists_eq_add_one.2 (by omega)
    have hhead : Numeral.integer n ++ rest = c :: (r ++ rest) := by rw [hcons, List.cons_append]
    rw [readValue_scalar hhead hc.2, readWord?_integer, readNumber_integer h hrest]

theorem reread_string {t : Text} (h : t.Unpaired) : Reread limit (.str t) := by
  constructor
  · intro style level
    exact ⟨'"', _, rfl, by decide⟩
  · intro style level fuel rest hfuel _
    have hlength := le_length_writeString t
    rw [writeAt] at hfuel ⊢
    obtain ⟨fuel, rfl⟩ : ∃ k, fuel = k + 1 := Nat.exists_eq_add_one.2 (by omega)
    have hwritten : writeString t ++ rest =
        ('"' : CodePoint) :: (t.flatMap writeCodePoint ++ ('"' : CodePoint) :: rest) := by
      simp [writeString]
    rw [hwritten, readValue, if_pos rfl, readString_writeCodePoints h _ (by omega)]
    rfl

theorem readValue_array {t : Text} (h : (skipBlank t).head? ≠ some (']' : CodePoint))
    (fuel : Nat) : readValue limit (fuel + 1) (('[' : CodePoint) :: t) = (do
      let (items, rest) ← readItems limit fuel (skipBlank t)
      .ok (.arr items, rest)) := by
  rw [readValue, if_neg (by decide), if_pos rfl]
  exact if_neg h

theorem readValue_object {t : Text} (h : (skipBlank t).head? ≠ some ('}' : CodePoint))
    (fuel : Nat) : readValue limit (fuel + 1) (('{' : CodePoint) :: t) = (do
      let (members, rest) ← readMembers limit fuel (skipBlank t)
      .ok (.obj (Fields.ofList members), rest)) := by
  rw [readValue, if_neg (by decide), if_neg (by decide), if_pos rfl]
  exact if_neg h

theorem reread_array {items : List Json} (h : ∀ v ∈ items, Reread limit v) :
    Reread limit (.arr items) := by
  cases items with
  | nil =>
    constructor
    · intro style level
      exact ⟨'[', _, rfl, by decide⟩
    · intro style level fuel rest hfuel _
      have htwo : 2 * 2 ≤ fuel := hfuel
      obtain ⟨fuel, rfl⟩ : ∃ k, fuel = k + 1 := Nat.exists_eq_add_one.2 (by omega)
      have hwritten : writeAt style level (.arr []) ++ rest =
          ('[' : CodePoint) :: (']' : CodePoint) :: rest := rfl
      rw [hwritten, readValue, if_neg (by decide), if_pos rfl]
      rfl
  | cons v items =>
    obtain ⟨hv, hvs⟩ := List.forall_mem_cons.1 h
    constructor
    · intro style level
      exact ⟨'[', _, by rw [writeAt]; rfl, by decide⟩
    · intro style level fuel rest hfuel _
      have hwritten : writeAt style level (.arr (v :: items)) ++ rest = ('[' : CodePoint) ::
          (style.gap (level + 1) ++ (writeAt style (level + 1) v ++
            itemsEnd style level items rest)) := by
        rw [writeAt, itemsEnd]
        simp only [List.cons_append, List.append_assoc, List.nil_append]
      rw [writeAt] at hfuel
      simp only [List.length_append, List.length_cons] at hfuel
      obtain ⟨fuel, rfl⟩ : ∃ k, fuel = k + 1 := Nat.exists_eq_add_one.2 (by omega)
      have hread := readItems_written style level rest hv hvs fuel (by omega)
      have hskip := (skipBlank_gap style (level + 1) _).trans
        (hv.skipBlank style (level + 1) (itemsEnd style level items rest))
      rw [hwritten, readValue_array, hskip, hread]
      · rfl
      · rw [hskip]
        exact hv.head?_ne style _ _

theorem reread_object {fields : List (Text × Json)} (distinct : (fields.map Prod.fst).Nodup)
    (hnames : ∀ f ∈ fields, f.1.Unpaired) (hvalues : ∀ f ∈ fields, Reread limit f.2) :
    Reread limit (.obj fields) := by
  cases fields with
  | nil =>
    constructor
    · intro style level
      exact ⟨'{', _, rfl, by decide⟩
    · intro style level fuel rest hfuel _
      have htwo : 2 * 2 ≤ fuel := hfuel
      obtain ⟨fuel, rfl⟩ : ∃ k, fuel = k + 1 := Nat.exists_eq_add_one.2 (by omega)
      have hwritten : writeAt style level (.obj []) ++ rest =
          ('{' : CodePoint) :: ('}' : CodePoint) :: rest := rfl
      rw [hwritten, readValue, if_neg (by decide), if_neg (by decide), if_pos rfl]
      rfl
  | cons f fields =>
    obtain ⟨k, v⟩ := f
    have hk : k.Unpaired := hnames (k, v) List.mem_cons_self
    have hv : Reread limit v := hvalues (k, v) List.mem_cons_self
    have hks := fun f hf => hnames f (List.mem_cons_of_mem (k, v) hf)
    have hvs := fun f hf => hvalues f (List.mem_cons_of_mem (k, v) hf)
    constructor
    · intro style level
      exact ⟨'{', _, by rw [writeAt]; rfl, by decide⟩
    · intro style level fuel rest hfuel _
      have hwritten : writeAt style level (.obj ((k, v) :: fields)) ++ rest = ('{' : CodePoint) ::
          (style.gap (level + 1) ++ (writeName k ++ (writeAt style (level + 1) v ++
            membersEnd style level fields rest))) := by
        rw [writeAt, membersEnd]
        simp only [List.cons_append, List.append_assoc, List.nil_append]
      rw [writeAt] at hfuel
      simp only [List.length_append, List.length_cons] at hfuel
      obtain ⟨fuel, rfl⟩ : ∃ k, fuel = k + 1 := Nat.exists_eq_add_one.2 (by omega)
      have hread := readMembers_written style level rest hk hv hks hvs fuel (by omega)
      have hskip := (skipBlank_gap style (level + 1) _).trans (skipBlank_writeName k
        (writeAt style (level + 1) v ++ membersEnd style level fields rest))
      rw [hwritten, readValue_object, hskip, hread]
      · rw [ok_bind]
        dsimp only
        rw [ofList_of_nodup distinct]
      · rw [hskip, writeName_append, List.head?_cons]
        decide

theorem Plain.reread {v : Json} (h : Plain Text.Unpaired limit v) : Reread limit v := by
  induction h with
  | null => exact reread_word (fun _ _ => rfl) rfl (by decide) readWord?_null
  | bool value =>
    cases value with
    | false => exact reread_word (fun _ _ => rfl) rfl (by decide) (readWord?_bool false)
    | true => exact reread_word (fun _ _ => rfl) rfl (by decide) (readWord?_bool true)
  | int digits => exact reread_integer digits
  | str text => exact reread_string text
  | arr _ ih => exact reread_array ih
  | obj distinct names _ ih => exact reread_object distinct names ih

/-- A document is read back from its text in either style. -/
theorem read_write {v : Json} (h : Plain Text.Unpaired limit v) (style : Style) :
    read limit (write style v) = .ok v := by
  have hv := h.reread
  have hread := hv.reads style 0 (enough (write style v)) [] (by simp only [enough, write]; omega)
    endsNumber_nil
  have hskip := hv.skipBlank style 0 []
  rw [List.append_nil] at hread hskip
  have hmark : (write style v).head? ≠ some (CodePoint.ofNat 0xFEFF) := hv.head?_ne_mark style 0
  rw [read, if_neg hmark, readDocument]
  unfold write at hread ⊢
  rw [hskip, hread]
  rfl

end StarkReplay.Json
