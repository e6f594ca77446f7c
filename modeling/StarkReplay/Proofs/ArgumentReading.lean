import StarkReplay.Arguments
import StarkReplay.Proofs.FeltText
import StarkReplay.Proofs.Outcome
import StarkReplay.Proofs.Words

/-!
Program arguments, read from the left. A word in front of a break gives its tokens in front of those
of what follows. `Accepts` says what the reader makes of the text that is left, outside an array or
inside one, and the reader is shown to say the same.
-/
namespace StarkReplay

namespace Arguments

open Text (Breaks Solid)

theorem tokens_blank {c : CodePoint} (hc : Text.isBlank c = true) (r : Text) :
    tokens (c :: r) = tokens r := by
  rw [tokens, Text.words_blank hc, tokens]

theorem tokens_word {w r : Text} (hw : Solid w) (hne : w ≠ []) (hr : Breaks r) :
    tokens (w ++ r) = wordTokens w ++ tokens r := by
  rw [tokens, Text.words_append hw hne hr, List.flatMap_cons, tokens]

/-! ## One word -/

theorem wordTokens_opening (w : Text) :
    wordTokens (('[' : CodePoint) :: w) = .opening :: bodyTokens w := rfl

theorem wordTokens_of_head {w : Text} (h : w.head? ≠ some ('[' : CodePoint)) :
    wordTokens w = bodyTokens w :=
  if_neg h

theorem bodyTokens_closed {w : Text} (h : w ≠ []) :
    bodyTokens (w ++ [(']' : CodePoint)]) = [.ofText w, .closing] := by
  simp [bodyTokens, h]

theorem bodyTokens_concat {w : Text} {c : CodePoint} (hc : c ≠ ']') :
    bodyTokens (w ++ [c]) = [.ofText (w ++ [c])] := by
  simp [bodyTokens, hc]

theorem ofText_of_ne {w : Text} (ho : w ≠ [('[' : CodePoint)]) (hc : w ≠ [(']' : CodePoint)]) :
    Token.ofText w = .numeral w := by
  simp [Token.ofText, ho, hc]

/-! ## Brackets and numerals at the front -/

/-- Neither a blank nor a bracket among the code points. -/
def Plain (w : Text) : Prop := Solid w ∧ ∀ c ∈ w, c ≠ '[' ∧ c ≠ ']'

/-- What may follow a numeral: a break, or a closing bracket in front of one. -/
def Ends (r : Text) : Prop := Breaks r ∨ ∃ rest, r = (']' : CodePoint) :: rest ∧ Breaks rest

theorem ne_brackets {p : CodePoint → Bool} (ho : p '[' = false) (hc : p ']' = false)
    {c : CodePoint} (h : p c = true) : c ≠ '[' ∧ c ≠ ']' := by
  constructor
  · rintro rfl
    rw [ho] at h
    cases h
  · rintro rfl
    rw [hc] at h
    cases h

theorem tokens_opening {r : Text} (h : r.head? ≠ some ('[' : CodePoint)) :
    tokens (('[' : CodePoint) :: r) = .opening :: tokens r := by
  obtain ⟨w, rest, rfl, hw, hrest⟩ := Text.exists_word r
  have hword : Solid (('[' : CodePoint) :: w) := List.forall_mem_cons.2 ⟨by decide, hw⟩
  rw [← List.cons_append, tokens_word hword (by simp) hrest, wordTokens_opening, List.cons_append]
  cases w with
  | nil => rfl
  | cons c w =>
    have hhead : (c :: w).head? ≠ some ('[' : CodePoint) := h
    rw [tokens_word hw (by simp) hrest, wordTokens_of_head hhead]

theorem solid_closing : Solid [(']' : CodePoint)] := by
  intro c hc
  cases List.mem_singleton.1 hc
  rfl

theorem tokens_closing {r : Text} (hr : Breaks r) :
    tokens ((']' : CodePoint) :: r) = .closing :: tokens r :=
  tokens_word solid_closing (by simp) hr

theorem tokens_numeral {w r : Text} (hw : Plain w) (hne : w ≠ []) (hr : Ends r) :
    tokens (w ++ r) = .numeral w :: tokens r := by
  obtain ⟨hsolid, hplain⟩ := hw
  have hnumeral : Token.ofText w = .numeral w :=
    ofText_of_ne (by rintro rfl; exact (hplain _ (by simp)).1 rfl)
      (by rintro rfl; exact (hplain _ (by simp)).2 rfl)
  have hhead : ∀ s : Text, (w ++ s).head? ≠ some ('[' : CodePoint) := by
    intro s h
    cases w with
    | nil => exact hne rfl
    | cons c w => exact (hplain c (by simp)).1 (Option.some.inj h)
  rcases hr with hr | ⟨rest, rfl, hrest⟩
  · have hbody : bodyTokens w = [.ofText w] := by
      obtain ⟨b, c, rfl⟩ := (List.eq_nil_or_concat w).resolve_left hne
      rw [List.concat_eq_append] at *
      exact bodyTokens_concat (hplain c (by simp)).2
    have hw := hhead []
    rw [List.append_nil] at hw
    rw [tokens_word hsolid hne hr, wordTokens_of_head hw, hbody, hnumeral]
    rfl
  · have hword : Solid (w ++ [(']' : CodePoint)]) :=
      List.forall_mem_append.2 ⟨hsolid, solid_closing⟩
    rw [List.append_cons, tokens_word hword (by simp) hrest, wordTokens_of_head (hhead _),
      bodyTokens_closed hne, hnumeral, tokens_closing hrest]
    rfl

/-! ## Words that are no numeral -/

/-- After one opening bracket a second one is left standing, alone or in front of a numeral. -/
theorem exists_tokens_opening_opening (r : Text) :
    ∃ b ts, Solid b ∧ tokens (('[' : CodePoint) :: ('[' : CodePoint) :: r) =
      .opening :: .ofText (('[' : CodePoint) :: b) :: ts := by
  obtain ⟨w, rest, rfl, hw, hrest⟩ := Text.exists_word r
  have hword : Solid (('[' : CodePoint) :: ('[' : CodePoint) :: w) :=
    List.forall_mem_cons.2 ⟨by decide, List.forall_mem_cons.2 ⟨by decide, hw⟩⟩
  have htokens := tokens_word hword (by simp) hrest
  rw [wordTokens_opening] at htokens
  rcases List.eq_nil_or_concat w with rfl | ⟨b, c, rfl⟩
  · exact ⟨[], tokens rest, hw, htokens⟩
  rw [List.concat_eq_append] at *
  by_cases hc : c = (']' : CodePoint)
  · subst hc
    refine ⟨b, .closing :: tokens rest, fun d hd => hw d (List.mem_append_left _ hd), ?_⟩
    rw [← List.cons_append, bodyTokens_closed (by simp)] at htokens
    exact htokens
  · refine ⟨b ++ [c], tokens rest, hw, ?_⟩
    rw [← List.cons_append, bodyTokens_concat hc] at htokens
    exact htokens

/-- The tokens of a word without an opening bracket in front: what stands before a closing bracket
at its end is a second one or taken for a numeral. -/
inductive Word : Text → List Token → Prop
  | closing : Word [(']' : CodePoint)] [.closing]
  | doubled : Word [(']' : CodePoint), (']' : CodePoint)] [.closing, .closing]
  | closed {w : Text} : w ≠ [] → Word (w ++ [(']' : CodePoint)]) [.numeral w, .closing]
  | numeral {w : Text} : Word w [.numeral w]

theorem word_wordTokens {w : Text} (hne : w ≠ []) (h : w.head? ≠ some ('[' : CodePoint)) :
    Word w (wordTokens w) := by
  have hopening : ∀ b s : Text, w = b ++ s → b ≠ [('[' : CodePoint)] := by
    rintro b s rfl rfl
    exact h rfl
  rw [wordTokens_of_head h]
  obtain ⟨b, c, rfl⟩ := (List.eq_nil_or_concat w).resolve_left hne
  rw [List.concat_eq_append] at *
  by_cases hc : c = (']' : CodePoint)
  · subst hc
    by_cases hb : b = []
    · subst hb
      exact .closing
    rw [bodyTokens_closed hb]
    by_cases hsecond : b = [(']' : CodePoint)]
    · subst hsecond
      exact .doubled
    · rw [ofText_of_ne (hopening b _ rfl) hsecond]
      exact .closed hb
  · have hsecond : b ++ [c] ≠ [] ++ [(']' : CodePoint)] := fun heq =>
      hc (List.cons.inj (List.append_inj' heq rfl).2).1
    rw [bodyTokens_concat hc, ofText_of_ne (hopening _ [] (by simp)) hsecond]
    exact .numeral

/-! ## What is accepted -/

/-- A word without brackets that is read as the felt `v`. -/
def SpellsFelt (w : Text) (v : Int) : Prop := Plain w ∧ Felt.ofText w = .ok v

/-- The arguments that the rest of a text is read as. Inside an array, the state holds its items so
far, the last one first. -/
inductive Accepts : Option (List Int) → Text → List Argument → Prop
  | done : Accepts none [] []
  | unclosed {items : List Int} : Accepts (some items) [] [.array items.reverse]
  | blank {state : Option (List Int)} {c : CodePoint} {r : Text} {args : List Argument} :
      Text.isBlank c = true → Accepts state r args → Accepts state (c :: r) args
  | opening {r : Text} {args : List Argument} :
      r.head? ≠ some ('[' : CodePoint) → Accepts (some []) r args →
        Accepts none (('[' : CodePoint) :: r) args
  | closing {items : List Int} {r : Text} {args : List Argument} :
      Breaks r → Accepts none r args →
        Accepts (some items) ((']' : CodePoint) :: r) (.array items.reverse :: args)
  | felt {w r : Text} {v : Int} {args : List Argument} :
      SpellsFelt w v → Breaks r → Accepts none r args → Accepts none (w ++ r) (.felt v :: args)
  | item {items : List Int} {w r : Text} {v : Int} {args : List Argument} :
      SpellsFelt w v → Ends r → Accepts (some (v :: items)) r args →
        Accepts (some items) (w ++ r) args

theorem isNumeralSign_of_ofText {w : Text} {v : Int} (hw : Solid w) (h : Felt.ofText w = .ok v) :
    w ≠ [] ∧ ∀ c ∈ w, Felt.isNumeralSign c = true := by
  obtain ⟨n, hn, -, -⟩ := Felt.ofText_eq_ok.1 h
  rw [Text.strip_eq_self hw] at hn
  exact ⟨Felt.ne_nil_of_natOfText hn, Felt.isNumeralSign_of_natOfText hn⟩

/-- No bracket stands in a numeral. -/
theorem spellsFelt_of_ofText {w : Text} {v : Int} (hw : Solid w) (h : Felt.ofText w = .ok v) :
    SpellsFelt w v := by
  refine ⟨⟨hw, fun c hc => ?_⟩, h⟩
  have hsign := (isNumeralSign_of_ofText hw h).2 c hc
  exact ne_brackets rfl rfl hsign

theorem SpellsFelt.ne_nil {w : Text} {v : Int} (h : SpellsFelt w v) : w ≠ [] :=
  (isNumeralSign_of_ofText h.1.1 h.2).1

/-! ## What is read -/

theorem collect_closing_eq_ok {whole : Text} {items : List Int} {ts : List Token}
    {args : List Argument} :
    collect whole (some items) (.closing :: ts) = .ok args ↔
      ∃ rest, collect whole none ts = .ok rest ∧ args = .array items.reverse :: rest := by
  simp only [collect, bind_eq_ok, pure_eq_ok, @eq_comm _ _ args]

theorem collect_felt_eq_ok {whole w : Text} {ts : List Token} {args : List Argument} :
    collect whole none (.numeral w :: ts) = .ok args ↔
      ∃ v, Felt.ofText w = .ok v ∧
        ∃ rest, collect whole none ts = .ok rest ∧ args = .felt v :: rest := by
  simp only [collect, feltOf, bind_eq_ok, mapError_eq_ok, pure_eq_ok, @eq_comm _ _ args]

theorem collect_item_eq_ok {whole w : Text} {items : List Int} {ts : List Token}
    {args : List Argument} :
    collect whole (some items) (.numeral w :: ts) = .ok args ↔
      ∃ v, Felt.ofText w = .ok v ∧ collect whole (some (v :: items)) ts = .ok args := by
  simp only [collect, feltOf, bind_eq_ok, mapError_eq_ok]

theorem collect_of_accepts {whole r : Text} {state : Option (List Int)} {args : List Argument}
    (h : Accepts state r args) : collect whole state (tokens r) = .ok args := by
  induction h with
  | done => rfl
  | unclosed => rfl
  | blank hc _ ih =>
    rw [tokens_blank hc]
    exact ih
  | opening hr _ ih =>
    rw [tokens_opening hr]
    exact ih
  | closing hr _ ih =>
    rw [tokens_closing hr]
    exact collect_closing_eq_ok.2 ⟨_, ih, rfl⟩
  | felt hw hr _ ih =>
    rw [tokens_numeral hw.1 hw.ne_nil (.inl hr)]
    exact collect_felt_eq_ok.2 ⟨_, hw.2, _, ih, rfl⟩
  | item hw hr _ ih =>
    rw [tokens_numeral hw.1 hw.ne_nil hr]
    exact collect_item_eq_ok.2 ⟨_, hw.2, ih⟩

/-- Nothing that begins with an opening bracket is an item of an array. -/
theorem collect_ofText_ne_ok {whole b : Text} {items : List Int} {ts : List Token}
    {args : List Argument} (hb : Solid b) :
    collect whole (some items) (.ofText (('[' : CodePoint) :: b) :: ts) ≠ .ok args := by
  intro h
  by_cases hnil : b = []
  · subst hnil
    cases h
  rw [ofText_of_ne (by simp [hnil]) (by simp [hnil])] at h
  obtain ⟨v, hv, -⟩ := collect_item_eq_ok.1 h
  have hword : Solid (('[' : CodePoint) :: b) := List.forall_mem_cons.2 ⟨by decide, hb⟩
  exact ((spellsFelt_of_ofText hword hv).1.2 _ List.mem_cons_self).1 rfl

/-- Whatever is read of `r` is accepted. -/
def Sound (whole r : Text) : Prop :=
  ∀ state args, collect whole state (tokens r) = .ok args → Accepts state r args

theorem sound_opening {whole r : Text} (ih : Sound whole r) :
    Sound whole (('[' : CodePoint) :: r) := by
  intro state args h
  by_cases hr : r.head? = some ('[' : CodePoint)
  · obtain ⟨r, rfl⟩ := List.head?_eq_some_iff.1 hr
    obtain ⟨b, ts, hb, htokens⟩ := exists_tokens_opening_opening r
    rw [htokens] at h
    cases state with
    | none => exact absurd h (collect_ofText_ne_ok hb)
    | some items => cases h
  · rw [tokens_opening hr] at h
    cases state with
    | none => exact .opening hr (ih _ _ h)
    | some items => cases h

theorem sound_word {whole w r : Text} (hw : Solid w) (hne : w ≠ [])
    (hhead : w.head? ≠ some ('[' : CodePoint)) (hr : Breaks r)
    (ih : ∀ s, s.length < (w ++ r).length → Sound whole s) : Sound whole (w ++ r) := by
  intro state args h
  have hrest : Sound whole r := ih r (by simpa using List.length_pos_iff.2 hne)
  have hclosing := tokens_closing hr
  rw [tokens_word hw hne hr] at h
  have hword := word_wordTokens hne hhead
  generalize wordTokens w = ts at h hword
  cases hword with
  | closing =>
    cases state with
    | none => cases h
    | some items =>
      obtain ⟨rest, hargs, rfl⟩ := collect_closing_eq_ok.1 h
      exact .closing hr (hrest _ _ hargs)
  | doubled =>
    cases state with
    | none => cases h
    | some items =>
      obtain ⟨rest, hargs, rfl⟩ := collect_closing_eq_ok.1 h
      cases hargs
  | @closed w hnumeral =>
    have hbody : Solid w := fun c hc => hw c (List.mem_append_left _ hc)
    cases state with
    | none =>
      obtain ⟨v, hv, rest, hargs, rfl⟩ := collect_felt_eq_ok.1 h
      cases hargs
    | some items =>
      obtain ⟨v, hv, hargs⟩ := collect_item_eq_ok.1 h
      have hbracket : Sound whole ((']' : CodePoint) :: r) := by
        have hpos := List.length_pos_iff.2 hnumeral
        refine ih _ ?_
        simp only [List.length_append, List.length_cons, List.length_nil]
        omega
      rw [← List.append_cons]
      refine .item (spellsFelt_of_ofText hbody hv) (.inr ⟨r, rfl, hr⟩) (hbracket _ _ ?_)
      rw [hclosing]
      exact hargs
  | numeral =>
    cases state with
    | none =>
      obtain ⟨v, hv, rest, hargs, rfl⟩ := collect_felt_eq_ok.1 h
      exact .felt (spellsFelt_of_ofText hw hv) hr (hrest _ _ hargs)
    | some items =>
      obtain ⟨v, hv, hargs⟩ := collect_item_eq_ok.1 h
      exact .item (spellsFelt_of_ofText hw hv) (.inl hr) (hrest _ _ hargs)

theorem sound (whole r : Text) : Sound whole r := by
  -- A numeral is taken off as a whole, so the induction is on the length of what is left.
  induction hn : r.length using Nat.strong_induction_on generalizing r with
  | h n ih =>
    subst hn
    cases r with
    | nil =>
      intro state args h
      cases state with
      | none =>
        cases h
        exact .done
      | some items =>
        cases h
        exact .unclosed
    | cons c r =>
      have hr : Sound whole r := ih _ (by simp) r rfl
      by_cases hblank : Text.isBlank c = true
      · intro state args h
        rw [tokens_blank hblank] at h
        exact .blank hblank (hr _ _ h)
      by_cases hopening : c = ('[' : CodePoint)
      · subst hopening
        exact sound_opening hr
      obtain ⟨w, rest, hword, hw, hrest⟩ := Text.exists_word (c :: r)
      cases w with
      | nil =>
        rw [List.nil_append] at hword
        subst hword
        exact absurd (Text.breaks_cons.1 hrest) hblank
      | cons d w =>
        obtain ⟨rfl, rfl⟩ : c = d ∧ r = w ++ rest := by simpa using hword
        exact sound_word hw (by simp) (by simpa using hopening) hrest fun s hs => ih _ hs s rfl

/-- The reader takes a text exactly if the text is accepted, with the same arguments. -/
theorem collect_eq_ok {whole r : Text} {state : Option (List Int)} {args : List Argument} :
    collect whole state (tokens r) = .ok args ↔ Accepts state r args :=
  ⟨sound whole r state args, collect_of_accepts⟩

end Arguments

end StarkReplay
