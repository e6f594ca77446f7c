import StarkReplay.Proofs.ArgumentReading

/-!
The grammar of program arguments: felts and arrays of felts with blanks between them, where the
bracket at the end may be missing. A text is read if and only if the grammar gives it; every other
text is refused for a bracket in the wrong place or a word that is no felt.
-/
namespace StarkReplay

namespace Arguments

open Text (Breaks Solid)

/-! ## The grammar -/

/-- Blanks only. -/
def Gap (t : Text) : Prop := ∀ c ∈ t, Text.isBlank c = true

section

variable {α : Type}

/-- Texts one after another, each with its meaning, and some blanks between neighbours. -/
inductive Separated (P : Text → α → Prop) : Text → List α → Prop
  | nil : Separated P [] []
  | single {t : Text} {a : α} : P t a → Separated P t [a]
  | cons {t gap rest : Text} {a b : α} {as : List α} :
      P t a → Gap gap → gap ≠ [] → Separated P rest (b :: as) →
        Separated P (t ++ (gap ++ rest)) (a :: b :: as)

/-- The same with blanks, or none, at the two ends. -/
def Spaced (P : Text → α → Prop) (t : Text) (as : List α) : Prop :=
  ∃ before body after, t = before ++ (body ++ after) ∧ Gap before ∧ Gap after ∧
    Separated P body as

end

inductive SpellsArgument : Text → Argument → Prop
  | felt {t : Text} {v : Int} : SpellsFelt t v → SpellsArgument t (.felt v)
  | array {inner : Text} {items : List Int} : Spaced SpellsFelt inner items →
      SpellsArgument (('[' : CodePoint) :: (inner ++ [(']' : CodePoint)])) (.array items)

/-- Arguments with blanks between and around them. A closing bracket that would be the last code
point may be missing. -/
def Written (t : Text) (args : List Argument) : Prop :=
  Spaced SpellsArgument t args ∨ Spaced SpellsArgument (t ++ [(']' : CodePoint)]) args

/-! ## Texts with blanks at their ends -/

section

variable {α : Type} {P : Text → α → Prop}

theorem spaced_nil : Spaced P [] [] := ⟨[], [], [], rfl, nofun, nofun, .nil⟩

theorem Spaced.blank {c : CodePoint} {t : Text} {as : List α} (hc : Text.isBlank c = true)
    (h : Spaced P t as) : Spaced P (c :: t) as := by
  obtain ⟨before, body, after, rfl, hbefore, hafter, hbody⟩ := h
  exact ⟨c :: before, body, after, rfl, List.forall_mem_cons.2 ⟨hc, hbefore⟩, hafter, hbody⟩

theorem Separated.exists_append {body : Text} {a : α} {as : List α}
    (h : Separated P body (a :: as)) : ∃ t s, P t a ∧ body = t ++ s := by
  cases h with
  | single ht => exact ⟨_, [], ht, (List.append_nil _).symm⟩
  | cons ht => exact ⟨_, _, ht, rfl⟩

/-- A text with a meaning is not empty, and no blank stands in front. -/
def Headed (P : Text → α → Prop) : Prop := ∀ t a, P t a → ∀ s, ¬Breaks (t ++ s)

/-- Where a break is, the blanks in front of the next text cannot be missing. -/
theorem Spaced.cons {t r : Text} {a : α} {as : List α} (hP : Headed P) (ht : P t a)
    (hr : Breaks r) (h : Spaced P r as) : Spaced P (t ++ r) (a :: as) := by
  obtain ⟨before, body, after, rfl, hbefore, hafter, hbody⟩ := h
  cases as with
  | nil =>
    cases hbody
    refine ⟨[], t, before ++ after, rfl, nofun, ?_, .single ht⟩
    exact List.forall_mem_append.2 ⟨hbefore, hafter⟩
  | cons b as =>
    obtain ⟨t', s, ht', rfl⟩ := hbody.exists_append
    have hne : before ≠ [] := by
      rintro rfl
      refine hP t' b ht' (s ++ after) ?_
      simpa using hr
    refine ⟨[], t ++ (before ++ (t' ++ s)), after, by simp, nofun, hafter, ?_⟩
    exact .cons ht hbefore hne hbody

end

theorem breaks_gap {gap : Text} (h : Gap gap) (hne : gap ≠ []) (r : Text) : Breaks (gap ++ r) := by
  cases gap with
  | nil => exact absurd rfl hne
  | cons c gap => exact Text.breaks_cons.2 (h c List.mem_cons_self)

theorem headed_spellsFelt : Headed SpellsFelt := by
  intro t v h s hbreaks
  have hne := h.ne_nil
  cases t with
  | nil => exact hne rfl
  | cons c t =>
    have hc := h.1.1 c List.mem_cons_self
    rw [Text.breaks_cons.1 hbreaks] at hc
    cases hc

theorem headed_spellsArgument : Headed SpellsArgument := by
  intro t a h s
  cases h with
  | felt hv => exact headed_spellsFelt _ _ hv s
  | array => exact fun hbreaks => absurd (Text.breaks_cons.1 hbreaks) (by decide)

theorem Gap.not_bracket {t : Text} (h : Gap t) : ∀ c ∈ t, c ≠ '[' ∧ c ≠ ']' :=
  fun c hc => ne_brackets rfl rfl (h c hc)

theorem Separated.not_bracket {t : Text} {items : List Int} (h : Separated SpellsFelt t items) :
    ∀ c ∈ t, c ≠ '[' ∧ c ≠ ']' := by
  induction h with
  | nil => nofun
  | single ht => exact ht.1.2
  | cons ht hgap _ _ ih =>
    exact List.forall_mem_append.2 ⟨ht.1.2, List.forall_mem_append.2 ⟨hgap.not_bracket, ih⟩⟩

theorem Spaced.not_bracket {t : Text} {items : List Int} (h : Spaced SpellsFelt t items) :
    ∀ c ∈ t, c ≠ '[' ∧ c ≠ ']' := by
  obtain ⟨before, body, after, rfl, hbefore, hafter, hbody⟩ := h
  exact List.forall_mem_append.2
    ⟨hbefore.not_bracket, List.forall_mem_append.2 ⟨hbody.not_bracket, hafter.not_bracket⟩⟩

/-! ## What the grammar gives is accepted -/

theorem accepts_gap {state : Option (List Int)} {gap r : Text} {args : List Argument}
    (hgap : Gap gap) (h : Accepts state r args) : Accepts state (gap ++ r) args := by
  induction gap with
  | nil => exact h
  | cons c gap ih =>
    obtain ⟨hc, hgap⟩ := List.forall_mem_cons.1 hgap
    exact .blank hc (ih hgap)

theorem accepts_items {body : Text} {more : List Int} (hbody : Separated SpellsFelt body more)
    {items : List Int} {r : Text} {args : List Argument} (hr : Ends r)
    (h : Accepts (some (more.reverse ++ items)) r args) :
    Accepts (some items) (body ++ r) args := by
  induction hbody generalizing items with
  | nil => exact h
  | single ht => exact .item ht hr h
  | @cons t gap rest v w more ht hgap hne hrest ih =>
    have hitems : (v :: w :: more).reverse ++ items = (w :: more).reverse ++ (v :: items) := by
      simp
    rw [hitems] at h
    rw [List.append_assoc, List.append_assoc]
    exact .item ht (.inl (breaks_gap hgap hne _)) (accepts_gap hgap (ih h))

theorem accepts_array {inner r : Text} {items : List Int} {args : List Argument}
    (hinner : Spaced SpellsFelt inner items) (hr : Breaks r) (h : Accepts none r args) :
    Accepts none (('[' : CodePoint) :: (inner ++ [(']' : CodePoint)]) ++ r)
      (.array items :: args) := by
  have hhead : (inner ++ ((']' : CodePoint) :: r)).head? ≠ some ('[' : CodePoint) := by
    intro hhead
    cases inner with
    | nil => cases hhead
    | cons c inner => exact (hinner.not_bracket c List.mem_cons_self).1 (Option.some.inj hhead)
  rw [List.cons_append, List.append_assoc]
  refine .opening hhead ?_
  obtain ⟨before, body, after, rfl, hbefore, hafter, hbody⟩ := hinner
  have hclosing : Accepts (some (items.reverse ++ [])) ((']' : CodePoint) :: r)
      (.array items :: args) := by
    have haccepts : Accepts (some items.reverse) ((']' : CodePoint) :: r)
        (.array items.reverse.reverse :: args) := .closing hr h
    rw [List.reverse_reverse] at haccepts
    rw [List.append_nil]
    exact haccepts
  have hends : Ends (after ++ ((']' : CodePoint) :: r)) := by
    by_cases hne : after = []
    · subst hne
      exact .inr ⟨r, rfl, hr⟩
    · exact .inl (breaks_gap hafter hne _)
  have hitems := accepts_gap hbefore (accepts_items hbody hends (accepts_gap hafter hclosing))
  simpa using hitems

theorem accepts_argument {t r : Text} {a : Argument} {args : List Argument}
    (ht : SpellsArgument t a) (hr : Breaks r) (h : Accepts none r args) :
    Accepts none (t ++ r) (a :: args) := by
  cases ht with
  | felt hv => exact .felt hv hr h
  | array hinner => exact accepts_array hinner hr h

theorem accepts_arguments {body : Text} {as : List Argument}
    (hbody : Separated SpellsArgument body as) {r : Text} {args : List Argument} (hr : Breaks r)
    (h : Accepts none r args) : Accepts none (body ++ r) (as ++ args) := by
  induction hbody with
  | nil => exact h
  | single ht => exact accepts_argument ht hr h
  | cons ht hgap hne _ ih =>
    rw [List.append_assoc, List.append_assoc]
    exact accepts_argument ht (breaks_gap hgap hne _) (accepts_gap hgap ih)

theorem accepts_of_spaced {t : Text} {args : List Argument} (h : Spaced SpellsArgument t args) :
    Accepts none t args := by
  obtain ⟨before, body, after, rfl, hbefore, hafter, hbody⟩ := h
  have hend : Accepts none after [] := by
    have haccepts := accepts_gap hafter .done
    rwa [List.append_nil] at haccepts
  have hbreaks : Breaks after := fun c hc => hafter c (List.mem_of_mem_head? hc)
  have haccepts := accepts_arguments hbody hbreaks hend
  rw [List.append_nil] at haccepts
  exact accepts_gap hbefore haccepts

/-! ## What is accepted has the form of the grammar -/

/-- The text `r` as it is, or with a bracket at its end. Outside an array there has to be something
that the bracket closes. -/
def Completes (state : Option (List Int)) (r t : Text) : Prop :=
  t = r ∨ (t = r ++ [(']' : CodePoint)] ∧ (state = none → r ≠ []))

theorem Completes.append {state state' : Option (List Int)} {w r t : Text}
    (h : Completes state r t) (hw : w ≠ []) : Completes state' (w ++ r) (w ++ t) := by
  rcases h with rfl | ⟨rfl, -⟩
  · exact .inl rfl
  · refine .inr ⟨(List.append_assoc _ _ _).symm, fun _ hnil => hw ?_⟩
    exact (List.append_eq_nil_iff.1 hnil).1

theorem Completes.breaks {r t : Text} (h : Completes none r t) (hr : Breaks r) : Breaks t := by
  rcases h with rfl | ⟨rfl, hne⟩
  · exact hr
  · cases r with
    | nil => exact absurd rfl (hne rfl)
    | cons c r => exact Text.breaks_cons.2 (Text.breaks_cons.1 hr)

/-- What follows a numeral begins with a blank or a closing bracket. -/
theorem Completes.head {state : Option (List Int)} {r t : Text} (h : Completes state r t)
    (hr : Ends r) : ∀ c ∈ t.head?, Text.isBlank c = true ∨ c = ']' := by
  intro c hc
  rcases hr with hr | ⟨rest, rfl, -⟩
  · rcases h with rfl | ⟨rfl, -⟩
    · exact .inl (hr c hc)
    · cases r with
      | nil => exact .inr (Option.some.inj hc).symm
      | cons d r => exact .inl (hr c hc)
  · rcases h with rfl | ⟨rfl, -⟩
    · exact .inr (Option.some.inj hc).symm
    · exact .inr (Option.some.inj hc).symm

/-- The text that is left, the missing bracket included. Inside an array its items come first. -/
def Shape : Option (List Int) → Text → List Argument → Prop
  | none, t, args => Spaced SpellsArgument t args
  | some items, t, args => ∃ inner r more rest,
      t = inner ++ ((']' : CodePoint) :: r) ∧ args = .array (items.reverse ++ more) :: rest ∧
        Spaced SpellsFelt inner more ∧ Breaks r ∧ Spaced SpellsArgument r rest

theorem Shape.blank {state : Option (List Int)} {c : CodePoint} {t : Text} {args : List Argument}
    (hc : Text.isBlank c = true) (h : Shape state t args) : Shape state (c :: t) args := by
  cases state with
  | none => exact Spaced.blank hc h
  | some items =>
    obtain ⟨inner, r, more, rest, rfl, hargs, hinner, hr, hrest⟩ := h
    exact ⟨c :: inner, r, more, rest, rfl, hargs, hinner.blank hc, hr, hrest⟩

theorem Shape.opening {t : Text} {args : List Argument} (h : Shape (some []) t args) :
    Shape none (('[' : CodePoint) :: t) args := by
  obtain ⟨inner, r, more, rest, rfl, rfl, hinner, hr, hrest⟩ := h
  have hspaced := Spaced.cons headed_spellsArgument (.array hinner) hr hrest
  simpa [Shape] using hspaced

theorem Shape.item {items : List Int} {w t : Text} {v : Int} {args : List Argument}
    (hw : SpellsFelt w v) (hhead : ∀ c ∈ t.head?, Text.isBlank c = true ∨ c = ']')
    (h : Shape (some (v :: items)) t args) : Shape (some items) (w ++ t) args := by
  obtain ⟨inner, r, more, rest, rfl, rfl, hinner, hr, hrest⟩ := h
  have hbreaks : Breaks inner := by
    cases inner with
    | nil => exact Text.breaks_nil
    | cons c inner =>
      refine Text.breaks_cons.2 ((hhead c rfl).resolve_right ?_)
      exact (hinner.not_bracket c List.mem_cons_self).2
  have hspaced := Spaced.cons headed_spellsFelt hw hbreaks hinner
  have hitems : (v :: items).reverse ++ more = items.reverse ++ (v :: more) := by simp
  rw [hitems]
  exact ⟨w ++ inner, r, v :: more, rest, (List.append_assoc _ _ _).symm, rfl, hspaced, hr, hrest⟩

theorem Accepts.exists_shape {state : Option (List Int)} {r : Text} {args : List Argument}
    (h : Accepts state r args) : ∃ t, Completes state r t ∧ Shape state t args := by
  induction h with
  | done => exact ⟨[], .inl rfl, spaced_nil⟩
  | @unclosed items =>
    refine ⟨[(']' : CodePoint)], .inr ⟨rfl, nofun⟩, [], [], [], [], rfl, ?_, spaced_nil,
      Text.breaks_nil, spaced_nil⟩
    rw [List.append_nil]
  | @blank _ c _ _ hc _ ih =>
    obtain ⟨t, ht, hshape⟩ := ih
    exact ⟨c :: t, ht.append (List.cons_ne_nil c []), hshape.blank hc⟩
  | opening _ _ ih =>
    obtain ⟨t, ht, hshape⟩ := ih
    exact ⟨('[' : CodePoint) :: t, ht.append (List.cons_ne_nil _ []), hshape.opening⟩
  | @closing items r rest hr _ ih =>
    obtain ⟨t, ht, hshape⟩ := ih
    refine ⟨(']' : CodePoint) :: t, ht.append (List.cons_ne_nil _ []), [], t, [], rest, rfl, ?_,
      spaced_nil, ht.breaks hr, hshape⟩
    rw [List.append_nil]
  | felt hw hr _ ih =>
    obtain ⟨t, ht, hshape⟩ := ih
    exact ⟨_, ht.append hw.ne_nil,
      Spaced.cons headed_spellsArgument (.felt hw) (ht.breaks hr) hshape⟩
  | item hw hr _ ih =>
    obtain ⟨t, ht, hshape⟩ := ih
    exact ⟨_, ht.append hw.ne_nil, hshape.item hw (ht.head hr)⟩

theorem written_of_accepts {t : Text} {args : List Argument} (h : Accepts none t args) :
    Written t args := by
  obtain ⟨s, rfl | ⟨rfl, -⟩, hs⟩ := h.exists_shape
  · exact .inl hs
  · exact .inr hs

/-! ## A missing bracket -/

theorem Ends.of_append {r : Text} (h : Ends (r ++ [(']' : CodePoint)])) : Ends r := by
  rcases h with h | ⟨rest, hr, hrest⟩
  · exact .inl h.of_append
  · cases r with
    | nil => exact .inl Text.breaks_nil
    | cons c r =>
      obtain ⟨rfl, rfl⟩ := List.cons.inj hr
      exact .inr ⟨r, rfl, hrest.of_append⟩

/-- A bracket at the end of a text does not belong to the numeral at its front. -/
theorem exists_append_closing {w r t : Text} (hw : Plain w)
    (h : t ++ [(']' : CodePoint)] = w ++ r) : ∃ s, r = s ++ [(']' : CodePoint)] ∧ t = w ++ s := by
  rcases List.eq_nil_or_concat r with rfl | ⟨s, c, rfl⟩
  · rw [List.append_nil] at h
    refine absurd rfl (hw.2 ']' ?_).2
    rw [← h]
    exact List.mem_append_right _ List.mem_cons_self
  · rw [List.concat_eq_append, ← List.append_assoc] at h
    obtain ⟨rfl, hc⟩ := List.append_inj' h rfl
    rw [List.concat_eq_append, ← hc]
    exact ⟨s, rfl, rfl⟩

theorem accepts_nil {args : List Argument} (h : Accepts none [] args) : args = [] := by
  have hcollect : collect [] none (tokens []) = .ok args := collect_of_accepts h
  cases hcollect
  rfl

/-- A closing bracket at the end of a text can be left out: it closes the array that the text ends
in. -/
theorem Accepts.without_closing {state : Option (List Int)} {t : Text} {args : List Argument}
    (h : Accepts state (t ++ [(']' : CodePoint)]) args) : Accepts state t args := by
  -- The bracket stays at the end of what is left, until nothing else is left of it.
  generalize htext : t ++ [(']' : CodePoint)] = r at h
  induction h generalizing t with
  | done => exact absurd htext (by simp)
  | unclosed => exact absurd htext (by simp)
  | blank hc _ ih =>
    cases t with
    | nil =>
      obtain ⟨rfl, rfl⟩ := List.cons.inj htext
      exact absurd hc (by decide)
    | cons d t =>
      obtain ⟨rfl, rfl⟩ := List.cons.inj htext
      exact .blank hc (ih rfl)
  | opening hr _ ih =>
    cases t with
    | nil => exact absurd (List.cons.inj htext).1 (by decide)
    | cons d t =>
      obtain ⟨rfl, rfl⟩ := List.cons.inj htext
      refine .opening (fun hhead => hr ?_) (ih rfl)
      show (t ++ [(']' : CodePoint)]).head? = some ('[' : CodePoint)
      rw [List.head?_append, hhead]
      rfl
  | closing hr hrest ih =>
    cases t with
    | nil =>
      obtain ⟨-, rfl⟩ := List.cons.inj htext
      rw [accepts_nil hrest]
      exact .unclosed
    | cons d t =>
      obtain ⟨rfl, rfl⟩ := List.cons.inj htext
      exact .closing hr.of_append (ih rfl)
  | felt hw hr _ ih =>
    obtain ⟨s, rfl, rfl⟩ := exists_append_closing hw.1 htext
    exact .felt hw hr.of_append (ih rfl)
  | item hw hr _ ih =>
    obtain ⟨s, rfl, rfl⟩ := exists_append_closing hw.1 htext
    exact .item hw hr.of_append (ih rfl)

theorem accepts_of_written {t : Text} {args : List Argument} (h : Written t args) :
    Accepts none t args := by
  rcases h with h | h
  · exact accepts_of_spaced h
  · exact (accepts_of_spaced h).without_closing

theorem parse_eq_ok {t : Text} {args : List Argument} : parse t = .ok args ↔ Written t args :=
  collect_eq_ok.trans ⟨written_of_accepts, accepts_of_written⟩

/-! ## Refusals -/

/-- Why a text is refused: a bracket in the wrong place, or a word that is no felt. -/
inductive Refused (t : Text) : ParseError → Prop
  | nested : .opening ∈ tokens t → Refused t (.nestedArray t)
  | unmatched : .closing ∈ tokens t → Refused t (.unmatchedBracket t)
  | notAFelt {w : Text} : .numeral w ∈ tokens t → (∀ v, Felt.ofText w ≠ .ok v) →
      Refused t (.notAFelt w)

theorem feltOf_eq_error {w : Text} {e : ParseError} (h : feltOf w = .error e) :
    e = .notAFelt w ∧ ∀ v, Felt.ofText w ≠ .ok v := by
  unfold feltOf at h
  cases hw : Felt.ofText w with
  | ok v =>
    rw [hw] at h
    cases h
  | error cause =>
    rw [hw] at h
    cases h
    exact ⟨rfl, nofun⟩

/-- A numeral among the tokens is refused only if it is no felt. -/
theorem refused_of_feltOf {t w : Text} {e : ParseError} (hw : .numeral w ∈ tokens t)
    (h : feltOf w = .error e) : Refused t e := by
  obtain ⟨rfl, hfelt⟩ := feltOf_eq_error h
  exact .notAFelt hw hfelt

theorem refused_of_collect {t : Text} {state : Option (List Int)} {ts : List Token}
    {e : ParseError} (hts : ts ⊆ tokens t) (h : collect t state ts = .error e) : Refused t e := by
  induction ts generalizing state with
  | nil => cases state <;> cases h
  | cons token ts ih =>
    obtain ⟨htoken, hrest⟩ := List.cons_subset.1 hts
    cases token with
    | opening =>
      cases state with
      | none => exact ih hrest h
      | some items =>
        cases h
        exact .nested htoken
    | closing =>
      cases state with
      | none =>
        cases h
        exact .unmatched htoken
      | some items =>
        rcases bind_eq_error.1 h with h | ⟨args, -, h⟩
        · exact ih hrest h
        · cases h
    | numeral w =>
      cases state with
      | none =>
        rcases bind_eq_error.1 h with h | ⟨v, -, h⟩
        · exact refused_of_feltOf htoken h
        rcases bind_eq_error.1 h with h | ⟨args, -, h⟩
        · exact ih hrest h
        · cases h
      | some items =>
        rcases bind_eq_error.1 h with h | ⟨v, -, h⟩
        · exact refused_of_feltOf htoken h
        · exact ih hrest h

theorem refused_of_not_written {t : Text} (h : ∀ args, ¬Written t args) :
    ∃ e, parse t = .error e ∧ Refused t e := by
  cases hparse : parse t with
  | ok args => exact absurd (parse_eq_ok.1 hparse) (h args)
  | error e => exact ⟨e, rfl, refused_of_collect (List.Subset.refl _) hparse⟩

end Arguments

end StarkReplay
