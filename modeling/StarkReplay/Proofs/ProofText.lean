import StarkReplay.Failure.Message
import StarkReplay.Proof.Text
import StarkReplay.Proofs.JsonDocuments

/-!
Proof texts, read as documents. Which sections a text gives, and which failure it gives otherwise,
depends on the document alone that it spells; a failure of the text as a whole shows a piece of it.
-/
namespace StarkReplay

namespace Json.Fields

variable {fields : Json.Fields} {name : Text}

theorem get?_eq_none : fields.get? name = none ↔ ∀ v, (name, v) ∉ fields := by
  induction fields with
  | nil => simp [get?]
  | cons field fields ih =>
    obtain ⟨k, w⟩ := field
    by_cases hk : k = name
    · subst hk
      rw [get?, if_pos rfl]
      constructor
      · intro h
        cases h
      · intro h
        exact absurd List.mem_cons_self (h w)
    · simp [get?, hk, Ne.symm hk, ih]

/-- Where the names are distinct, a name has the value it stands with. -/
theorem get?_eq_some (distinct : (fields.map Prod.fst).Nodup) {v : Json} :
    fields.get? name = some v ↔ (name, v) ∈ fields := by
  induction fields with
  | nil => simp [get?]
  | cons field fields ih =>
    obtain ⟨k, w⟩ := field
    rw [List.map_cons, List.nodup_cons] at distinct
    by_cases hk : k = name
    · subst hk
      have hfresh : (k, v) ∉ fields := fun hmem =>
        distinct.1 (List.mem_map.2 ⟨(k, v), hmem, rfl⟩)
      simp [get?, hfresh, eq_comm]
    · simp [get?, hk, Ne.symm hk, ih distinct.2]

theorem map_fst_set (fields : Json.Fields) (name : Text) (v : Json) :
    (fields.set name v).map Prod.fst =
      if name ∈ fields.map Prod.fst then fields.map Prod.fst
      else fields.map Prod.fst ++ [name] := by
  induction fields with
  | nil => rfl
  | cons field fields ih =>
    obtain ⟨k, w⟩ := field
    by_cases hk : k = name
    · simp [set, hk]
    · simp only [set, if_neg hk, List.map_cons, ih, List.mem_cons, Ne.symm hk, false_or]
      split <;> rfl

theorem nodup_set (distinct : (fields.map Prod.fst).Nodup) (name : Text) (v : Json) :
    ((fields.set name v).map Prod.fst).Nodup := by
  rw [map_fst_set]
  split
  · exact distinct
  · rename_i hnew
    exact List.nodup_append'.2 ⟨distinct, List.nodup_singleton _, by simpa using hnew⟩

theorem nodup_ofList (members : List (Text × Json)) :
    ((ofList members).map Prod.fst).Nodup := by
  have hfold : ∀ done : Json.Fields, (done.map Prod.fst).Nodup →
      ((members.foldl (fun all m => all.set m.1 m.2) done).map Prod.fst).Nodup := by
    induction members with
    | nil => exact fun _ h => h
    | cons m members ih => exact fun done hdone => ih _ (nodup_set hdone m.1 m.2)
  exact hfold [] List.nodup_nil

end Json.Fields

namespace Json

theorem readWord?_ne_obj {t rest : Text} {fields : Fields} :
    readWord? t ≠ some (.obj fields, rest) := by
  have hspelled : ∀ p ∈ spelled, ∀ fields, p.2 ≠ .obj fields := by
    simp [spelled]
  intro h
  obtain ⟨⟨word, v⟩, hmem, hv⟩ := List.exists_of_findSome?_eq_some h
  dsimp only at hv
  split at hv
  · cases hv
    exact hspelled _ hmem fields rfl
  · cases hv

theorem readNumber_ne_obj {limit : Nat} {t rest : Text} {fields : Fields} :
    readNumber limit t ≠ .ok (.obj fields, rest) := by
  rw [readNumber]
  repeat' split
  all_goals
    intro h
    cases h

/-- Only braces are read as an object, and its names are distinct. -/
theorem nodup_of_readValue {limit fuel : Nat} {t rest : Text} {fields : Fields}
    (h : readValue limit fuel t = .ok (.obj fields, rest)) : (fields.map Prod.fst).Nodup := by
  cases fuel with
  | zero => cases h
  | succ fuel =>
    cases t with
    | nil => cases h
    | cons c t =>
      rw [readValue] at h
      split at h
      · obtain ⟨_, -, h⟩ := bind_eq_ok.1 h
        cases h
      · split at h
        · dsimp only at h
          split at h
          · cases h
          · obtain ⟨_, -, h⟩ := bind_eq_ok.1 h
            cases h
        · split at h
          · dsimp only at h
            split at h
            · cases h
              exact List.nodup_nil
            · obtain ⟨⟨members, _⟩, -, h⟩ := bind_eq_ok.1 h
              cases h
              exact Fields.nodup_ofList members
          · split at h
            · rename_i hword
              cases h
              exact absurd hword readWord?_ne_obj
            · exact absurd h readNumber_ne_obj

theorem nodup_of_read {limit : Nat} {t : Text} {fields : Fields}
    (h : read limit t = .ok (.obj fields)) : (fields.map Prod.fst).Nodup := by
  rw [read] at h
  split at h
  · cases h
  · rw [mapError_eq_ok, readDocument] at h
    obtain ⟨⟨v, rest⟩, hread, h⟩ := bind_eq_ok.1 h
    dsimp only at h
    split at h
    · cases h
      exact nodup_of_readValue hread
    · cases h

end Json

/-- The text as a whole is at fault: it spells no document, a numeral too long or no object. -/
def ParseError.Malformed : ParseError → Prop
  | invalidJson _ _ | longNumeral _ _ | notAnObject _ => True
  | _ => False

namespace Proof

/-! ## Sections -/

/-- The sections, in the order in which they are looked for. -/
def sectionNames : List Text := ["config", "public_input", "unsent_commitment", "witness"]

/-- The fields hold the sections of the proof under their names. -/
structure HeldBy (fields : Json.Fields) (p : Proof) : Prop where
  config : (Text.ofString "config", .arr p.config) ∈ fields
  publicInput : (Text.ofString "public_input", .arr p.publicInput) ∈ fields
  unsentCommitment : (Text.ofString "unsent_commitment", .arr p.unsentCommitment) ∈ fields
  witness : (Text.ofString "witness", .arr p.witness) ∈ fields

/-- What is wrong with one section, and what a failure shows of it. -/
inductive SectionFault (fields : Json.Fields) (name : Text) (e : ParseError) : Prop where
  | missing (absent : ∀ v, (name, v) ∉ fields) (cause : e = .missingSection name)
      (shown : e.fragment = name)
  | notArray {v : Json} (present : (name, v) ∈ fields) (other : ∀ items, v ≠ .arr items)
      (cause : e = .sectionNotArray name e.fragment)
      (shown : e.fragment = (v.write .oneLine).take 48)

/-- The failure tells of the first section that is missing or not an array. -/
def FirstFault (fields : Json.Fields) (e : ParseError) : Prop :=
  ∃ before name after, sectionNames = before ++ name :: after ∧
    (∀ other ∈ before, ∃ items, (other, .arr items) ∈ fields) ∧ SectionFault fields name e

variable {fields : Json.Fields} {name : Text}

theorem sectionOf_eq_ok (distinct : (fields.map Prod.fst).Nodup) {items : List Json} :
    sectionOf fields name = .ok items ↔ (name, .arr items) ∈ fields := by
  rw [← Json.Fields.get?_eq_some distinct, sectionOf]
  split <;> simp_all

theorem sectionOf_eq_error (distinct : (fields.map Prod.fst).Nodup) {e : ParseError} :
    sectionOf fields name = .error e ↔ SectionFault fields name e := by
  constructor
  · intro h
    rw [sectionOf] at h
    split at h
    · rename_i hnone
      cases h
      exact .missing (Json.Fields.get?_eq_none.1 hnone) rfl rfl
    · cases h
    · rename_i v hother hsome
      cases h
      exact .notArray ((Json.Fields.get?_eq_some distinct).1 hsome)
        (fun items heq => hother items heq) rfl rfl
  · rintro (⟨absent, rfl, -⟩ | ⟨present, other, cause, shown⟩)
    · rw [sectionOf, Json.Fields.get?_eq_none.2 absent]
    · rw [sectionOf, (Json.Fields.get?_eq_some distinct).2 present, cause, shown]
      split
      · rename_i hnone
        cases hnone
      · rename_i items hsome
        cases hsome
        exact absurd rfl (other items)
      · rename_i hsome
        cases hsome
        rfl

theorem ofDocument_eq_ok (distinct : (fields.map Prod.fst).Nodup) (t : Text) {p : Proof} :
    ofDocument t (.obj fields) = .ok p ↔ HeldBy fields p := by
  simp only [ofDocument, bind_eq_ok, pure_eq_ok, sectionOf_eq_ok distinct]
  constructor
  · rintro ⟨config, hconfig, publicInput, hpublic, commitments, hcommitments, witness, hwitness,
      rfl⟩
    exact ⟨hconfig, hpublic, hcommitments, hwitness⟩
  · intro h
    exact ⟨_, h.config, _, h.publicInput, _, h.unsentCommitment, _, h.witness, rfl⟩

/-- The first item with `Q` of a list, if all items before it have `P`. -/
theorem exists_first_cons {α : Type} {P Q : α → Prop} {x : α} {xs : List α} :
    (∃ before a after, x :: xs = before ++ a :: after ∧ (∀ b ∈ before, P b) ∧ Q a) ↔
      Q x ∨ P x ∧ ∃ before a after, xs = before ++ a :: after ∧ (∀ b ∈ before, P b) ∧ Q a := by
  constructor
  · rintro ⟨before, a, after, hsplit, hbefore, ha⟩
    cases before with
    | nil =>
      cases hsplit
      exact .inl ha
    | cons b before =>
      cases hsplit
      obtain ⟨hb, hbefore⟩ := List.forall_mem_cons.1 hbefore
      exact .inr ⟨hb, before, a, after, rfl, hbefore, ha⟩
  · rintro (hx | ⟨hx, before, a, after, rfl, hbefore, ha⟩)
    · exact ⟨[], x, xs, rfl, nofun, hx⟩
    · exact ⟨x :: before, a, after, rfl, List.forall_mem_cons.2 ⟨hx, hbefore⟩, ha⟩

theorem ofDocument_eq_error (distinct : (fields.map Prod.fst).Nodup) (t : Text) {e : ParseError} :
    ofDocument t (.obj fields) = .error e ↔ FirstFault fields e := by
  simp only [ofDocument, FirstFault, sectionNames, exists_first_cons, bind_eq_error,
    sectionOf_eq_ok distinct, sectionOf_eq_error distinct]
  simp [pure, Except.pure]

/-! ## Texts -/

theorem fragment_infix (t : Text) (position : Nat) : fragment t position <:+: t :=
  (List.take_prefix _ _).isInfix.trans (List.drop_suffix _ _).isInfix

theorem length_fragment_le (t : Text) (position : Nat) : (fragment t position).length ≤ 48 := by
  simp only [fragment, fragmentLength, List.length_take]
  omega

theorem parse_write (hplain : Json.Plain Text.Scalar 4300 (.obj fields)) :
    parse (Json.write .oneLine (.obj fields)) =
      ofDocument (Json.write .oneLine (.obj fields)) (.obj fields) := by
  have hread := Json.read_write (hplain.imp fun _ => Text.Scalar.unpaired) .oneLine
  rw [parse, Numeral.maxDigits, hread]

/-- What the failure for a text shows: a piece of it if the text as a whole is at fault, and else
the section that is. -/
def Concerns (t : Text) (e : ParseError) : Prop :=
  (e.Malformed ∧ e.fragment <:+: t ∧ e.fragment.length ≤ 48) ∨
    ∃ fields, Json.read Numeral.maxDigits t = .ok (.obj fields) ∧ FirstFault fields e

theorem concerns_of_parse {t : Text} {e : ParseError} (h : parse t = .error e) : Concerns t e := by
  rw [parse] at h
  split at h
  · rename_i cause position _
    cases h
    exact .inl ⟨trivial, fragment_infix t position, length_fragment_le t position⟩
  · cases h
    exact .inl ⟨trivial, (List.take_prefix _ t).isInfix, List.length_take_le _ t⟩
  · rename_i document hread
    cases document with
    | obj fields =>
      have distinct := Json.nodup_of_read hread
      exact .inr ⟨fields, hread, (ofDocument_eq_error distinct t).1 h⟩
    | _ =>
      cases h
      exact .inl ⟨trivial, (List.take_prefix _ t).isInfix, List.length_take_le _ t⟩

/-- The text of a document gives the proof whose sections the document holds, and if it holds none
the failure for the first section that is missing or not an array. Every text gives a proof or a
failure that shows what it concerns, and neither depends on the turns that the reader has for it. -/
theorem parse_inverts_write :
    (∀ fields, Json.Plain Text.Scalar 4300 (.obj fields) →
      (∀ p, parse (Json.write .oneLine (.obj fields)) = .ok p ↔ HeldBy fields p) ∧
      ∀ e, parse (Json.write .oneLine (.obj fields)) = .error e ↔ FirstFault fields e) ∧
    ∀ t, ((∃ p, parse t = .ok p) ∨ ∃ e, parse t = .error e ∧ Concerns t e) ∧
      ∀ fuel, Json.enough t ≤ fuel →
        Json.readValue Numeral.maxDigits fuel (Json.skipBlank t) =
          Json.readValue Numeral.maxDigits (Json.enough t) (Json.skipBlank t) := by
  constructor
  · intro fields hplain
    have distinct : (fields.map Prod.fst).Nodup := by
      cases hplain with
      | obj distinct _ _ => exact distinct
    rw [parse_write hplain]
    exact ⟨fun p => ofDocument_eq_ok distinct _, fun e => ofDocument_eq_error distinct _⟩
  · intro t
    refine ⟨?_, fun fuel hfuel => Json.readValue_of_enough _ t hfuel⟩
    rcases h : parse t with e | p
    · exact .inr ⟨e, rfl, concerns_of_parse h⟩
    · exact .inl ⟨p, rfl⟩

/-- The sections in another order, a field that is no section, and characters that are escaped. -/
def smallDocument : Json.Fields :=
  [("witness", .arr [.null, .bool true]),
    ("note", .obj [("\u00e9\"", .int (-7)), ([CodePoint.ofNat 0x1F600], .str "\\")]),
    ("config", .arr [.int 5, .arr []]), ("public_input", .arr [.str "a\n"]),
    ("unsent_commitment", .arr [])]

theorem plain_smallDocument : Json.Plain Text.Scalar 4300 (.obj smallDocument) := by
  refine .obj (by decide) (by simp only [Text.Scalar]; decide) ?_
  simp only [smallDocument, List.forall_mem_cons]
  refine ⟨.arr ?_, .obj (by decide) (by simp only [Text.Scalar]; decide) ?_, .arr ?_, .arr ?_,
    .arr nofun, nofun⟩
  · exact List.forall_mem_cons.2 ⟨.null, List.forall_mem_singleton.2 (.bool true)⟩
  · refine List.forall_mem_cons.2 ⟨.int (by decide), List.forall_mem_singleton.2 (.str ?_)⟩
    simp only [Text.Scalar]
    decide
  · exact List.forall_mem_cons.2 ⟨.int (by decide), List.forall_mem_singleton.2 (.arr nofun)⟩
  · refine List.forall_mem_singleton.2 (.str ?_)
    simp only [Text.Scalar]
    decide

theorem parse_inverts_write_small :
    Json.Plain Text.Scalar 4300 (.obj smallDocument) ∧
      parse (Json.write .oneLine (.obj smallDocument)) =
        .ok ⟨[.int 5, .arr []], [.str "a\n"], [], [.null, .bool true]⟩ ∧
      Json.enough ("[" : Text) ≤ 5 ∧
      Json.readValue Numeral.maxDigits 5 (Json.skipBlank "[") =
        Json.readValue Numeral.maxDigits (Json.enough "[") (Json.skipBlank "[") := by
  have hfuel : Json.enough ("[" : Text) ≤ 5 := by decide
  refine ⟨plain_smallDocument, ?_, hfuel, (parse_inverts_write.2 _).2 5 hfuel⟩
  refine ((parse_inverts_write.1 smallDocument plain_smallDocument).1 _).2 ?_
  constructor <;> simp [smallDocument]

end Proof

end StarkReplay
