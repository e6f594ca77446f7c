import StarkReplay.Proofs.FeltText
import StarkReplay.Proofs.JsonFields
import StarkReplay.Prover.Documents

/-!
Public inputs with their memory marked. In each item of the public memory a text that does not
begin with the mark of hexadecimal numerals gets it in front; every other value, all names and all
orders stay. What is marked is not marked again, and a run of hexadecimal digits is read as its
number afterwards, whether it had the mark before or not.
-/
namespace StarkReplay.Prover

open Json (Fields)
open Json.Fields (Updates Performs updates_iff)

/-! ## What may change -/

/-- A text gets the mark in front. -/
inductive MarksValue : Json → Json → Prop
  | marked {t : Text} : ¬hexMark <+: t → MarksValue (.str t) (.str (hexMark ++ t))

/-- An object may have its value marked; any other item stays. -/
inductive MarksItem : Json → Json → Prop
  | object {fields fields' : Fields} : Updates "value" MarksValue fields fields' →
      MarksItem (.obj fields) (.obj fields')
  | other {v : Json} : (∀ fields, v ≠ .obj fields) → MarksItem v v

/-- The items of a list are marked one by one. -/
inductive MarksItems : Json → Json → Prop
  | list {items items' : List Json} : List.Forall₂ MarksItem items items' →
      MarksItems (.arr items) (.arr items')

/-- The items of the public memory are marked, and nothing else changes. -/
def MarksMemory : Fields → Fields → Prop := Updates "public_memory" MarksItems

/-! ## What does change -/

theorem markValue_str (t : Text) :
    markValue (.str t) = .str (if hexMark <+: t then t else hexMark ++ t) := by
  simp only [markValue, List.isPrefixOf_iff_prefix]
  split <;> rfl

theorem performs_markValue : Performs markValue MarksValue where
  unique := by
    rintro _ _ ⟨h⟩
    rw [markValue_str, if_neg h]
  total v := by
    cases v with
    | str t =>
      rw [markValue_str]
      by_cases h : hexMark <+: t
      · right
        rw [if_pos h]
        refine ⟨rfl, ?_⟩
        rintro _ ⟨hnot⟩
        exact hnot h
      · left
        rw [if_neg h]
        exact .marked h
    | _ => exact .inr ⟨rfl, nofun⟩

theorem markItem_obj (fields : Fields) :
    markItem (.obj fields) = .obj (fields.update "value" markValue) := by
  cases h : fields.get? "value" <;> simp [markItem, Fields.update, h]

theorem marksItem_iff {v w : Json} : MarksItem v w ↔ w = markItem v := by
  constructor
  · intro h
    cases h with
    | object hupdates => rw [markItem_obj, (updates_iff performs_markValue).1 hupdates]
    | other h =>
      cases v with
      | obj fields => exact absurd rfl (h fields)
      | _ => rfl
  · rintro rfl
    cases v with
    | obj fields =>
      rw [markItem_obj]
      exact .object ((updates_iff performs_markValue).2 rfl)
    | _ => exact .other nofun

/-- The items of a list marked. -/
def markItems : Json → Json
  | .arr items => .arr (items.map markItem)
  | v => v

theorem performs_markItems : Performs markItems MarksItems where
  unique := by
    rintro _ _ ⟨h⟩
    induction h with
    | nil => rfl
    | cons hitem _ ih =>
      rw [marksItem_iff.1 hitem]
      simp_all [markItems]
  total v := by
    cases v with
    | arr items =>
      left
      refine .list ?_
      rw [List.forall₂_map_right_iff, List.forall₂_same]
      exact fun v _ => marksItem_iff.2 rfl
    | _ => exact .inr ⟨rfl, nofun⟩

theorem markMemory_eq (publicInput : Fields) :
    markMemory publicInput = publicInput.update "public_memory" markItems := by
  unfold markMemory Fields.update
  cases h : publicInput.get? "public_memory" with
  | none => rfl
  | some v =>
    cases v with
    | arr items => rfl
    | _ => exact (Fields.set_eq_self h).symm

theorem markValue_markValue (v : Json) : markValue (markValue v) = markValue v := by
  cases v with
  | str t =>
    rw [markValue_str]
    split
    · rename_i h
      rw [markValue_str, if_pos h]
    · rw [markValue_str, if_pos (List.prefix_append _ _)]
  | _ => rfl

theorem markItem_markItem (v : Json) : markItem (markItem v) = markItem v := by
  cases v with
  | obj fields =>
    rw [markItem_obj, markItem_obj, Fields.update_update markValue_markValue]
  | _ => rfl

theorem markItems_markItems (v : Json) : markItems (markItems v) = markItems v := by
  cases v with
  | arr items => simp [markItems, markItem_markItem]
  | _ => rfl

/-! ## What is read -/

/-- A run of hexadecimal digits and its number. -/
structure HexRun (ds : Text) (n : Nat) : Prop where
  ne_nil : ds ≠ []
  digits : ∀ c ∈ ds, Numeral.isHexDigit c = true
  value : Nat.ofDigits 16 (ds.map Numeral.digitValue).reverse = n

variable {ds t : Text} {n : Nat}

theorem HexRun.unmarked (h : HexRun ds n) : ¬hexMark <+: ds := by
  rintro ⟨rest, rfl⟩
  have hmark := h.digits 'x' (by simp [hexMark, Text.ofString])
  revert hmark
  decide

/-- With the mark in front or without it, a run of digits is marked once. -/
theorem HexRun.markValue_eq (h : HexRun ds n) (ht : t = ds ∨ t = hexMark ++ ds) :
    markValue (.str t) = .str (hexMark ++ ds) := by
  rcases ht with rfl | rfl
  · rw [markValue_str, if_neg h.unmarked]
  · rw [markValue_str, if_pos (List.prefix_append _ _)]

theorem HexRun.ofText_eq (h : HexRun ds n) (hn : (n : Int) < Felt.prime) :
    Felt.ofText (hexMark ++ ds) = .ok n := by
  have hfelt : IsFelt n := ⟨Int.natCast_nonneg n, hn⟩
  have hnat : Felt.natOfText (hexMark ++ ds) = .ok n := by
    rw [← h.value, ← Numeral.ofDigits_eq]
    exact Felt.natOfText_of_hex (.inl rfl) h.ne_nil h.digits
  exact Felt.ofText_of_natOfText hfelt hnat

/-- Marking a public input marks the values in its public memory that are texts without the mark,
and nothing else; marking it again changes nothing; and a value in the public memory that is a run
of hexadecimal digits, with the mark or without it, is read as its number when it is marked. -/
theorem memory_marked_once (publicInput : Fields) :
    (∀ marked, MarksMemory publicInput marked ↔ marked = markMemory publicInput) ∧
      markMemory (markMemory publicInput) = markMemory publicInput ∧
        ∀ (items : List Json) (i : Nat) (fields : Fields) (t ds : Text) (n : Nat),
          publicInput.get? "public_memory" = some (.arr items) → items[i]? = some (.obj fields) →
          fields.get? "value" = some (.str t) → HexRun ds n → (t = ds ∨ t = hexMark ++ ds) →
          (n : Int) < Felt.prime →
            ∃ (items' : List Json) (fields' : Fields) (s : Text),
              (markMemory publicInput).get? "public_memory" = some (.arr items') ∧
                items'[i]? = some (.obj fields') ∧ fields'.get? "value" = some (.str s) ∧
                  Felt.ofText s = .ok n := by
  refine ⟨fun marked => ?_, ?_, ?_⟩
  · rw [markMemory_eq]
    exact updates_iff performs_markItems
  · rw [markMemory_eq, markMemory_eq, Fields.update_update markItems_markItems]
  · intro items i fields t ds n hitems hitem hvalue hrun ht hn
    refine ⟨items.map markItem, fields.update "value" markValue, hexMark ++ ds, ?_, ?_, ?_,
      hrun.ofText_eq hn⟩
    · rw [markMemory_eq, Fields.get?_update, hitems]
      rfl
    · rw [List.getElem?_map, hitem, Option.map_some, markItem_obj]
    · rw [Fields.get?_update, hvalue, Option.map_some, hrun.markValue_eq ht]

/-- Values without the mark, with it and of another kind, an item that is no object, and fields in
another order. -/
def smallPublicInput : Fields :=
  [("n_steps", .int 8),
    ("public_memory", .arr [.obj [("page", .int 0), ("value", .str "4A")], .str "4A",
      .obj [("value", .str "0x10"), ("address", .int 2)], .obj [("value", .int 5)]]),
    ("layout", .str "small")]

theorem memory_marked_once_small :
    HexRun "4A" 74 ∧
      markMemory smallPublicInput =
        ([("n_steps", .int 8),
          ("public_memory", .arr [.obj [("page", .int 0), ("value", .str "0x4A")], .str "4A",
            .obj [("value", .str "0x10"), ("address", .int 2)], .obj [("value", .int 5)]]),
          ("layout", .str "small")] : Fields) ∧
        ∃ (items' : List Json) (fields' : Fields) (s : Text),
          (markMemory smallPublicInput).get? "public_memory" = some (.arr items') ∧
            items'[0]? = some (.obj fields') ∧ fields'.get? "value" = some (.str s) ∧
              Felt.ofText s = .ok (74 : Nat) := by
  have hrun : HexRun "4A" 74 := ⟨by decide, by decide, by decide⟩
  have hprime : ((74 : Nat) : Int) < Felt.prime := by decide
  refine ⟨hrun, by rfl, ?_⟩
  exact (memory_marked_once smallPublicInput).2.2 _ 0 _ "4A" "4A" 74 rfl rfl rfl hrun (.inl rfl)
    hprime

end StarkReplay.Prover
