import StarkReplay.Proofs.ArgumentWriting
import StarkReplay.Proofs.ElementText
import StarkReplay.Proofs.Regroup
import StarkReplay.Proof.Text

/-!
Calldata as text. The decimal numerals of felts with single spaces between them are read back as
program arguments, so different felts have different texts; and the calldata of a proof whose arrays
have felts for lengths are felts.
-/
namespace StarkReplay

namespace Numeral

/-- Decimal digits, with a zero in front only if it is the whole numeral. -/
structure Canonical (w : Text) (v : Int) : Prop where
  digits : ∀ c ∈ w, isDecimalDigit c = true
  lead : ∃ c cs, w = c :: cs ∧ (c = '0' → cs = [])
  value : ((Nat.ofDigits 10 (w.map digitValue).reverse : Nat) : Int) = v

theorem canonical_integer {v : Int} (h : 0 ≤ v) : Canonical (integer v) v := by
  rw [integer, if_neg (Int.not_lt.2 h)]
  refine ⟨fun c => isDecimalDigit_of_mem_decimal, decimal_eq_cons _, ?_⟩
  rw [← ofDigits_eq]
  exact (congrArg Nat.cast (ofDecimal_decimal v.natAbs)).trans (Int.natAbs_of_nonneg h)

theorem space_not_mem_integer (v : Int) : (' ' : CodePoint) ∉ integer v := by
  intro h
  have hblank := isBlank_of_mem_integer h
  revert hblank
  decide

end Numeral

namespace Flat

theorem splitOn_text {elements : List Int} (h : elements ≠ []) :
    (text elements).splitOn (' ' : CodePoint) = elements.map Numeral.integer := by
  have hjoin : text elements = [(' ' : CodePoint)].intercalate (elements.map Numeral.integer) := rfl
  rw [hjoin]
  refine List.splitOn_intercalate (' ' : CodePoint) ?_ (by simpa using h)
  intro w hw
  obtain ⟨v, -, rfl⟩ := List.mem_map.1 hw
  exact Numeral.space_not_mem_integer v

/-! ## Lengths -/

mutual

/-- The lengths of all arrays in a tree. -/
def lengths : Json → List Nat
  | .arr items => items.length :: itemLengths items
  | _ => []

def itemLengths : List Json → List Nat
  | [] => []
  | v :: vs => lengths v ++ itemLengths vs

end

/-- All arrays have a felt for their length. -/
def Fit (lengths : List Nat) : Prop := ∀ n ∈ lengths, IsFelt n

theorem felts_of_flattenItems {items : List Json} {xs : List Int}
    (ih : ∀ t ∈ items, ∀ {ys}, flatten t = .ok ys → Fit (lengths t) → Felts ys)
    (h : flattenItems items = .ok xs) (hfit : Fit (itemLengths items)) : Felts xs := by
  induction items generalizing xs with
  | nil =>
    cases h
    exact felts_nil
  | cons t items ihs =>
    obtain ⟨iht, ihts⟩ := List.forall_mem_cons.1 ih
    obtain ⟨hfirst, hrest⟩ := List.forall_mem_append.1 hfit
    rw [flattenItems] at h
    obtain ⟨first, ht, h⟩ := bind_eq_ok.1 h
    obtain ⟨rest, hts, h⟩ := bind_eq_ok.1 h
    cases h
    exact felts_append.2 ⟨iht ht hfirst, ihs ihts hts hrest⟩

theorem felts_of_flatten {t : Json} {xs : List Int} (h : flatten t = .ok xs)
    (hfit : Fit (lengths t)) : Felts xs := by
  induction t using tree_induction generalizing xs with
  | scalar t hs =>
    rw [flatten.eq_2 t hs] at h
    obtain ⟨n, hn, h⟩ := bind_eq_ok.1 h
    cases h
    exact felts_cons.2 ⟨isFelt_of_scalar hn, felts_nil⟩
  | array items ih =>
    rw [lengths] at hfit
    obtain ⟨hlength, hitems⟩ := List.forall_mem_cons.1 hfit
    rw [flatten] at h
    obtain ⟨ys, hys, h⟩ := bind_eq_ok.1 h
    cases h
    exact felts_cons.2 ⟨hlength, felts_of_flattenItems (fun t ht => ih t ht) hys hitems⟩

theorem felts_of_section {items : List Json} {xs : List Int} (h : flattenItems items = .ok xs)
    (hfit : Fit (itemLengths items)) : Felts xs :=
  felts_of_flattenItems (fun _ _ => felts_of_flatten) h hfit

end Flat

namespace Proof

/-- The lengths of all arrays in the sections, their own excluded. -/
def lengths (p : Proof) : List Nat :=
  Flat.itemLengths p.config ++ Flat.itemLengths p.publicInput ++
    Flat.itemLengths p.unsentCommitment ++ Flat.itemLengths p.witness

theorem felts_of_calldata {p : Proof} {elements : List Int} (h : p.calldata = .ok elements)
    (hfit : Flat.Fit p.lengths) : Felts elements := by
  simp only [Flat.Fit, lengths, List.forall_mem_append] at hfit
  obtain ⟨⟨⟨hconfig, hpublic⟩, hunsent⟩, hwitness⟩ := hfit
  obtain ⟨config, h₁, h⟩ := bind_eq_ok.1 h
  obtain ⟨publicInput, h₂, h⟩ := bind_eq_ok.1 h
  obtain ⟨unsentCommitment, h₃, h⟩ := bind_eq_ok.1 h
  obtain ⟨witness, h₄, h⟩ := bind_eq_ok.1 h
  cases h
  simp only [felts_append, felts_cons, felts_nil]
  exact ⟨⟨⟨⟨Flat.felts_of_section h₁ hconfig, Flat.felts_of_section h₂ hpublic⟩,
    Flat.felts_of_section h₃ hunsent⟩, Flat.felts_of_section h₄ hwitness⟩, by decide, trivial⟩

end Proof

namespace Arguments

theorem spellsArgument_integer {v : Int} (h : IsFelt v) :
    SpellsArgument (Numeral.integer v) (.felt v) :=
  .felt (spellsFelt_of_natOfText h (Felt.natOfText_integer h))

theorem parse_text {elements : List Int} (h : Felts elements) :
    parse (Flat.text elements) = .ok (elements.map .felt) := by
  have hall : List.Forall₂ SpellsArgument (elements.map Numeral.integer)
      (elements.map Argument.felt) := by
    rw [List.forall₂_map_left_iff, List.forall₂_map_right_iff, List.forall₂_same]
    exact fun v hv => spellsArgument_integer (h v hv)
  refine parse_eq_ok.2 (.inl ⟨[], Flat.text elements, [], ?_, nofun, nofun, separated_join hall⟩)
  rw [List.append_nil, List.nil_append]

/-- Felts are read back from their text, which is made of their numerals and single spaces; so no
two sequences of felts have one text, and the calldata of a proof are read back from theirs. -/
theorem text_lossless :
    (∀ elements, Felts elements →
      parse (Flat.text elements) = .ok (elements.map .felt) ∧
        (Flat.text elements).splitOn (' ' : CodePoint) =
          (if elements = [] then [[]] else elements.map Numeral.integer) ∧
        ∀ v ∈ elements, Felt.toDecimal v = .ok (Numeral.integer v) ∧
          Numeral.Canonical (Numeral.integer v) v) ∧
      (∀ xs ys, Felts xs → Felts ys → (Flat.text xs = Flat.text ys ↔ xs = ys)) ∧
        ∀ (p : Proof) elements, p.calldata = .ok elements → (∀ n ∈ p.lengths, IsFelt n) →
          parse (Flat.text elements) = .ok (elements.map .felt) := by
  refine ⟨fun elements h => ⟨parse_text h, ?_, fun v hv => ⟨?_, ?_⟩⟩, ?_, ?_⟩
  · split
    · rename_i hnil
      rw [hnil]
      rfl
    · rename_i hne
      exact Flat.splitOn_text hne
  · rw [Felt.toDecimal, Felt.check_of_isFelt (h v hv)]
    rfl
  · exact Numeral.canonical_integer (h v hv).nonneg
  · intro xs ys hxs hys
    refine ⟨fun htext => ?_, congrArg Flat.text⟩
    have hparse := parse_text hxs
    rw [htext, parse_text hys] at hparse
    have hinjective : Function.Injective Argument.felt := fun _ _ => Argument.felt.inj
    exact (List.map_injective_iff.2 hinjective (Except.ok.inj hparse)).symm
  · exact fun p elements h hfit => parse_text (Proof.felts_of_calldata h hfit)

/-- A proof with an empty array in an array, and a hexadecimal numeral. -/
def smallProof : Proof where
  config := [.arr [.str "0xF", .arr []]]
  publicInput := [.int 10]
  unsentCommitment := []
  witness := [.arr [.int 7]]

theorem text_lossless_small :
    (Felts [0, 10 ^ 75] ∧ parse (Flat.text [0, 10 ^ 75]) = .ok [.felt 0, .felt (10 ^ 75)] ∧
      (Flat.text [0, 10 ^ 75]).splitOn (' ' : CodePoint) =
        [Numeral.integer 0, Numeral.integer (10 ^ 75)]) ∧
      (Felts [1, 2] ∧ Felts [12] ∧ Flat.text [1, 2] ≠ Flat.text [12]) ∧
        smallProof.calldata = .ok [2, 15, 0, 10, 1, 7, 1] ∧
          (∀ n ∈ smallProof.lengths, IsFelt n) ∧
            parse (Flat.text [2, 15, 0, 10, 1, 7, 1]) =
              .ok [.felt 2, .felt 15, .felt 0, .felt 10, .felt 1, .felt 7, .felt 1] := by
  obtain ⟨hread, hinjective, hproof⟩ := text_lossless
  have hfelts : Felts [0, 10 ^ 75] := by decide
  have htwo : Felts [1, 2] := by decide
  have hone : Felts [12] := by decide
  have hcalldata : smallProof.calldata = .ok [2, 15, 0, 10, 1, 7, 1] := by decide
  have hlengths : ∀ n ∈ smallProof.lengths, IsFelt n := by decide
  obtain ⟨hparse, hsplit, -⟩ := hread _ hfelts
  rw [if_neg (List.cons_ne_nil _ _)] at hsplit
  exact ⟨⟨hfelts, hparse, hsplit⟩,
    ⟨htwo, hone, (not_congr (hinjective _ _ htwo hone)).2 (by decide)⟩, hcalldata, hlengths,
    hproof _ _ hcalldata hlengths⟩

end Arguments

end StarkReplay
