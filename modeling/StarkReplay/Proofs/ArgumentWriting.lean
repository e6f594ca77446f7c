import StarkReplay.Proofs.ArgumentGrammar

/-!
Arguments written out: each felt in decimal or hexadecimal, the brackets of an array beside its
items or apart from them. However they are written, they are read back.
-/
namespace StarkReplay

namespace Arguments

inductive Radix where
  | decimal
  | hexadecimal
  deriving DecidableEq

def Radix.write : Radix → Int → Except FeltError Text
  | decimal => Felt.toDecimal
  | hexadecimal => Felt.toHex

/-- An argument with the way to write it: the radix of each number, and whether the brackets stand
apart from the items. -/
inductive Styled where
  | felt (radix : Radix) (value : Int)
  | array (apartBefore apartAfter : Bool) (items : List (Radix × Int))
  deriving DecidableEq

namespace Styled

def argument : Styled → Argument
  | felt _ v => .felt v
  | array _ _ items => .array (items.map Prod.snd)

def numbers : Styled → List Int
  | felt _ v => [v]
  | array _ _ items => items.map Prod.snd

def space (apart : Bool) : Text := if apart then " " else []

def write : Styled → Except FeltError Text
  | felt radix v => radix.write v
  | array apartBefore apartAfter items => do
    let texts ← items.mapM fun item => item.1.write item.2
    let inner := space apartBefore ++ (Text.join " " texts ++ space apartAfter)
    return ('[' : CodePoint) :: (inner ++ [(']' : CodePoint)])

end Styled

/-- The arguments in their text, one space between neighbours. -/
def write (args : List Styled) : Except FeltError Text := do
  let texts ← args.mapM Styled.write
  return Text.join " " texts

theorem gap_space (apart : Bool) : Gap (Styled.space apart) := by
  intro c hc
  cases apart with
  | false => cases hc
  | true =>
    cases List.mem_singleton.1 hc
    rfl

theorem spellsFelt_of_natOfText {w : Text} {v : Int} (hv : IsFelt v)
    (hw : Felt.natOfText w = .ok v.toNat) : SpellsFelt w v := by
  refine spellsFelt_of_ofText (fun c hc => ?_) (Felt.ofText_of_natOfText hv hw)
  exact Felt.isBlank_of_isNumeralSign (Felt.isNumeralSign_of_natOfText hw c hc)

theorem Radix.exists_write (radix : Radix) {v : Int} (hv : IsFelt v) :
    ∃ w, radix.write v = .ok w ∧ SpellsFelt w v := by
  cases radix with
  | decimal =>
    refine ⟨Numeral.integer v, ?_, spellsFelt_of_natOfText hv (Felt.natOfText_integer hv)⟩
    rw [write, Felt.toDecimal, Felt.check_of_isFelt hv]
    rfl
  | hexadecimal =>
    refine ⟨Felt.hexNumeral v.toNat, ?_,
      spellsFelt_of_natOfText hv (Felt.natOfText_hexNumeral v.toNat)⟩
    rw [write, Felt.toHex, Felt.check_of_isFelt hv]
    rfl

section

variable {α β : Type} {P : Text → α → Prop}

/-- If each of the things is written with its meaning, so are all of them. -/
theorem exists_mapM {f : β → Except FeltError Text} {meaning : β → α} {xs : List β}
    (h : ∀ x ∈ xs, ∃ t, f x = .ok t ∧ P t (meaning x)) :
    ∃ ts, xs.mapM f = .ok ts ∧ List.Forall₂ P ts (xs.map meaning) := by
  induction xs with
  | nil => exact ⟨[], rfl, .nil⟩
  | cons x xs ih =>
    obtain ⟨⟨t, ht, hmeans⟩, hrest⟩ := List.forall_mem_cons.1 h
    obtain ⟨ts, hts, hall⟩ := ih hrest
    refine ⟨t :: ts, ?_, .cons hmeans hall⟩
    rw [List.mapM_cons, ht, ok_bind, hts]
    rfl

theorem separated_join {ts : List Text} {as : List α} (h : List.Forall₂ P ts as) :
    Separated P (Text.join " " ts) as := by
  induction h with
  | nil => exact .nil
  | @cons t a ts as ht hrest ih =>
    cases hrest with
    | nil =>
      rw [Text.join_singleton]
      exact .single ht
    | cons hb hrest =>
      rw [Text.join_cons_cons]
      exact .cons ht (gap_space true) (List.cons_ne_nil _ _) ih

end

theorem Styled.exists_write {x : Styled} (hx : Felts x.numbers) :
    ∃ t, x.write = .ok t ∧ SpellsArgument t x.argument := by
  cases x with
  | felt radix v =>
    obtain ⟨t, ht, hspells⟩ := radix.exists_write (hx v List.mem_cons_self)
    exact ⟨t, ht, .felt hspells⟩
  | array apartBefore apartAfter items =>
    have hitems : ∀ item ∈ items, ∃ t, item.1.write item.2 = .ok t ∧ SpellsFelt t item.2 :=
      fun item hitem => item.1.exists_write (hx _ (List.mem_map_of_mem hitem))
    obtain ⟨ts, hts, hall⟩ := exists_mapM hitems
    have hspaced : Spaced SpellsFelt (space apartBefore ++ (Text.join " " ts ++ space apartAfter))
        (items.map Prod.snd) :=
      ⟨_, _, _, rfl, gap_space _, gap_space _, separated_join hall⟩
    refine ⟨_, ?_, .array hspaced⟩
    rw [write, hts]
    rfl

theorem exists_write {xs : List Styled} (h : ∀ x ∈ xs, Felts x.numbers) :
    ∃ t, write xs = .ok t ∧ Written t (xs.map Styled.argument) := by
  obtain ⟨ts, hts, hall⟩ := exists_mapM fun x hx => Styled.exists_write (h x hx)
  refine ⟨Text.join " " ts, ?_, .inl ⟨[], _, [], ?_, nofun, nofun, separated_join hall⟩⟩
  · rw [write, hts]
    rfl
  · rw [List.append_nil, List.nil_append]

/-! ## The grammar is what is read -/

/-- A text is read exactly if it is written by the grammar, and then as the arguments it spells;
every other text is refused; and arguments are read back however their felts are written. -/
theorem parse_accepts_grammar :
    (∀ t args, parse t = .ok args ↔ Written t args) ∧
      (∀ t, (∀ args, ¬Written t args) → ∃ e, parse t = .error e ∧ Refused t e) ∧
        ∀ xs : List Styled, (∀ x ∈ xs, Felts x.numbers) →
          ∃ t, write xs = .ok t ∧ parse t = .ok (xs.map Styled.argument) := by
  refine ⟨fun t args => parse_eq_ok, fun t h => refused_of_not_written h, fun xs h => ?_⟩
  obtain ⟨t, ht, hwritten⟩ := exists_write h
  exact ⟨t, ht, parse_eq_ok.2 hwritten⟩

/-- A text whose last bracket is missing, one with a bracket too many, and two arguments. -/
theorem parse_accepts_grammar_small :
    Written " 1 [2 0x3" [.felt 1, .array [2, 3]] ∧
      (∀ args, ¬Written "[]]" args) ∧ (∃ e, parse "[]]" = .error e ∧ Refused "[]]" e) ∧
        ∃ t, write [.felt .hexadecimal 7, .array true false [(.decimal, 10), (.hexadecimal, 0)]] =
            .ok t ∧ parse t = .ok [.felt 7, .array [10, 0]] := by
  obtain ⟨hgrammar, hrefused, hwritten⟩ := parse_accepts_grammar
  have hextra : ∀ args, ¬Written "[]]" args := by
    intro args h
    have hparse := (hgrammar _ _).2 h
    cases hparse
  exact ⟨(hgrammar _ _).1 rfl, hextra, hrefused _ hextra, hwritten _ (by decide)⟩

end Arguments

end StarkReplay
