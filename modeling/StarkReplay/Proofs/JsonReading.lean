import StarkReplay.Proofs.JsonWriting
import StarkReplay.Proofs.ProofText

/-!
Documents that are read. From a text of Unicode scalar values the reader takes strings in which no
two halves of a surrogate pair are left beside each other, integers with no more digits than are
allowed and objects with distinct names. So a document that was read, if all its numbers are
integers, is one that is read back as it is written.
-/
namespace StarkReplay.Json

variable {α : Type} {limit n m : Nat} {t rest : Text} {c d : CodePoint} {v : Json}

/-- If the text is made of scalar values, what is read satisfies `P` and leaves scalar values. -/
def Yields (P : α → Prop) (t : Text) (x : Except Fault (α × Text)) : Prop :=
  t.Scalar → ∀ a rest, x = .ok (a, rest) → P a ∧ rest.Scalar

theorem scalar_of_suffix (ht : t.Scalar) (h : rest <:+ t) : rest.Scalar :=
  fun c hc => ht c (h.subset hc)

theorem scalar_skipBlank (ht : t.Scalar) : (skipBlank t).Scalar :=
  scalar_of_suffix ht (List.dropWhile_suffix isBlank)

theorem scalar_of_expect {e : Expectation} (ht : t.Scalar) (h : expect c e t = .ok rest) :
    rest.Scalar := by
  cases t with
  | nil => cases h
  | cons d r =>
    rw [expect] at h
    split at h
    · cases h
      exact scalar_of_suffix ht (List.suffix_cons _ _)
    · cases h

/-! ## Strings -/

theorem suffix_of_readHexQuad (h : readHexQuad t = .ok (n, rest)) : rest <:+ t := by
  obtain ⟨a, b, c, d, e, r, hdrop, -⟩ := drop_of_readHexQuad h
  have hrest : rest <:+ t.drop 1 := hdrop ▸ List.suffix_append [a, b, c, d] rest
  exact hrest.trans (List.drop_suffix 1 t)

/-- Wherever an escape is read, another one could be. -/
theorem pairFollows_of_readHexQuad {r : Text} (h : readHexQuad ('u' :: r) = .ok (n, rest)) :
    pairFollows ('\\' :: 'u' :: r) = true := by
  obtain ⟨a, b, c, d, e, r', hdrop, rfl⟩ := drop_of_readHexQuad h
  rw [List.drop_succ_cons, List.drop_zero] at hdrop
  subst hdrop
  rfl

theorem bounds_of_isHighSurrogate (h : (CodePoint.ofNat n).isHighSurrogate = true) :
    0xD800 ≤ n ∧ n < 0xDC00 := by
  rw [CodePoint.ofNat] at h
  split at h
  · simpa [CodePoint.isHighSurrogate] using h
  · cases h

theorem bounds_of_isLowSurrogate (h : (CodePoint.ofNat n).isLowSurrogate = true) :
    0xDC00 ≤ n ∧ n < 0xE000 := by
  rw [CodePoint.ofNat] at h
  split at h
  · simpa [CodePoint.isLowSurrogate] using h
  · cases h

/-- A surrogate pair stands for a scalar value. -/
theorem isSurrogate_joinSurrogates (hn : (CodePoint.ofNat n).isHighSurrogate = true)
    (hm : (CodePoint.ofNat m).isLowSurrogate = true) :
    (joinSurrogates n m).isSurrogate = false := by
  have hhigh := bounds_of_isHighSurrogate hn
  have hlow := bounds_of_isLowSurrogate hm
  rw [Utf8.isSurrogate_eq_false, joinSurrogates, CodePoint.val_ofNat (by omega)]
  omega

/-- A character of a string and what it leaves: behind a high surrogate no low one is read, and a
low one is read only where it could be. -/
structure Apart (t : Text) (d : CodePoint) (rest : Text) : Prop where
  suffix : rest <:+ t
  after : d.isHighSurrogate = true → NoLowHalf rest
  before : NoLowHalf t → d.isLowSurrogate = false

theorem apart_of_isSurrogate (hd : d.isSurrogate = false) (h : rest <:+ t) : Apart t d rest := by
  rw [CodePoint.isSurrogate_eq, Bool.or_eq_false_iff] at hd
  refine ⟨h, fun hhigh => ?_, fun _ => hd.2⟩
  rw [hd.1] at hhigh
  cases hhigh

theorem apart_of_readUnicodeEscape {r : Text}
    (h : readUnicodeEscape ('u' :: r) = .ok (d, rest)) : Apart ('\\' :: 'u' :: r) d rest := by
  obtain ⟨⟨n, left⟩, hn, h⟩ := bind_eq_ok.1 h
  have hleft := (suffix_of_readHexQuad hn).trans (List.suffix_cons (CodePoint.ofChar '\\') _)
  have hbefore : NoLowHalf ('\\' :: 'u' :: r) → (CodePoint.ofNat n).isLowSurrogate = false := by
    intro hlow
    obtain ⟨m, r', hm, hm'⟩ := hlow (pairFollows_of_readHexQuad hn)
    rw [List.drop_succ_cons, List.drop_zero, hn] at hm
    cases hm
    exact hm'
  dsimp only at h
  split at h
  · rename_i hpair
    obtain ⟨hhigh, -⟩ := Bool.and_eq_true_iff.1 hpair
    obtain ⟨⟨m, left'⟩, hm, h⟩ := bind_eq_ok.1 h
    dsimp only at h
    split at h
    · rename_i hlow
      obtain ⟨rfl, rfl⟩ := Prod.mk.inj (Except.ok.inj h)
      exact apart_of_isSurrogate (isSurrogate_joinSurrogates hhigh hlow)
        (((suffix_of_readHexQuad hm).trans (List.drop_suffix 1 left)).trans hleft)
    · rename_i hlow
      cases h
      exact ⟨hleft, fun _ _ => ⟨m, left', hm, by simpa using hlow⟩, hbefore⟩
  · rename_i hpair
    cases h
    refine ⟨hleft, fun hhigh hfollows => absurd ?_ hpair, hbefore⟩
    rw [hhigh, hfollows]
    rfl

theorem isSurrogate_of_escapeValue? {e : CodePoint} (he : e.isSurrogate = false)
    (h : escapeValue? e = some d) : d.isSurrogate = false := by
  rw [escapeValue?] at h
  split at h
  · cases h
    exact he
  · repeat' split at h
    all_goals
      cases h
    all_goals decide

theorem apart_of_readCharacter {opening : Text} (ht : t.Scalar)
    (h : readCharacter opening t = .ok (d, rest)) : Apart t d rest := by
  cases t with
  | nil => cases h
  | cons c r =>
    obtain ⟨hc, hr⟩ := List.forall_mem_cons.1 ht
    simp only [readCharacter] at h
    split at h
    · rename_i hbackslash
      subst hbackslash
      split at h
      · cases h
      · rename_i e r'
        split at h
        · rename_i hu
          subst hu
          exact apart_of_readUnicodeEscape h
        · split at h
          · rename_i hvalue
            cases h
            exact apart_of_isSurrogate
              (isSurrogate_of_escapeValue? (hr _ List.mem_cons_self) hvalue)
              (List.suffix_append [_, _] _)
          · cases h
    · split at h
      · cases h
      · cases h
        exact apart_of_isSurrogate hc (List.suffix_cons _ _)

/-- The string read so far has no low surrogate behind a high one, and gets none next. -/
theorem readString_yields (opening : Text) (fuel : Nat) (done : Text)
    (hdone : Text.Unpaired done.reverse)
    (hnext : ∀ c ∈ done.head?, c.isHighSurrogate = true → NoLowHalf t) :
    Yields Text.Unpaired t (readString opening fuel done t) := by
  induction fuel generalizing done t with
  | zero => exact fun _ _ _ => nofun
  | succ fuel ih =>
    intro ht s rest h
    cases t with
    | nil => cases h
    | cons c r =>
      by_cases hc : c = '"'
      · simp only [readString, if_pos hc] at h
        cases h
        exact ⟨hdone, scalar_of_suffix ht (List.suffix_cons _ _)⟩
      · rw [readString_succ opening hc] at h
        obtain ⟨⟨d, left⟩, hd, h⟩ := bind_eq_ok.1 h
        obtain ⟨hleft, hafter, hbefore⟩ := apart_of_readCharacter ht hd
        -- what may be read next is told by the character that was read last
        refine ih (d :: done) ?_ ?_ (scalar_of_suffix ht hleft) s rest h
        · rw [List.reverse_cons, Text.Unpaired, List.isChain_append]
          refine ⟨hdone, .singleton d, fun e he d' hd' hhigh => ?_⟩
          rw [List.getLast?_reverse] at he
          cases hd'
          exact hbefore (hnext e he hhigh)
        · intro e he
          cases he
          exact hafter

/-! ## Numbers and words -/

/-- Digits spell a number with no more digits. -/
theorem length_decimal_ofDecimal_le {ds : Text} (hne : ds ≠ [])
    (hds : ∀ c ∈ ds, Numeral.isDecimalDigit c = true) :
    (Numeral.decimal (Numeral.ofDecimal ds)).length ≤ ds.length := by
  have hbound : Numeral.ofDecimal ds < 10 ^ ds.length := by
    rw [Numeral.ofDecimal, Numeral.ofDigits_eq]
    refine (Nat.ofDigits_lt_base_pow_length (by decide) fun d hd => ?_).trans_eq (by simp)
    obtain ⟨c, hc, rfl⟩ := List.mem_map.1 (List.mem_reverse.1 hd)
    have hdigit := hds c hc
    rw [Numeral.isDecimalDigit_iff] at hdigit
    rw [Numeral.digitValue, if_pos (by omega)]
    omega
  rw [Numeral.decimal, List.length_map]
  exact (Numeral.length_digits_le_iff (by decide) (List.length_pos_iff.2 hne)).2 hbound

/-- A value that was read, if its numbers are integers, is read back as it is written. -/
def Rewritable (limit : Nat) (v : Json) : Prop := v.Integral → Plain Text.Unpaired limit v

theorem rewritable_float (x : Binary64) : Rewritable limit (.float x) := by
  intro h
  cases h

theorem readNumber_yields (limit : Nat) (t : Text) :
    Yields (Rewritable limit) t (readNumber limit t) := by
  intro ht v rest h
  rw [readNumber] at h
  dsimp only at h
  split at h
  · cases h
  · rename_i whole left hwhole
    obtain ⟨heq, hne, hdigits⟩ := integerPart?_eq_some hwhole
    have hunsigned : left <:+ t := by
      refine (heq ▸ List.suffix_append whole left).trans ?_
      split
      · exact List.drop_suffix 1 t
      · exact List.suffix_rfl
    have hrest := scalar_of_suffix ht
      (((exponentPart_suffix _).trans (fractionPart_suffix left)).trans hunsigned)
    split at h
    · split at h
      · cases h
      · rename_i hlimit
        cases h
        refine ⟨fun _ => .int ?_, hrest⟩
        have hle := Nat.le_trans (length_decimal_ofDecimal_le hne hdigits) (Nat.not_lt.1 hlimit)
        split
        · rwa [Int.natAbs_neg, Int.natAbs_natCast]
        · rwa [Int.natAbs_natCast]
    · cases h
      exact ⟨rewritable_float _, hrest⟩

theorem readWord?_yields (h : readWord? t = some (v, rest)) :
    Rewritable limit v ∧ rest <:+ t := by
  obtain ⟨⟨word, w⟩, hmem, hw⟩ := List.exists_of_findSome?_eq_some h
  dsimp only at hw
  split at hw
  · cases hw
    refine ⟨?_, List.drop_suffix _ _⟩
    simp only [spelled, List.mem_cons, Prod.mk.injEq, List.not_mem_nil, or_false] at hmem
    rcases hmem with ⟨-, rfl⟩ | ⟨-, rfl⟩ | ⟨-, rfl⟩ | ⟨-, rfl⟩ | ⟨-, rfl⟩ | ⟨-, rfl⟩
    · exact fun _ => .null
    · exact fun _ => .bool true
    · exact fun _ => .bool false
    · exact rewritable_float _
    · exact rewritable_float _
    · exact rewritable_float _
  · cases hw

/-! ## Arrays and objects -/

theorem entriesBehind_yields {P : α → Prop} {close : CodePoint}
    {more : Text → Except Fault (List α × Text)}
    (hmore : ∀ t, Yields (fun as => ∀ a ∈ as, P a) t (more t)) {a : α} (ha : P a) :
    Yields (fun as => ∀ a ∈ as, P a) t (entriesBehind close more a t) := by
  intro ht as rest h
  have hskip := scalar_skipBlank ht
  rw [entriesBehind] at h
  split at h
  · cases h
    exact ⟨List.forall_mem_singleton.2 ha, scalar_of_suffix hskip (List.drop_suffix 1 _)⟩
  · obtain ⟨left, hcomma, h⟩ := bind_eq_ok.1 h
    obtain ⟨⟨as, left'⟩, has, h⟩ := bind_eq_ok.1 h
    obtain ⟨hall, hleft'⟩ := hmore _ (scalar_skipBlank (scalar_of_expect hskip hcomma)) as left' has
    cases h
    exact ⟨List.forall_mem_cons.2 ⟨ha, hall⟩, hleft'⟩

/-- A member of an object with a name and a value that are read back. -/
def RewritableMember (limit : Nat) (f : Text × Json) : Prop :=
  f.1.Unpaired ∧ Rewritable limit f.2

theorem readMember_yields {fuel : Nat}
    (hvalue : ∀ t, Yields (Rewritable limit) t (readValue limit fuel t)) (t : Text) :
    Yields (RewritableMember limit) t (readMember limit fuel t) := by
  intro ht member rest h
  obtain ⟨inside, hquote, h⟩ := bind_eq_ok.1 h
  obtain ⟨⟨name, left⟩, hname, h⟩ := bind_eq_ok.1 h
  obtain ⟨behind, hcolon, h⟩ := bind_eq_ok.1 h
  obtain ⟨⟨v, left'⟩, hv, h⟩ := bind_eq_ok.1 h
  obtain ⟨hunpaired, hleft⟩ :=
    readString_yields t (fuel + 1) [] .nil (by simp) (scalar_of_expect ht hquote) name
      left hname
  have hbehind := scalar_of_expect (scalar_skipBlank hleft) hcolon
  obtain ⟨hrewritable, hleft'⟩ := hvalue _ (scalar_skipBlank hbehind) v left' hv
  cases h
  exact ⟨⟨hunpaired, hrewritable⟩, hleft'⟩

theorem Fields.mem_set {fields : Fields} {name : Text} {f : Text × Json}
    (h : f ∈ fields.set name v) : f = (name, v) ∨ f ∈ fields := by
  induction fields with
  | nil => exact .inl (List.mem_singleton.1 h)
  | cons field fields ih =>
    obtain ⟨k, w⟩ := field
    rw [Fields.set] at h
    split at h
    · rename_i hk
      subst hk
      rcases List.mem_cons.1 h with rfl | h
      · exact .inl rfl
      · exact .inr (List.mem_cons_of_mem _ h)
    · rcases List.mem_cons.1 h with rfl | h
      · exact .inr List.mem_cons_self
      · exact (ih h).imp_right (List.mem_cons_of_mem _)

/-- The fields of an object are among its members. -/
theorem Fields.mem_of_mem_ofList {members : List (Text × Json)} {f : Text × Json}
    (h : f ∈ Fields.ofList members) : f ∈ members := by
  have hfold : ∀ done : Fields,
      f ∈ members.foldl (fun all m => all.set m.1 m.2) done → f ∈ done ∨ f ∈ members := by
    clear h
    induction members with
    | nil => exact fun _ h => .inl h
    | cons m members ih =>
      intro done hf
      rcases ih _ hf with hf | hf
      · rcases Fields.mem_set hf with rfl | hf
        · exact .inr List.mem_cons_self
        · exact .inl hf
      · exact .inr (List.mem_cons_of_mem _ hf)
  exact (hfold [] h).resolve_left List.not_mem_nil

/-! ## Values -/

theorem rewritable_arr {items : List Json} (h : ∀ v ∈ items, Rewritable limit v) :
    Rewritable limit (.arr items) := by
  intro hintegral
  cases hintegral with
  | arr values => exact .arr fun v hv => h v hv (values v hv)

theorem rewritable_ofList {members : List (Text × Json)}
    (h : ∀ f ∈ members, RewritableMember limit f) :
    Rewritable limit (.obj (Fields.ofList members)) := by
  intro hintegral
  cases hintegral with
  | obj values =>
    have hmem := fun f hf => h f (Fields.mem_of_mem_ofList hf)
    exact .obj (Fields.nodup_ofList members) (fun f hf => (hmem f hf).1)
      fun f hf => (hmem f hf).2 (values f hf)

theorem readValue_yields {fuel : Nat}
    (hitems : ∀ t, Yields (fun vs => ∀ v ∈ vs, Rewritable limit v) t (readItems limit fuel t))
    (hmembers : ∀ t,
      Yields (fun fs => ∀ f ∈ fs, RewritableMember limit f) t (readMembers limit fuel t))
    (t : Text) : Yields (Rewritable limit) t (readValue limit (fuel + 1) t) := by
  intro ht v rest h
  cases t with
  | nil => cases h
  | cons c r =>
    have hr := scalar_of_suffix ht (List.suffix_cons c r)
    have hskip := scalar_skipBlank hr
    have hclosed := scalar_of_suffix hskip (List.drop_suffix 1 _)
    rw [readValue] at h
    split at h
    · obtain ⟨⟨s, left⟩, hs, h⟩ := bind_eq_ok.1 h
      obtain ⟨hunpaired, hleft⟩ := readString_yields (c :: r) _ [] .nil (by simp) hr s left hs
      cases h
      exact ⟨fun _ => .str hunpaired, hleft⟩
    · split at h
      · dsimp only at h
        split at h
        · cases h
          exact ⟨fun _ => .arr (by simp), hclosed⟩
        · obtain ⟨⟨items, left⟩, hread, h⟩ := bind_eq_ok.1 h
          obtain ⟨hall, hleft⟩ := hitems _ hskip items left hread
          cases h
          exact ⟨rewritable_arr hall, hleft⟩
      · split at h
        · dsimp only at h
          split at h
          · cases h
            exact ⟨fun _ => .obj .nil (by simp) (by simp), hclosed⟩
          · obtain ⟨⟨members, left⟩, hread, h⟩ := bind_eq_ok.1 h
            obtain ⟨hall, hleft⟩ := hmembers _ hskip members left hread
            cases h
            exact ⟨rewritable_ofList hall, hleft⟩
        · split at h
          · rename_i hword
            cases h
            obtain ⟨hrewritable, hsuffix⟩ := readWord?_yields hword
            exact ⟨hrewritable, scalar_of_suffix ht hsuffix⟩
          · exact readNumber_yields limit _ ht v rest h

theorem readers_yield (limit fuel : Nat) :
    (∀ t, Yields (Rewritable limit) t (readValue limit fuel t)) ∧
      (∀ t, Yields (fun vs => ∀ v ∈ vs, Rewritable limit v) t (readItems limit fuel t)) ∧
        ∀ t, Yields (fun fs => ∀ f ∈ fs, RewritableMember limit f) t
          (readMembers limit fuel t) := by
  induction fuel with
  | zero => exact ⟨fun _ _ => nofun, fun _ _ => nofun, fun _ _ => nofun⟩
  | succ fuel ih =>
    obtain ⟨hvalue, hitems, hmembers⟩ := ih
    refine ⟨readValue_yields hitems hmembers, fun t ht vs rest h => ?_, fun t ht fs rest h => ?_⟩
    · rw [readItems_succ] at h
      obtain ⟨⟨v, left⟩, hv, h⟩ := bind_eq_ok.1 h
      obtain ⟨hrewritable, hleft⟩ := hvalue t ht v left hv
      exact entriesBehind_yields hitems hrewritable hleft vs rest h
    · rw [readMembers_succ] at h
      obtain ⟨⟨member, left⟩, hmember, h⟩ := bind_eq_ok.1 h
      obtain ⟨hrewritable, hleft⟩ := readMember_yields hvalue t ht member left hmember
      exact entriesBehind_yields hmembers hrewritable hleft fs rest h

/-! ## Documents -/

section

variable {S : Text → Prop} {fields : Fields} {name : Text}

theorem Plain.integral (h : Plain S limit v) : v.Integral := by
  induction h with
  | null => exact .null
  | bool value => exact .bool value
  | int _ => exact .int _
  | str _ => exact .str _
  | arr _ ih => exact .arr ih
  | obj _ _ _ ih => exact .obj ih

theorem Plain.set (h : Plain S limit (.obj fields)) (hname : S name) (hv : Plain S limit v) :
    Plain S limit (.obj (fields.set name v)) := by
  cases h with
  | obj distinct names values =>
    refine .obj (Fields.nodup_set distinct name v) (fun f hf => ?_) fun f hf => ?_
    · rcases Fields.mem_set hf with rfl | hf
      · exact hname
      · exact names f hf
    · rcases Fields.mem_set hf with rfl | hf
      · exact hv
      · exact values f hf

end

/-- A document of integers that was read is read back as it is written. -/
theorem plain_of_read (ht : t.Scalar) (h : read limit t = .ok v) (hv : v.Integral) :
    Plain Text.Unpaired limit v := by
  rw [read] at h
  split at h
  · cases h
  · obtain ⟨⟨w, rest⟩, hw, h⟩ := bind_eq_ok.1 (mapError_eq_ok.1 h)
    obtain ⟨hrewritable, -⟩ := (readers_yield limit _).1 _ (scalar_skipBlank ht) w rest hw
    dsimp only at h
    split at h
    · cases h
      exact hrewritable hv
    · cases h

end StarkReplay.Json
