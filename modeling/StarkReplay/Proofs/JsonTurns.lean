import Mathlib.Data.List.TakeWhile
import StarkReplay.Json.Read
import StarkReplay.Proofs.Outcome

/-!
The turns of the JSON reader. Whatever is read is taken off the front of the text, so the turns that
are allowed for a text are enough: with more of them the text is read in the same way.
-/
namespace StarkReplay.Json

variable {α : Type} {limit : Nat} {t rest : Text}

/-- What is read leaves less than the whole text. -/
def Shortens (t : Text) (x : Except Fault (α × Text)) : Prop :=
  ∀ a rest, x = .ok (a, rest) → rest.length < t.length

theorem length_skipBlank_le (t : Text) : (skipBlank t).length ≤ t.length :=
  (List.dropWhile_suffix isBlank).length_le

theorem length_of_expect {c : CodePoint} {e : Expectation} (h : expect c e t = .ok rest) :
    rest.length + 1 = t.length := by
  cases t with
  | nil => cases h
  | cons d r =>
    rw [expect] at h
    split at h
    · cases h
      rfl
    · cases h

/-! ## Strings -/

/-- Four digits are read behind the first code point, in front of at least one more. -/
theorem drop_of_readHexQuad {n : Nat} (h : readHexQuad t = .ok (n, rest)) :
    ∃ a b c d e r, t.drop 1 = a :: b :: c :: d :: rest ∧ rest = e :: r := by
  rw [readHexQuad] at h
  split at h
  · rename_i hdrop
    split at h
    · cases h
      exact ⟨_, _, _, _, _, _, hdrop, rfl⟩
    · cases h
  · cases h

theorem readHexQuad_shortens (t : Text) : Shortens t (readHexQuad t) := by
  intro n rest h
  obtain ⟨a, b, c, d, e, r, hdrop, -⟩ := drop_of_readHexQuad h
  have hlength := congrArg List.length hdrop
  simp only [List.length_drop, List.length_cons] at hlength
  omega

theorem readUnicodeEscape_shortens (t : Text) : Shortens t (readUnicodeEscape t) := by
  intro c rest h
  obtain ⟨⟨n, left⟩, hn, h⟩ := bind_eq_ok.1 h
  have hleft := readHexQuad_shortens t n left hn
  dsimp only at h
  split at h
  · obtain ⟨⟨m, left'⟩, hm, h⟩ := bind_eq_ok.1 h
    have hleft' := readHexQuad_shortens _ m left' hm
    rw [List.length_drop] at hleft'
    dsimp only at h
    split at h
    · obtain ⟨-, rfl⟩ := Prod.mk.inj (Except.ok.inj h)
      omega
    · cases h
      exact hleft
  · cases h
    exact hleft

/-- One character of a string, as it is written. -/
def readCharacter (opening : Text) : Text → Except Fault (CodePoint × Text)
  | [] => .error (.unmet .closingQuote opening)
  | c :: r =>
    if c = '\\' then
      match r with
      | [] => .error (.unmet .closingQuote opening)
      | e :: r' =>
        if e = 'u' then readUnicodeEscape r
        else match escapeValue? e with
          | some d => .ok (d, r')
          | none => .error (.unmet .simpleEscape (c :: r))
    else if c.val < 0x20 then .error (.unmet .noControlCharacter (c :: r))
    else .ok (c, r)

theorem readCharacter_shortens (opening t : Text) : Shortens t (readCharacter opening t) := by
  intro d rest h
  cases t with
  | nil => cases h
  | cons c r =>
    rw [List.length_cons]
    simp only [readCharacter] at h
    split at h
    · split at h
      · cases h
      · split at h
        · exact Nat.lt_succ_of_lt (readUnicodeEscape_shortens _ d rest h)
        · split at h
          · cases h
            rw [List.length_cons]
            omega
          · cases h
    · split at h
      · cases h
      · cases h
        exact Nat.lt_succ_self _

/-- A turn of a string is one character, whatever was read before it. -/
theorem readString_succ (opening : Text) {c : CodePoint} (hc : c ≠ '"') (r done : Text)
    (fuel : Nat) :
    readString opening (fuel + 1) done (c :: r) =
      readCharacter opening (c :: r) >>= fun p => readString opening fuel (p.1 :: done) p.2 := by
  cases r with
  | nil =>
    simp only [readString, readCharacter]
    rw [if_neg hc]
    split
    · rfl
    · split <;> rfl
  | cons e r =>
    simp only [readString, readCharacter]
    rw [if_neg hc]
    split
    · split
      · rcases readUnicodeEscape (e :: r) with _ | _ <;> rfl
      · cases escapeValue? e <;> rfl
    · split <;> rfl

theorem readString_shortens (opening : Text) (fuel : Nat) (done t : Text) :
    Shortens t (readString opening fuel done t) := by
  induction fuel generalizing done t with
  | zero => nofun
  | succ fuel ih =>
    intro s rest h
    cases t with
    | nil => cases h
    | cons c r =>
      by_cases hc : c = '"'
      · simp only [readString, if_pos hc] at h
        cases h
        exact Nat.lt_succ_self _
      · rw [readString_succ opening hc] at h
        obtain ⟨⟨d, left⟩, hd, h⟩ := bind_eq_ok.1 h
        exact Nat.lt_trans (ih _ _ s rest h) (readCharacter_shortens opening _ d left hd)

theorem readString_turns (opening : Text) {n m : Nat} {done t : Text} (hn : t.length ≤ n)
    (hm : t.length ≤ m) : readString opening n done t = readString opening m done t := by
  induction n generalizing m done t with
  | zero =>
    obtain rfl := List.length_eq_zero_iff.1 (Nat.le_zero.1 hn)
    cases m <;> rfl
  | succ n ih =>
    cases t with
    | nil => cases m <;> rfl
    | cons c r =>
      obtain ⟨m, rfl⟩ := Nat.exists_eq_add_one.2 (Nat.lt_of_lt_of_le (Nat.succ_pos _) hm)
      by_cases hc : c = '"'
      · simp only [readString, if_pos hc]
      · rw [readString_succ opening hc, readString_succ opening hc]
        refine bind_congr_of_ok fun p hp => ?_
        have hshort := readCharacter_shortens opening _ p.1 p.2 hp
        exact ih (by omega) (by omega)

/-! ## Numbers and words -/

/-- The integer part is a row of digits at the front. -/
theorem integerPart?_eq_some {whole : Text} (h : integerPart? t = some (whole, rest)) :
    t = whole ++ rest ∧ whole ≠ [] ∧ ∀ c ∈ whole, Numeral.isDecimalDigit c = true := by
  cases t with
  | nil => cases h
  | cons c r =>
    rw [integerPart?] at h
    split at h
    · rename_i hzero
      cases h
      refine ⟨rfl, by simp, List.forall_mem_singleton.2 ?_⟩
      rw [hzero]
      decide
    · split at h
      · rename_i hdigit
        cases h
        refine ⟨?_, by simp, List.forall_mem_cons.2 ⟨hdigit, fun d hd => ?_⟩⟩
        · rw [List.cons_append, List.takeWhile_append_dropWhile]
        · exact List.mem_takeWhile_imp hd
      · cases h

theorem fractionPart_suffix (t : Text) : (fractionPart t).2 <:+ t := by
  cases t with
  | nil => exact List.suffix_rfl
  | cons c r =>
    rw [fractionPart]
    split
    · exact (List.dropWhile_suffix _).trans (List.suffix_cons c r)
    · exact List.suffix_rfl

theorem signPart_suffix (t : Text) : (signPart t).2 <:+ t := by
  cases t with
  | nil => exact List.suffix_rfl
  | cons c r =>
    rw [signPart]
    split
    · exact List.suffix_cons c r
    · split
      · exact List.suffix_cons c r
      · exact List.suffix_rfl

theorem exponentPart_suffix (t : Text) : (exponentPart t).2 <:+ t := by
  cases t with
  | nil => exact List.suffix_rfl
  | cons c r =>
    rw [exponentPart]
    dsimp only
    split
    · exact ((List.dropWhile_suffix _).trans (signPart_suffix r)).trans (List.suffix_cons c r)
    · exact List.suffix_rfl

theorem readNumber_shortens (limit : Nat) (t : Text) : Shortens t (readNumber limit t) := by
  intro v rest h
  rw [readNumber] at h
  dsimp only at h
  split at h
  · cases h
  · rename_i whole left hwhole
    obtain ⟨heq, hne, -⟩ := integerPart?_eq_some hwhole
    have hunsigned : left.length < t.length := by
      have hlength := congrArg List.length heq
      have hpos := List.length_pos_iff.2 hne
      rw [List.length_append] at hlength
      split at hlength
      · rw [List.length_drop] at hlength
        omega
      · omega
    have hleft := ((exponentPart_suffix _).trans (fractionPart_suffix left)).length_le
    refine Nat.lt_of_le_of_lt ?_ hunsigned
    split at h
    · split at h
      · cases h
      · cases h
        exact hleft
    · cases h
      exact hleft

theorem length_of_readWord? {v : Json} (h : readWord? t = some (v, rest)) :
    rest.length < t.length := by
  have hspelled : ∀ p ∈ spelled, 0 < p.1.length := by decide
  obtain ⟨⟨word, w⟩, hmem, hw⟩ := List.exists_of_findSome?_eq_some h
  dsimp only at hw
  split at hw
  · rename_i hword
    have hpos : 0 < word.length := hspelled _ hmem
    have hle := (List.isPrefixOf_iff_prefix.1 hword).length_le
    cases hw
    rw [List.length_drop]
    omega
  · cases hw

/-! ## Arrays and objects -/

/-- What follows an entry of an array or an object: its end, or a comma and more entries. -/
def entriesBehind (close : CodePoint) (more : Text → Except Fault (List α × Text)) (a : α)
    (t : Text) : Except Fault (List α × Text) :=
  if (skipBlank t).head? = some close then .ok ([a], (skipBlank t).drop 1)
  else do
    let rest ← expect ',' .comma (skipBlank t)
    let (as, rest) ← more (skipBlank rest)
    .ok (a :: as, rest)

/-- One member of an object. -/
def readMember (limit fuel : Nat) (t : Text) : Except Fault ((Text × Json) × Text) := do
  let inside ← expect '"' .propertyName t
  let (name, rest) ← readString t (fuel + 1) [] inside
  let rest ← expect ':' .colon (skipBlank rest)
  let (v, rest) ← readValue limit fuel (skipBlank rest)
  .ok ((name, v), rest)

theorem readItems_succ (limit fuel : Nat) (t : Text) : readItems limit (fuel + 1) t =
    readValue limit fuel t >>= fun p => entriesBehind ']' (readItems limit fuel) p.1 p.2 := rfl

theorem readMembers_succ (limit fuel : Nat) (t : Text) : readMembers limit (fuel + 1) t =
    readMember limit fuel t >>= fun p => entriesBehind '}' (readMembers limit fuel) p.1 p.2 := by
  rw [readMembers, readMember, bind_assoc]
  refine bind_congr fun inside => ?_
  rw [bind_assoc]
  refine bind_congr fun name => ?_
  dsimp only
  rw [bind_assoc]
  refine bind_congr fun behind => ?_
  rw [bind_assoc]
  rfl

theorem length_of_entriesBehind {close : CodePoint} {more : Text → Except Fault (List α × Text)}
    (hmore : ∀ t, Shortens t (more t)) {a : α} {as : List α}
    (h : entriesBehind close more a t = .ok (as, rest)) : rest.length ≤ t.length := by
  have hskip := length_skipBlank_le t
  rw [entriesBehind] at h
  split at h
  · cases h
    rw [List.length_drop]
    omega
  · obtain ⟨left, hcomma, h⟩ := bind_eq_ok.1 h
    obtain ⟨⟨as, left'⟩, has, h⟩ := bind_eq_ok.1 h
    have hleft := length_of_expect hcomma
    have hskipped := length_skipBlank_le left
    have hleft' := hmore _ as left' has
    dsimp only at h
    cases h
    omega

theorem readMember_shortens {fuel : Nat} (hvalue : ∀ t, Shortens t (readValue limit fuel t))
    (t : Text) : Shortens t (readMember limit fuel t) := by
  intro member rest h
  obtain ⟨inside, hquote, h⟩ := bind_eq_ok.1 h
  obtain ⟨⟨name, left⟩, hname, h⟩ := bind_eq_ok.1 h
  obtain ⟨behind, hcolon, h⟩ := bind_eq_ok.1 h
  obtain ⟨⟨v, left'⟩, hv, h⟩ := bind_eq_ok.1 h
  have hinside := length_of_expect hquote
  have hleft := readString_shortens _ _ _ _ name left hname
  have hskip := length_skipBlank_le left
  have hbehind := length_of_expect hcolon
  have hskipped := length_skipBlank_le behind
  have hleft' := hvalue _ v left' hv
  dsimp only at h
  cases h
  omega

theorem readItems_shortens {fuel : Nat} (hvalue : ∀ t, Shortens t (readValue limit fuel t))
    (hitems : ∀ t, Shortens t (readItems limit fuel t)) (t : Text) :
    Shortens t (readItems limit (fuel + 1) t) := by
  intro items rest h
  rw [readItems_succ] at h
  obtain ⟨⟨v, left⟩, hv, h⟩ := bind_eq_ok.1 h
  exact Nat.lt_of_le_of_lt (length_of_entriesBehind hitems h) (hvalue t v left hv)

theorem readMembers_shortens {fuel : Nat} (hvalue : ∀ t, Shortens t (readValue limit fuel t))
    (hmembers : ∀ t, Shortens t (readMembers limit fuel t)) (t : Text) :
    Shortens t (readMembers limit (fuel + 1) t) := by
  intro members rest h
  rw [readMembers_succ] at h
  obtain ⟨⟨member, left⟩, hmember, h⟩ := bind_eq_ok.1 h
  exact Nat.lt_of_le_of_lt (length_of_entriesBehind hmembers h)
    (readMember_shortens hvalue t member left hmember)

/-! ## Values -/

theorem readValue_shortens {fuel : Nat} (hitems : ∀ t, Shortens t (readItems limit fuel t))
    (hmembers : ∀ t, Shortens t (readMembers limit fuel t)) (t : Text) :
    Shortens t (readValue limit (fuel + 1) t) := by
  intro v rest h
  cases t with
  | nil => cases h
  | cons c r =>
    have hskip := length_skipBlank_le r
    rw [List.length_cons]
    rw [readValue] at h
    split at h
    · obtain ⟨⟨s, left⟩, hs, h⟩ := bind_eq_ok.1 h
      have hleft := readString_shortens _ _ _ _ s left hs
      cases h
      omega
    · split at h
      · dsimp only at h
        split at h
        · cases h
          rw [List.length_drop]
          omega
        · obtain ⟨⟨items, left⟩, hread, h⟩ := bind_eq_ok.1 h
          have hleft := hitems _ items left hread
          dsimp only at h
          cases h
          omega
      · split at h
        · dsimp only at h
          split at h
          · cases h
            rw [List.length_drop]
            omega
          · obtain ⟨⟨members, left⟩, hread, h⟩ := bind_eq_ok.1 h
            have hleft := hmembers _ members left hread
            dsimp only at h
            cases h
            omega
        · split at h
          · rename_i hword
            cases h
            exact length_of_readWord? hword
          · exact readNumber_shortens _ _ v rest h

theorem readers_shorten (limit fuel : Nat) :
    (∀ t, Shortens t (readValue limit fuel t)) ∧ (∀ t, Shortens t (readItems limit fuel t)) ∧
      ∀ t, Shortens t (readMembers limit fuel t) := by
  induction fuel with
  | zero => exact ⟨fun _ => nofun, fun _ => nofun, fun _ => nofun⟩
  | succ fuel ih =>
    obtain ⟨hvalue, hitems, hmembers⟩ := ih
    exact ⟨readValue_shortens hitems hmembers, readItems_shortens hvalue hitems,
      readMembers_shortens hvalue hmembers⟩

/-! ## Turns -/

theorem entriesBehind_congr {close : CodePoint} {more more' : Text → Except Fault (List α × Text)}
    (h : ∀ r, r.length < t.length → more r = more' r) (a : α) :
    entriesBehind close more a t = entriesBehind close more' a t := by
  rw [entriesBehind, entriesBehind]
  split
  · rfl
  · refine bind_congr_of_ok fun left hcomma => ?_
    have hskip := length_skipBlank_le t
    have hleft := length_of_expect hcomma
    have hskipped := length_skipBlank_le left
    rw [h _ (by omega)]

/-- With `n` turns and with `m` turns a text is read alike, if both are enough for it. -/
structure Alike (limit n m : Nat) : Prop where
  value : ∀ t : Text, 2 * t.length ≤ n → 2 * t.length ≤ m →
    readValue limit n t = readValue limit m t
  items : ∀ t : Text, 2 * t.length < n → 2 * t.length < m →
    readItems limit n t = readItems limit m t
  members : ∀ t : Text, 2 * t.length < n → 2 * t.length < m →
    readMembers limit n t = readMembers limit m t

variable {n m : Nat}

theorem alike_zero (limit m : Nat) : Alike limit 0 m where
  value t hn _ := by
    have ht : t = [] := List.length_eq_zero_iff.1 (by omega)
    subst ht
    cases m <;> rfl
  items t hn _ := absurd hn (Nat.not_lt_zero _)
  members t hn _ := absurd hn (Nat.not_lt_zero _)

theorem Alike.readValue_succ (h : Alike limit n m) {t : Text} (hn : 2 * t.length ≤ n + 1)
    (hm : 2 * t.length ≤ m + 1) : readValue limit (n + 1) t = readValue limit (m + 1) t := by
  cases t with
  | nil => rfl
  | cons c r =>
    have hskip := length_skipBlank_le r
    rw [List.length_cons] at hn hm
    rw [readValue, readValue, readString_turns (c :: r) (m := m + 1) (by omega) (by omega)]
    dsimp only
    rw [h.items (skipBlank r) (by omega) (by omega), h.members (skipBlank r) (by omega) (by omega)]

theorem Alike.readItems_succ (h : Alike limit n m) {t : Text} (hn : 2 * t.length < n + 1)
    (hm : 2 * t.length < m + 1) : readItems limit (n + 1) t = readItems limit (m + 1) t := by
  rw [Json.readItems_succ, Json.readItems_succ, h.value t (by omega) (by omega)]
  refine bind_congr_of_ok fun p hp => entriesBehind_congr (fun r hr => ?_) p.1
  have hlength := (readers_shorten limit m).1 t p.1 p.2 hp
  exact h.items r (by omega) (by omega)

theorem Alike.readMember (h : Alike limit n m) {t : Text} (hn : 2 * t.length < n + 1)
    (hm : 2 * t.length < m + 1) : readMember limit n t = readMember limit m t := by
  refine bind_congr_of_ok fun inside hquote => ?_
  have hinside := length_of_expect hquote
  rw [readString_turns t (m := m + 1) (by omega) (by omega)]
  refine bind_congr_of_ok fun name hname => bind_congr_of_ok fun behind hcolon => ?_
  have hname := readString_shortens _ _ _ _ name.1 name.2 hname
  have hskip := length_skipBlank_le name.2
  have hbehind := length_of_expect hcolon
  have hskipped := length_skipBlank_le behind
  rw [h.value _ (by omega) (by omega)]

theorem Alike.readMembers_succ (h : Alike limit n m) {t : Text} (hn : 2 * t.length < n + 1)
    (hm : 2 * t.length < m + 1) : readMembers limit (n + 1) t = readMembers limit (m + 1) t := by
  rw [Json.readMembers_succ, Json.readMembers_succ, h.readMember hn hm]
  refine bind_congr_of_ok fun p hp => entriesBehind_congr (fun r hr => ?_) p.1
  have hlength := readMember_shortens (readers_shorten limit m).1 t p.1 p.2 hp
  exact h.members r (by omega) (by omega)

theorem alike (limit n m : Nat) : Alike limit n m := by
  induction n generalizing m with
  | zero => exact alike_zero limit m
  | succ n ih =>
    cases m with
    | zero =>
      have h := alike_zero limit (n + 1)
      exact ⟨fun t hn hm => (h.value t hm hn).symm, fun t hn hm => (h.items t hm hn).symm,
        fun t hn hm => (h.members t hm hn).symm⟩
    | succ m => exact ⟨fun t => (ih m).readValue_succ, fun t => (ih m).readItems_succ,
        fun t => (ih m).readMembers_succ⟩

/-- The turns for a text are enough: a reader with more of them reads the same. -/
theorem readValue_of_enough (limit : Nat) (t : Text) {fuel : Nat} (h : enough t ≤ fuel) :
    readValue limit fuel (skipBlank t) = readValue limit (enough t) (skipBlank t) := by
  have hskip := length_skipBlank_le t
  rw [enough] at h
  exact (alike limit fuel (enough t)).value _ (by omega) (by rw [enough]; omega)

end StarkReplay.Json
