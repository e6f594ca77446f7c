import StarkReplay.Text.Utf8

/-!
UTF-8, both ways. Decoding takes from the front of a byte sequence the bytes of one code point, no
surrogate, and of every code point but a surrogate the bytes are taken; so an encoded text is
decoded to itself.
-/
namespace StarkReplay.Utf8

theorem toUInt8_toNat (b : UInt8) {n : Nat} (h : n = b.toNat) : n.toUInt8 = b := by
  subst h
  exact UInt8.ofNat_toNat

theorem toNat_toUInt8 {n : Nat} (h : n < 256) : n.toUInt8.toNat = n := by
  simpa using Nat.mod_eq_of_lt h

theorem tail?_eq_some {b : UInt8} {n : Nat} :
    tail? b = some n ↔ b.toNat = 0x80 + n ∧ n < 0x40 := by
  simp only [tail?, UInt8.le_iff_toNat_le, UInt8.reduceToNat]
  split
  · simp only [Option.some.injEq]
    omega
  · simp only [reduceCtorEq, false_iff]
    omega

theorem isSurrogate_eq_false {c : CodePoint} :
    c.isSurrogate = false ↔ c.val < 0xD800 ∨ 0xE000 ≤ c.val := by
  simp only [CodePoint.isSurrogate, Bool.and_eq_false_iff, decide_eq_false_iff_not]
  omega

/-- What is decoded at the front of a byte sequence are the bytes of a code point. -/
theorem decodeOne?_sound {bytes rest : List UInt8} {c : CodePoint}
    (h : decodeOne? bytes = some (c, rest)) :
    bytes = encodeOne c ++ rest ∧ c.isSurrogate = false := by
  cases bytes with
  | nil => cases h
  | cons a r =>
    simp only [decodeOne?, UInt8.lt_iff_toNat_lt, UInt8.le_iff_toNat_le, UInt8.reduceToNat] at h
    split at h
    · rename_i ha
      cases h
      have hval := CodePoint.val_ofNat (n := a.toNat) (by omega)
      rw [isSurrogate_eq_false, encodeOne, hval]
      rw [if_pos ha, toUInt8_toNat a rfl]
      exact ⟨rfl, by omega⟩
    split at h
    · rename_i ha
      split at h
      · rename_i b r
        simp only [Option.bind_eq_bind, Option.bind_eq_some_iff, tail?_eq_some] at h
        obtain ⟨nb, ⟨hb, hnb⟩, h⟩ := h
        cases h
        have hval := CodePoint.val_ofNat (n := (a.toNat - 0xC0) * 0x40 + nb) (by omega)
        rw [isSurrogate_eq_false, encodeOne, hval]
        rw [if_neg (by omega), if_pos (by omega), toUInt8_toNat a (by omega),
          toUInt8_toNat b (by omega)]
        exact ⟨rfl, by omega⟩
      · cases h
    split at h
    · rename_i ha
      split at h
      · rename_i b d r
        simp only [Option.bind_eq_bind, Option.bind_eq_some_iff, tail?_eq_some] at h
        obtain ⟨nb, ⟨hb, hnb⟩, nd, ⟨hd, hnd⟩, h⟩ := h
        have hval := CodePoint.val_ofNat (n := (a.toNat - 0xE0) * 0x1000 + nb * 0x40 + nd)
          (by omega)
        split at h
        · cases h
        · rename_i hrange
          cases h
          obtain ⟨hlow, hsurrogate⟩ := not_or.1 hrange
          rw [Bool.not_eq_true] at hsurrogate
          refine ⟨?_, hsurrogate⟩
          rw [encodeOne, hval]
          rw [if_neg (by omega), if_neg hlow, if_pos (by omega), toUInt8_toNat a (by omega),
            toUInt8_toNat b (by omega), toUInt8_toNat d (by omega)]
          rfl
      · cases h
    split at h
    · rename_i ha
      split at h
      · rename_i b d e r
        simp only [Option.bind_eq_bind, Option.bind_eq_some_iff, tail?_eq_some] at h
        obtain ⟨nb, ⟨hb, hnb⟩, nd, ⟨hd, hnd⟩, ne, ⟨he, hne⟩, h⟩ := h
        split at h
        · cases h
        · rename_i hrange
          cases h
          obtain ⟨hlow, hhigh⟩ := not_or.1 hrange
          have hval := CodePoint.val_ofNat (Nat.not_le.1 hhigh)
          rw [isSurrogate_eq_false, encodeOne, hval]
          rw [if_neg (by omega), if_neg (by omega), if_neg hlow, toUInt8_toNat a (by omega),
            toUInt8_toNat b (by omega), toUInt8_toNat d (by omega), toUInt8_toNat e (by omega)]
          exact ⟨rfl, by omega⟩
      · cases h
    · cases h

theorem tail?_of_lt {n : Nat} (h : n < 0x40) : tail? (0x80 + n).toUInt8 = some n := by
  rw [tail?_eq_some, toNat_toUInt8 (by omega)]
  exact ⟨rfl, h⟩

theorem ofNat_eq {c : CodePoint} {n : Nat} (h : n = c.val) : CodePoint.ofNat n = c := by
  subst h
  simp [CodePoint.ofNat, c.val_lt]

section

variable {a b d e : UInt8} {nb nd ne : Nat}

theorem decodeOne?_two (ha : 0xC2 ≤ a.toNat ∧ a.toNat ≤ 0xDF) (hb : tail? b = some nb)
    (rest : List UInt8) : decodeOne? (a :: b :: rest) =
      some (CodePoint.ofNat ((a.toNat - 0xC0) * 0x40 + nb), rest) := by
  simp only [decodeOne?, UInt8.lt_iff_toNat_lt, UInt8.le_iff_toNat_le, UInt8.reduceToNat, hb]
  rw [if_neg (by omega), if_pos ha]
  rfl

theorem decodeOne?_three (ha : 0xE0 ≤ a.toNat ∧ a.toNat ≤ 0xEF) (hb : tail? b = some nb)
    (hd : tail? d = some nd) {n : Nat} (hn : (a.toNat - 0xE0) * 0x1000 + nb * 0x40 + nd = n)
    (hlow : ¬n < 0x800) (hscalar : (CodePoint.ofNat n).isSurrogate = false) (rest : List UInt8) :
    decodeOne? (a :: b :: d :: rest) = some (CodePoint.ofNat n, rest) := by
  simp only [decodeOne?, UInt8.lt_iff_toNat_lt, UInt8.le_iff_toNat_le, UInt8.reduceToNat, hb, hd]
  rw [if_neg (by omega), if_neg (by omega), if_pos ha]
  simp [hn, hlow, hscalar]

theorem decodeOne?_four (ha : 0xF0 ≤ a.toNat ∧ a.toNat ≤ 0xF4) (hb : tail? b = some nb)
    (hd : tail? d = some nd) (he : tail? e = some ne) {n : Nat}
    (hn : (a.toNat - 0xF0) * 0x40000 + nb * 0x1000 + nd * 0x40 + ne = n)
    (hrange : ¬(n < 0x10000 ∨ 0x110000 ≤ n)) (rest : List UInt8) :
    decodeOne? (a :: b :: d :: e :: rest) = some (CodePoint.ofNat n, rest) := by
  simp only [decodeOne?, UInt8.lt_iff_toNat_lt, UInt8.le_iff_toNat_le, UInt8.reduceToNat, hb, hd,
    he]
  rw [if_neg (by omega), if_neg (by omega), if_neg (by omega), if_pos ha]
  rw [Option.bind_eq_bind, Option.bind_some, Option.bind_some, Option.bind_some, hn,
    if_neg hrange]

end

/-- The bytes of a code point that is no surrogate are decoded to it. -/
theorem decodeOne?_encodeOne {c : CodePoint} (h : c.isSurrogate = false) (rest : List UInt8) :
    decodeOne? (encodeOne c ++ rest) = some (c, rest) := by
  have hc := c.val_lt
  have hself : CodePoint.ofNat c.val = c := ofNat_eq rfl
  rw [encodeOne]
  split
  · rename_i hone
    unfold decodeOne?
    simp only [List.singleton_append, UInt8.lt_iff_toNat_lt, UInt8.reduceToNat]
    rw [toNat_toUInt8 (by omega), if_pos hone, hself]
  split
  · rename_i hone htwo
    have hfirst := toNat_toUInt8 (n := 0xC0 + c.val / 0x40) (by omega)
    refine (decodeOne?_two (by omega) (tail?_of_lt (Nat.mod_lt _ (by decide))) rest).trans ?_
    rw [hfirst, ofNat_eq (c := c) (by omega)]
  split
  · rename_i hone htwo hthree
    have hfirst := toNat_toUInt8 (n := 0xE0 + c.val / 0x1000) (by omega)
    rw [← hself] at h
    refine (decodeOne?_three (by omega) (tail?_of_lt (Nat.mod_lt _ (by decide)))
      (tail?_of_lt (Nat.mod_lt _ (by decide))) (by omega) htwo h rest).trans ?_
    rw [hself]
  · rename_i hone htwo hthree
    have hfirst := toNat_toUInt8 (n := 0xF0 + c.val / 0x40000) (by omega)
    refine (decodeOne?_four (by omega) (tail?_of_lt (Nat.mod_lt _ (by decide)))
      (tail?_of_lt (Nat.mod_lt _ (by decide))) (tail?_of_lt (Nat.mod_lt _ (by decide)))
      (n := c.val) (by omega) (by omega) rest).trans ?_
    rw [hself]

theorem length_encodeOne_pos (c : CodePoint) : 0 < (encodeOne c).length := by
  rw [encodeOne]
  repeat' split
  all_goals exact Nat.succ_pos _

/-- An encoded text is decoded to itself. -/
theorem decode?_of_encode? {t : Text} {bytes : List UInt8} (h : encode? t = some bytes) :
    decode? bytes = some t := by
  rw [encode?] at h
  split at h
  · cases h
  · rename_i hscalar
    cases h
    have hwithin : ∀ fuel, (t.flatMap encodeOne).length ≤ fuel →
        decodeWithin fuel (t.flatMap encodeOne) = some t := by
      induction t with
      | nil => intro fuel _; cases fuel <;> rfl
      | cons c t ih =>
        intro fuel hfuel
        simp only [List.any_cons, Bool.or_eq_true, not_or, Bool.not_eq_true] at hscalar
        obtain ⟨b, bs, hcons⟩ := List.exists_cons_of_length_pos (length_encodeOne_pos c)
        rw [List.flatMap_cons, hcons, List.length_append, List.length_cons] at hfuel
        obtain ⟨fuel, rfl⟩ : ∃ k, fuel = k + 1 := Nat.exists_eq_add_one.2 (by omega)
        have hone := decodeOne?_encodeOne hscalar.1 (t.flatMap encodeOne)
        have hrest := ih (by simpa using hscalar.2) fuel (by omega)
        rw [List.flatMap_cons]
        rw [hcons, List.cons_append] at hone ⊢
        simp only [decodeWithin, hone, Option.bind_eq_bind, Option.bind_some, hrest]
        rfl
    exact hwithin _ (Nat.le_refl _)

end StarkReplay.Utf8
