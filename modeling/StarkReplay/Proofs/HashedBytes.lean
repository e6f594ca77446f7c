import StarkReplay.Proofs.Channel
import StarkReplay.Proofs.FeltCodecs

/-!
The bytes behind a digest. A sequence of felts is hashed without its length and without any mark,
yet its bytes tell what was hashed: all words have one width, and the eight bytes of a nonce do not
fill a word. Two sequences with one digest, or with one commitment, are therefore two different
byte strings that the hash function brings together.
-/
namespace StarkReplay

namespace Felt

theorem word_injective {v w : Int} (hv : IsFelt v) (hw : IsFelt w)
    (h : word v.toNat = word w.toNat) : v = w := by
  have hback (u : Int) (hu : IsFelt u) : ofBytes (word u.toNat) = .ok u := by
    have hround := ofBytes_of_toBytes hu
    rwa [toBytes_eq_ok.2 ⟨hu, rfl⟩, ok_bind] at hround
  have hread := hback v hv
  rw [h, hback w hw] at hread
  exact (Except.ok.inj hread).symm

end Felt

namespace Digest

/-- Whatever the hash function, both digests of the sequence are taken of these bytes. -/
structure Hashes (vs : List Int) (bytes : List UInt8) : Prop where
  felt : ∀ H : Hash, Digest.felt H vs = .ok ((H bytes).toNat % Felt.prime)
  commitment : ∀ H : Hash, Digest.commitment H vs = .ok ((H bytes).toNat % 2 ^ 160 : Nat)

/-- Whatever the hash function, the digest of the proof of work is taken of these bytes. -/
def HashesWork (seed nonce : Int) (bytes : List UInt8) : Prop :=
  ∀ H : Hash, work H seed nonce = .ok (H bytes)

/-- Different byte strings are hashed for the sequences, and their digests agree in this way. -/
def Collide (H : Hash) (Agree : BitVec 256 → BitVec 256 → Prop) (vs ws : List Int) : Prop :=
  ∃ m n, Hashes vs m ∧ Hashes ws n ∧ m ≠ n ∧ Agree (H m) (H n)

/-- Digests that reduction into the field does not tell apart. -/
def AgreeInField (d e : BitVec 256) : Prop := (d.toNat : Int) ≡ e.toNat [ZMOD Felt.prime]

/-- Digests with the same low 160 bits. -/
def AgreeInLowBits (d e : BitVec 256) : Prop := ∀ i < 160, d.getLsbD i = e.getLsbD i

/-! ## Which bytes are hashed -/

/-- A hash function that tells one byte string from all others. -/
def marking (marked : List UInt8) : Hash := fun bytes => if bytes = marked then 1 else 0

/-- An operation that hashes one message hashes the bytes whose mark shows in its result. -/
theorem eq_ok_of_marking {ε α : Type} {hashed : Except ε (List UInt8)} {bytes : List UInt8}
    (result : BitVec 256 → α) (hshows : result 0 ≠ result 1)
    (h : (do return result (marking bytes (← hashed))) = .ok (result (marking bytes bytes))) :
    hashed = .ok bytes := by
  obtain ⟨m, hm, hresult⟩ := bind_eq_ok.1 h
  have hmark : marking bytes bytes = 1 := if_pos rfl
  by_cases hsame : m = bytes
  · rwa [hsame] at hm
  · have hnone : marking bytes m = 0 := if_neg hsame
    rw [hmark, hnone] at hresult
    exact absurd (pure_eq_ok.1 hresult) hshows

theorem hashes_iff {vs : List Int} {bytes : List UInt8} :
    Hashes vs bytes ↔ message vs = .ok bytes := by
  constructor
  · intro h
    exact eq_ok_of_marking (fun d => (d.toNat % Felt.prime : Int)) (by decide)
      (h.felt (marking bytes))
  · intro h
    exact ⟨fun H => bind_eq_ok.2 ⟨bytes, h, rfl⟩, fun H => bind_eq_ok.2 ⟨bytes, h, rfl⟩⟩

theorem hashesWork_iff {seed nonce : Int} {bytes : List UInt8} :
    HashesWork seed nonce bytes ↔ workMessage seed nonce = .ok bytes := by
  constructor
  · intro h
    exact eq_ok_of_marking id (by decide) (h (marking bytes))
  · intro h H
    exact bind_eq_ok.2 ⟨bytes, h, rfl⟩

theorem hashes_words {vs : List Int} (h : Felts vs) : Hashes vs (words vs) :=
  hashes_iff.2 (message_eq_ok.2 ⟨h, rfl⟩)

/-! ## Different sequences, different bytes -/

theorem length_words (vs : List Int) : (words vs).length = 32 * vs.length := by
  simp [words, List.length_flatMap, Felt.length_word, Nat.mul_comm]

theorem length_workBytes (seed nonce : Int) : (workBytes seed nonce).length = 40 := by
  rw [workBytes, List.length_append, length_words, Felt.length_bytesOnto]
  rfl

theorem words_injective {vs ws : List Int} (hvs : Felts vs) (hws : Felts ws)
    (h : words vs = words ws) : vs = ws := by
  have hcount : vs.length = ws.length := by
    have hlength := congrArg List.length h
    rw [length_words, length_words] at hlength
    omega
  induction vs generalizing ws with
  | nil => exact (List.length_eq_zero_iff.1 hcount.symm).symm
  | cons v vs ih =>
    obtain ⟨w, ws, rfl⟩ := List.exists_cons_of_length_eq_add_one hcount.symm
    obtain ⟨hv, hvs⟩ := felts_cons.1 hvs
    obtain ⟨hw, hws⟩ := felts_cons.1 hws
    -- the first words end at the same place
    obtain ⟨hfirst, hrest⟩ := List.append_inj h (by simp only [Felt.length_word])
    rw [Felt.word_injective hv hw hfirst, ih hvs hws hrest (Nat.succ.inj hcount)]

/-- Forty bytes are no whole number of words. -/
theorem words_ne_workBytes (vs : List Int) (seed nonce : Int) :
    words vs ≠ workBytes seed nonce := by
  intro h
  have hlength := congrArg List.length h
  rw [length_words, length_workBytes] at hlength
  omega

theorem Hashes.injective {vs ws : List Int} {bytes : List UInt8} (hvs : Hashes vs bytes)
    (hws : Hashes ws bytes) : vs = ws := by
  obtain ⟨hfv, rfl⟩ := message_eq_ok.1 (hashes_iff.1 hvs)
  obtain ⟨hfw, hwords⟩ := message_eq_ok.1 (hashes_iff.1 hws)
  exact words_injective hfv hfw hwords

theorem Hashes.not_hashesWork {vs : List Int} {bytes : List UInt8} (h : Hashes vs bytes)
    (seed nonce : Int) : ¬HashesWork seed nonce bytes := by
  intro hwork
  obtain ⟨-, hwords⟩ := message_eq_ok.1 (hashes_iff.1 h)
  obtain ⟨-, hbytes⟩ := workMessage_eq_ok.1 (hashesWork_iff.1 hwork)
  exact words_ne_workBytes vs seed nonce (hwords.symm.trans hbytes)

/-! ## Equal digests -/

theorem collide_of_ne {H : Hash} {Agree : BitVec 256 → BitVec 256 → Prop} {vs ws : List Int}
    (hvs : Felts vs) (hws : Felts ws) (hne : vs ≠ ws) (h : Agree (H (words vs)) (H (words ws))) :
    Collide H Agree vs ws :=
  ⟨words vs, words ws, hashes_words hvs, hashes_words hws,
    fun hwords => hne (words_injective hvs hws hwords), h⟩

theorem felt_collides {H : Hash} {vs ws : List Int} {d : Int} (hvs : felt H vs = .ok d)
    (hws : felt H ws = .ok d) (hne : vs ≠ ws) : Collide H AgreeInField vs ws := by
  obtain ⟨hfv, rfl⟩ := felt_eq_ok.1 hvs
  obtain ⟨hfw, hsame⟩ := felt_eq_ok.1 hws
  exact collide_of_ne hfv hfw hne hsame

theorem agreeInLowBits_of_eq {d e : BitVec 256} (h : d.toNat % 2 ^ 160 = e.toNat % 2 ^ 160) :
    AgreeInLowBits d e := by
  intro i hi
  have hbit := congrArg (Nat.testBit · i) h
  simp only [Nat.testBit_mod_two_pow, hi, decide_true, Bool.true_and] at hbit
  exact hbit

theorem commitment_collides {H : Hash} {vs ws : List Int} {d : Int}
    (hvs : commitment H vs = .ok d) (hws : commitment H ws = .ok d) (hne : vs ≠ ws) :
    Collide H AgreeInLowBits vs ws := by
  obtain ⟨hfv, rfl⟩ := commitment_eq_ok.1 hvs
  obtain ⟨hfw, hsame⟩ := commitment_eq_ok.1 hws
  exact collide_of_ne hfv hfw hne (agreeInLowBits_of_eq (Int.ofNat.inj hsame))

/-- The bytes that are hashed for felts belong to no other felts and to no proof of work, so equal
digests of different felts, or equal commitments to them, come from different bytes. What is no
felt is not hashed. -/
theorem hashed_bytes_unambiguous :
    (∀ vs, Felts vs → ∃ bytes, message vs = .ok bytes ∧ Hashes vs bytes) ∧
      (∀ seed nonce, IsFelt seed → IsNonce nonce →
        ∃ bytes, workMessage seed nonce = .ok bytes ∧ HashesWork seed nonce bytes) ∧
      (∀ vs ws bytes, Hashes vs bytes → Hashes ws bytes → vs = ws) ∧
      (∀ vs seed nonce bytes, Hashes vs bytes → ¬HashesWork seed nonce bytes) ∧
      (∀ H vs ws d, felt H vs = .ok d → felt H ws = .ok d → vs ≠ ws →
        Collide H AgreeInField vs ws) ∧
      (∀ H vs ws d, commitment H vs = .ok d → commitment H ws = .ok d → vs ≠ ws →
        Collide H AgreeInLowBits vs ws) ∧
      ∀ vs, ¬Felts vs → ∃ v ∈ vs, ¬IsFelt v ∧
        ∀ H, felt H vs = .error (.outOfRange v) ∧ commitment H vs = .error (.outOfRange v) := by
  refine ⟨fun vs hvs => ?_, fun seed nonce hseed hnonce => ?_,
    fun vs ws bytes hvs hws => hvs.injective hws,
    fun vs seed nonce bytes h => h.not_hashesWork seed nonce,
    fun H vs ws d hvs hws hne => felt_collides hvs hws hne,
    fun H vs ws d hvs hws hne => commitment_collides hvs hws hne,
    fun vs h => digests_of_not_felts h⟩
  · exact ⟨words vs, message_eq_ok.2 ⟨hvs, rfl⟩, hashes_words hvs⟩
  · have hmessage := workMessage_eq_ok.2 ⟨⟨hseed, hnonce⟩, rfl⟩
    exact ⟨workBytes seed nonce, hmessage, hashesWork_iff.2 hmessage⟩

/-- A hash function that adds the bytes up. -/
def byteSum : Hash := fun bytes => BitVec.ofNat 256 (bytes.map UInt8.toNat).sum

/-- One felt and two of them, the greatest nonce, two felts in either order under a hash function
that does not see the order, and a felt in front of a number that is none. -/
theorem hashed_bytes_unambiguous_small :
    (∃ bytes, Felts [0] ∧ Hashes [0] bytes ∧ ¬Hashes [0, 0] bytes ∧
      ∀ seed nonce, ¬HashesWork seed nonce bytes) ∧
      (∃ bytes, IsFelt 7 ∧ IsNonce (2 ^ 64 - 1) ∧ HashesWork 7 (2 ^ 64 - 1) bytes) ∧
      (felt byteSum [1, 2] = .ok 3 ∧ felt byteSum [2, 1] = .ok 3 ∧
        Collide byteSum AgreeInField [1, 2] [2, 1]) ∧
      (commitment byteSum [1, 2] = .ok 3 ∧ commitment byteSum [2, 1] = .ok 3 ∧
        Collide byteSum AgreeInLowBits [1, 2] [2, 1]) ∧
      ¬Felts [1, Felt.prime] ∧
        ∀ H, felt H [1, Felt.prime] = .error (.outOfRange Felt.prime) := by
  obtain ⟨hhashes, hworks, hinjective, hapart, hfelts, hcommitments, hrefused⟩ :=
    hashed_bytes_unambiguous
  have hzero : Felts [0] := by decide
  have hseed : IsFelt 7 := by decide
  have hnonce : IsNonce (2 ^ 64 - 1) := by decide
  have hfelt : felt byteSum [1, 2] = .ok 3 ∧ felt byteSum [2, 1] = .ok 3 := by decide +kernel
  have hcommitment : commitment byteSum [1, 2] = .ok 3 ∧ commitment byteSum [2, 1] = .ok 3 := by
    decide +kernel
  have hprime : ¬Felts [1, Felt.prime] := by decide
  obtain ⟨bytes, -, hbytes⟩ := hhashes _ hzero
  obtain ⟨workBytes, -, hwork⟩ := hworks _ _ hseed hnonce
  refine ⟨⟨bytes, hzero, hbytes, fun htwo => ?_, fun seed nonce => hapart _ seed nonce _ hbytes⟩,
    ⟨workBytes, hseed, hnonce, hwork⟩,
    ⟨hfelt.1, hfelt.2, hfelts _ _ _ _ hfelt.1 hfelt.2 (by decide)⟩,
    ⟨hcommitment.1, hcommitment.2, hcommitments _ _ _ _ hcommitment.1 hcommitment.2 (by decide)⟩,
    hprime, fun H => ?_⟩
  · exact absurd (hinjective _ _ _ hbytes htwo) (by decide)
  · obtain ⟨v, hv, hnot, herror⟩ := hrefused _ hprime
    have hlast : v = Felt.prime := by
      rcases List.mem_pair.1 hv with rfl | rfl
      · exact absurd (by decide) hnot
      · rfl
    rw [(herror H).1, hlast]

end Digest

end StarkReplay
