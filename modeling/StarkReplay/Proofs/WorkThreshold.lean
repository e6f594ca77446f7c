import StarkReplay.Proofs.Verifier

/-!
The difficulty of the proof of work. The number of bits that a proof asks for is compared with its
digest and used nowhere else: it is not absorbed, so the challenges and the rounds are the same
for every number. An accepted proof therefore stays accepted, with its trace, exactly as far up as
its digest has leading zeros and the configuration allows.
-/
namespace StarkReplay

namespace Digest

theorem leadingZeros_eq_clz (d : BitVec 256) : leadingZeros d = d.clz.toNat := by
  by_cases hd : d = 0#256
  · subst hd
    decide +kernel
  · have hclz : d.clz < (256 : Nat) := BitVec.clz_lt_iff_ne_zero.2 hd
    have hclz : d.clz.toNat < 256 := BitVec.lt_def.1 hclz
    have hlow := BitVec.two_pow_sub_clz_le_toNat_of_ne_zero (by decide) hd
    have hhigh : Numeral.bitLength d.toNat ≤ 256 - d.clz.toNat :=
      (Numeral.bitLength_le_iff _ _).2 BitVec.toNat_lt_two_pow_sub_clz
    have hlength : ¬Numeral.bitLength d.toNat ≤ 256 - 1 - d.clz.toNat := by
      rw [Numeral.bitLength_le_iff]
      exact Nat.not_lt.2 hlow
    unfold leadingZeros
    omega

end Digest

namespace Replay

/-- The digest that the proof of work is about, at the point where the channel checks it. -/
def grindingDigest (H : Hash) (s : Sections) : Except Failure (BitVec 256) := do
  let seed ← Digest.felt H s.publicInput.flat
  let (outcome, channel) :=
    (drawBeforeWork H s.config s.commitments).run.run (Channel.ofSeed seed)
  let _ ← outcome
  Digest.work H channel.digest s.commitments.nonce

theorem Sections.Drawable.grindingDigest_eq {H : Hash} {s : Sections} (h : s.Drawable) :
    grindingDigest H s = .ok (H (Digest.workBytes (s.workDigest H) s.commitments.nonce)) := by
  rw [grindingDigest, liftFelt_of_ok (Digest.felt_of_felts h.publicInput), bind_eq_ok]
  refine ⟨_, rfl, ?_⟩
  simp only [run_drawBeforeWork h]
  exact bind_eq_ok.2 ⟨_, rfl, Digest.work_eq_ok (Digest.isFelt_feltOf H _) h.nonce⟩

namespace Parts

/-- The same proof, asking for another number of bits. -/
def withWorkBits (p : Parts) (bits : Int) : Parts :=
  { p with sections.config.workBits := bits }

variable {H : Hash} {params : Layout.Params} {layout : Layout} {p : Parts} {bits : Int}

theorem getElem?_calldata_three : p.calldata[3]? = some p.sections.config.workBits := rfl

theorem calldata_withWorkBits : (p.withWorkBits bits).calldata = p.calldata.set 3 bits := rfl

theorem felts_withWorkBits (h : Felts p.calldata) :
    Felts (p.withWorkBits bits).calldata ↔ IsFelt bits := by
  rw [calldata_withWorkBits]
  constructor
  · intro hset
    exact hset bits (List.mem_set (List.getElem?_eq_some_iff.1 getElem?_calldata_three).1 bits)
  · intro hbits v hv
    rcases List.mem_or_eq_of_mem_set hv with hv | rfl
    · exact h v hv
    · exact hbits

theorem trace_withWorkBits : (p.withWorkBits bits).trace H params = p.trace H params := by
  have hlength : (p.withWorkBits bits).sections.flat.length = p.sections.flat.length := by
    simp [Sections.flat, Config.flat, withWorkBits]
  unfold trace
  rw [hlength]
  rfl

/-- Of all checks only the bound of the configuration and the proof of work see the bits. -/
theorem accepted_withWorkBits (h : p.Accepted H params layout) :
    (p.withWorkBits bits).Accepted H params layout ↔ bits ≤ 50 ∧
      Digest.HasWork H (p.sections.workDigest H) p.sections.commitments.nonce bits := by
  constructor
  · intro hbits
    exact ⟨hbits.initial.valid.config.workBits, hbits.initial.hasWork⟩
  · rintro ⟨hle, hwork⟩
    obtain ⟨⟨hinitial, hlayers, hrounds⟩, hends⟩ := h
    obtain ⟨⟨hconfig, hinput, hcommitments⟩, hdeclared, hopened, -⟩ := hinitial
    exact {
      initial := {
        valid := {
          config := { hconfig with workBits := hle }
          publicInput := { hinput with }
          commitments := { hcommitments with } }
        declared := hdeclared
        opened := { hopened with }
        hasWork := hwork }
      layers := hlayers
      rounds := fun i hi => { hrounds i hi with }
      ends := hends }

/-- The digest of the proof of work. -/
def grinding (H : Hash) (p : Parts) : BitVec 256 :=
  H (Digest.workBytes (p.sections.workDigest H) p.sections.commitments.nonce)

/-- The most bits that the proof can ask for. -/
def threshold (H : Hash) (p : Parts) : Int := min 50 ((p.grinding H).clz.toNat : Int)

theorem threshold_le : p.threshold H ≤ 50 := by
  rw [threshold]
  exact min_le_left _ _

theorem le_threshold_iff (h₀ : 0 ≤ bits) : bits ≤ p.threshold H ↔ bits ≤ 50 ∧
    Digest.HasWork H (p.sections.workDigest H) p.sections.commitments.nonce bits := by
  rw [threshold, grinding, le_min_iff, ← Digest.leadingZeros_eq_clz]
  constructor
  · rintro ⟨hle, hzeros⟩
    exact ⟨hle, (Digest.hasWork_iff h₀ (by omega)).2 hzeros⟩
  · rintro ⟨hle, hwork⟩
    exact ⟨hle, (Digest.hasWork_iff h₀ (by omega)).1 hwork⟩

theorem verify_withWorkBits {name : Text} {t : Trace}
    (hres : Layout.resolve name = .ok (layout, params)) (hf : Felts p.calldata)
    (hp : p.Accepted H params layout) : verify H name (p.withWorkBits bits).calldata = .ok t ↔
      (0 ≤ bits ∧ bits ≤ p.threshold H) ∧ t = p.trace H params := by
  constructor
  · intro h
    obtain ⟨layout', params', q, hres', hfelts, hq, haccepted, rfl⟩ := verify_sound h
    obtain rfl := calldata_injective hq
    obtain ⟨rfl, rfl⟩ := Prod.mk.inj (Except.ok.inj (hres.symm.trans hres'))
    have h₀ := ((felts_withWorkBits hf).1 hfelts).nonneg
    exact ⟨⟨h₀, (le_threshold_iff h₀).2 ((accepted_withWorkBits hp).1 haccepted)⟩,
      trace_withWorkBits⟩
  · rintro ⟨⟨h₀, hle⟩, rfl⟩
    have hallowed := (le_threshold_iff h₀).1 hle
    have hbits : IsFelt bits := isFelt_of_lt h₀ (by omega)
    have htrace : (p.withWorkBits bits).trace H params = p.trace H params := trace_withWorkBits
    rw [← htrace]
    exact verify_complete hres ((felts_withWorkBits hf).2 hbits)
      ((accepted_withWorkBits hp).2 hallowed)

/-- The sections are read off the calldata of the proof. -/
theorem run_readSections (hp : p.sections.Valid layout params) (hf : Felts p.sections.flat) :
    ((readSections layout params).run.run (Cursor.ofList p.calldata.dropLast)).1 =
      .ok p.sections := by
  have hread := (readSections_reads layout params).complete
    ((Sections.checked_iff_valid hf).2 hp) [] (p.layers.flatMap Opening.flat)
  rw [calldata, List.dropLast_concat, Cursor.ofList_eq_between, hread]

end Parts

/-- The verifier reads these sections off the calldata, and this is the digest that their proof of
work is about. -/
def Grinds (H : Hash) (name : Text) (calldata : List Int) (d : BitVec 256) : Prop :=
  ∃ layout params s, Layout.resolve name = .ok (layout, params) ∧
    ((readSections layout params).run.run (Cursor.ofList calldata.dropLast)).1 = .ok s ∧
    grindingDigest H s = .ok d

/-- Accepted calldata may ask for any number of bits up to the leading zeros of its digest, as far
as fifty, and for no other; it is accepted with the same trace each time. -/
theorem verify_work_threshold {H : Hash} {name : Text} {calldata : List Int} {t : Trace}
    (h : verify H name calldata = .ok t) :
    ∃ (d : BitVec 256) (bits threshold : Int),
      Grinds H name calldata d ∧ calldata[3]? = some bits ∧
      threshold = min 50 (d.clz.toNat : Int) ∧ bits ≤ threshold ∧ threshold ≤ 50 ∧
      ∀ b : Int,
        ((∃ t', verify H name (calldata.set 3 b) = .ok t') ↔ 0 ≤ b ∧ b ≤ threshold) ∧
        ∀ t', verify H name (calldata.set 3 b) = .ok t' → t' = t := by
  obtain ⟨layout, params, p, hres, hf, rfl, hp, rfl⟩ := verify_sound h
  have hparams := (Layout.resolve_eq_ok.1 hres).2
  have hsections := (Parts.felts_calldata.1 hf).1
  have hpass := hp.initial
  have hdrawable := hpass.opened.drawable hpass.valid hparams hsections
  have hbits : p.sections.config.workBits ≤ p.threshold H :=
    (Parts.le_threshold_iff hdrawable.workBits).2 ⟨hpass.valid.config.workBits, hpass.hasWork⟩
  have hgrinds : Grinds H name p.calldata (p.grinding H) :=
    ⟨layout, params, p.sections, hres, Parts.run_readSections hpass.valid hsections,
      hdrawable.grindingDigest_eq⟩
  refine ⟨p.grinding H, p.sections.config.workBits, p.threshold H, hgrinds,
    Parts.getElem?_calldata_three, rfl, hbits, Parts.threshold_le, fun b => ?_⟩
  rw [← Parts.calldata_withWorkBits]
  refine ⟨⟨?_, fun hb => ?_⟩, fun t' ht => ?_⟩
  · rintro ⟨t', ht⟩
    exact ((Parts.verify_withWorkBits hres hf hp).1 ht).1
  · exact ⟨_, (Parts.verify_withWorkBits hres hf hp).2 ⟨hb, rfl⟩⟩
  · exact ((Parts.verify_withWorkBits hres hf hp).1 ht).2

/-- The small proof asks for fifty bits; fewer would do, and more are not allowed. -/
theorem verify_work_threshold_small :
    verify smallHash Layout.recursive.name (Parts.small [9]).calldata = .ok (.small [9]) ∧
      verify smallHash Layout.recursive.name ((Parts.small [9]).calldata.set 3 7) =
        .ok (.small [9]) ∧
      ¬∃ t, verify smallHash Layout.recursive.name ((Parts.small [9]).calldata.set 3 51) =
        .ok t := by
  have h : verify smallHash Layout.recursive.name (Parts.small [9]).calldata =
      .ok (.small [9]) := by decide +kernel
  obtain ⟨d, bits, threshold, -, hbits, -, hle, hmax, hall⟩ := verify_work_threshold h
  obtain rfl : 50 = bits := Option.some.inj hbits
  obtain ⟨t, ht⟩ := (hall 7).1.2 ⟨by decide, by omega⟩
  refine ⟨h, ?_, fun hmore => ?_⟩
  · rw [ht, (hall 7).2 t ht]
  · have hbounds := (hall 51).1.1 hmore
    omega

end Replay

end StarkReplay
