import StarkReplay.Proof.Text
import StarkReplay.Proofs.Fields
import StarkReplay.Proofs.Verifier

/-!
The format of a whole proof. A proof whose sections have the shapes of the format is written as
one sequence, and the reads of the verifier, run one after another on that sequence without their
checks, give each of its fields back and leave nothing. Felts that they read to the end are
written by exactly one proof of the format whose scalars are integers.
-/
namespace StarkReplay

open Cursor (between)

open Flat (Field Kind)

/-- The sections have the shapes of the format, with scalars that satisfy `S`. The witness ends
with two arrays for each FRI layer. -/
structure Proof.Shaped (S : Json → Prop) (proof : Proof) : Prop where
  config : List.Forall₂ (Kind.Fits S)
    [.scalar, .scalar, .scalar, .scalar, .array, .scalar] proof.config
  publicInput : List.Forall₂ (Kind.Fits S)
    [.scalar, .scalar, .scalar, .scalar, .array] proof.publicInput
  unsentCommitment : List.Forall₂ (Kind.Fits S)
    [.scalar, .scalar, .scalar, .array, .array, .array, .scalar] proof.unsentCommitment
  witness : ∃ layers, List.Forall₂ (Kind.Fits S)
    (List.replicate 6 .array ++ [.scalar] ++ List.replicate (2 * layers) .array) proof.witness

namespace Replay

/-! ## Reads -/

/-- Reads the sections without their checks. -/
def Sections.read : CursorM Sections := do
  let config ← Config.read
  let publicInput ← PublicInput.read
  let commitments ← Commitments.read
  let original ← Opening.read
  let interaction ← Opening.read
  let composition ← Opening.read
  let layers ← Cursor.read
  return { config, publicInput, commitments, original, interaction, composition, layers }

theorem Sections.reads : Reads Sections.read (fun _ => True) Sections.flat := by
  have h : Reads Sections.read (fun _ => True) _ :=
    .field Sections.config Config.reads fun _ =>
    .field Sections.publicInput PublicInput.reads fun _ =>
    .field Sections.commitments Commitments.reads fun _ =>
    .field Sections.original Opening.reads fun _ =>
    .field Sections.interaction Opening.reads fun _ =>
    .field Sections.composition Opening.reads fun _ =>
    .field Sections.layers .read fun _ =>
    (Reads.pure _).congr (fun s => by cases s; simp [and_assoc]) fun _ _ => rfl
  exact h.congr (fun _ => Iff.rfl) fun s _ => by simp [flat]

namespace Parts

/-- Reads the sections, then groups everything behind them into layers. -/
def read : CursorM Parts := do
  let sections ← Sections.read
  let rest ← Cursor.readRest
  let layers ← Fri.layersOf rest
  return { sections, layers }

/-- The calldata up to the version tag. -/
def body (p : Parts) : List Int := p.sections.flat ++ p.layers.flatMap Opening.flat

theorem calldata_eq_body (p : Parts) : p.calldata = p.body ++ [Flat.versionTag] := rfl

theorem run_read_body (p : Parts) :
    read.run.run (Cursor.ofList p.body) = (.ok p, between p.body []) := by
  have hsections := Sections.reads.complete (a := p.sections) trivial []
    (p.layers.flatMap Opening.flat)
  rw [Cursor.ofList_eq_between, read, body, run_bind_of_ok hsections,
    run_bind_of_ok (Cursor.run_readRest _ _), Fri.layersOf_flatMap]
  rfl

/-- Felts are read only if they are a body. -/
theorem eq_body_of_read {xs : List Int} {p : Parts} {c : Cursor} (hf : Felts xs)
    (h : read.run.run (Cursor.ofList xs) = (.ok p, c)) : xs = p.body := by
  rw [Cursor.ofList_eq_between] at h
  obtain ⟨s, c₁, hs, h⟩ := run_bind_eq_ok.1 h
  obtain ⟨-, left, rfl, rfl⟩ := Sections.reads.sound hf hs
  rw [run_bind_of_ok (Cursor.run_readRest _ _)] at h
  obtain ⟨layers, c₂, hlayers, h⟩ := run_bind_eq_ok.1 h
  have hgrouped : Fri.layersOf left = .ok layers := (Prod.mk.inj hlayers).1
  rw [run_pure] at h
  cases h
  rw [body, ← (Fri.layersOf_eq_ok (felts_append.1 hf).2).1 hgrouped]

/-! ## Fields -/

/-- The fields of the witness. -/
def witness (p : Parts) : List Field :=
  p.sections.original.fields ++ p.sections.interaction.fields ++ p.sections.composition.fields ++
    [.scalar p.sections.layers] ++ p.layers.flatMap Opening.fields

/-- A body is the flat form of the fields. -/
theorem body_eq_flatMap (p : Parts) : p.body =
    p.sections.config.fields.flatMap Field.flat ++
      p.sections.publicInput.fields.flatMap Field.flat ++
      p.sections.commitments.fields.flatMap Field.flat ++ p.witness.flatMap Field.flat := by
  simp only [body, Sections.flat, witness, Config.flatMap_fields, PublicInput.flatMap_fields,
    Commitments.flatMap_fields, Opening.flatMap_fields, List.flatMap_append, List.flatMap_assoc,
    List.append_assoc]
  rfl

theorem exists_layers {n : Nat} {fs : List Field}
    (h : fs.map Field.kind = List.replicate (2 * n) .array) :
    ∃ layers : List Opening, layers.flatMap Opening.fields = fs := by
  induction n generalizing fs with
  | zero => exact ⟨[], (List.map_eq_nil_iff.1 h).symm⟩
  | succ n ih =>
    -- the two runs of the next opening
    rw [Nat.mul_add_one, Nat.add_comm, ← List.replicate_append_replicate,
      List.map_eq_append_iff] at h
    obtain ⟨first, rest, rfl, hfirst, hrest⟩ := h
    obtain ⟨o, rfl⟩ := Opening.exists_eq_fields hfirst
    obtain ⟨layers, rfl⟩ := ih hrest
    exact ⟨o :: layers, List.flatMap_cons⟩

theorem map_kind_witness (p : Parts) : p.witness.map Field.kind =
    List.replicate 6 .array ++ [.scalar] ++ List.replicate (2 * p.layers.length) .array := by
  have hlayers : (p.layers.flatMap Opening.fields).map Field.kind =
      List.replicate (2 * p.layers.length) .array := by
    induction p.layers with
    | nil => rfl
    | cons o layers ih =>
      rw [List.flatMap_cons, List.map_append, ih]
      rfl
  rw [witness, List.map_append, hlayers]
  rfl

/-- The trees of the proof stand for the fields of the parts. -/
structure Matches (R : Int → Json → Prop) (p : Parts) (proof : Proof) : Prop where
  config : List.Forall₂ (Field.Matches R) p.sections.config.fields proof.config
  publicInput : List.Forall₂ (Field.Matches R) p.sections.publicInput.fields proof.publicInput
  unsentCommitment :
    List.Forall₂ (Field.Matches R) p.sections.commitments.fields proof.unsentCommitment
  witness : List.Forall₂ (Field.Matches R) p.witness proof.witness

variable {R : Int → Json → Prop} {p : Parts} {proof : Proof}

theorem Matches.shaped (h : p.Matches R proof) : proof.Shaped fun t => ∃ v, R v t where
  config := Flat.fits_of_matches h.config
  publicInput := Flat.fits_of_matches h.publicInput
  unsentCommitment := Flat.fits_of_matches h.unsentCommitment
  witness := ⟨p.layers.length, p.map_kind_witness ▸ Flat.fits_of_matches h.witness⟩

/-- The trees of a witness stand for three openings, a number and the layers. -/
theorem exists_witness {n : Nat} {trees : List Json} (config : Config) (publicInput : PublicInput)
    (commitments : Commitments)
    (h : List.Forall₂ (Kind.Fits fun t => ∃ v, R v t)
      (List.replicate 6 .array ++ [.scalar] ++ List.replicate (2 * n) .array) trees) :
    ∃ p : Parts, p.sections.config = config ∧ p.sections.publicInput = publicInput ∧
      p.sections.commitments = commitments ∧ List.Forall₂ (Field.Matches R) p.witness trees := by
  obtain ⟨fs, hkinds, hfields⟩ := Flat.exists_fields h
  obtain ⟨head, rest, rfl, hhead, hrest⟩ := List.map_eq_append_iff.1 hkinds
  obtain ⟨layers, rfl⟩ := exists_layers hrest
  match head, hhead with
  | [.array l₁, .array a₁, .array l₂, .array a₂, .array l₃, .array a₃, .scalar count], _ =>
    exact ⟨⟨⟨config, publicInput, commitments, ⟨l₁, a₁⟩, ⟨l₂, a₂⟩, ⟨l₃, a₃⟩, count⟩, layers⟩,
      rfl, rfl, rfl, hfields⟩

theorem exists_matches (h : proof.Shaped fun t => ∃ v, R v t) : ∃ p : Parts, p.Matches R proof := by
  obtain ⟨_, hconfig, hconfigs⟩ := Flat.exists_fields h.config
  obtain ⟨_, hpublic, hpublics⟩ := Flat.exists_fields h.publicInput
  obtain ⟨_, hcommitment, hcommitments⟩ := Flat.exists_fields h.unsentCommitment
  obtain ⟨config, rfl⟩ := Config.exists_eq_fields hconfig
  obtain ⟨publicInput, rfl⟩ := PublicInput.exists_eq_fields hpublic
  obtain ⟨commitments, rfl⟩ := Commitments.exists_eq_fields hcommitment
  obtain ⟨layers, hwitness⟩ := h.witness
  obtain ⟨p, rfl, rfl, rfl, hwitness⟩ := exists_witness config publicInput commitments hwitness
  exact ⟨p, hconfigs, hpublics, hcommitments, hwitness⟩

theorem Matches.imp {R' : Int → Json → Prop} (hR : ∀ v t, R v t → R' v t)
    (h : p.Matches R proof) : p.Matches R' proof where
  config := h.config.imp fun _ _ => Field.Matches.imp hR
  publicInput := h.publicInput.imp fun _ _ => Field.Matches.imp hR
  unsentCommitment := h.unsentCommitment.imp fun _ _ => Field.Matches.imp hR
  witness := h.witness.imp fun _ _ => Field.Matches.imp hR

theorem Matches.flattenSection (h : p.Matches Flat.Encodes proof) :
    Flat.flattenSection (.arr proof.publicInput) = .ok p.sections.publicInput.flat := by
  rw [Flat.flattenSection, Flat.flattenItems_of_matches h.publicInput, PublicInput.flatMap_fields]

theorem Matches.calldata (h : p.Matches Flat.Encodes proof) :
    proof.calldata = .ok p.calldata := by
  rw [Proof.calldata, Flat.flattenItems_of_matches h.config,
    Flat.flattenItems_of_matches h.publicInput, Flat.flattenItems_of_matches h.unsentCommitment,
    Flat.flattenItems_of_matches h.witness, calldata_eq_body, body_eq_flatMap]
  rfl

/-- One spelling for each element leaves one proof for the parts. -/
theorem Matches.eq {proof' : Proof} (hR : Relator.RightUnique R) (h : p.Matches R proof)
    (h' : p.Matches R proof') : proof = proof' := by
  have hunique := Field.rightUnique_matches hR
  have hconfig := List.right_unique_forall₂' hunique h.config h'.config
  have hpublic := List.right_unique_forall₂' hunique h.publicInput h'.publicInput
  have hcommitments := List.right_unique_forall₂' hunique h.unsentCommitment h'.unsentCommitment
  have hwitness := List.right_unique_forall₂' hunique h.witness h'.witness
  obtain ⟨_, _, _, _⟩ := proof
  obtain ⟨_, _, _, _⟩ := proof'
  simp only at hconfig hpublic hcommitments hwitness
  subst hconfig hpublic hcommitments hwitness
  rfl

theorem exists_proof (hf : Felts p.body) : ∃ proof, p.Matches Flat.Denotes proof := by
  simp only [body_eq_flatMap, felts_append] at hf
  obtain ⟨⟨⟨hconfig, hpublic⟩, hcommitments⟩, hwitness⟩ := hf
  obtain ⟨config, hconfig⟩ := Flat.exists_trees hconfig
  obtain ⟨publicInput, hpublic⟩ := Flat.exists_trees hpublic
  obtain ⟨unsentCommitment, hcommitments⟩ := Flat.exists_trees hcommitments
  obtain ⟨witness, hwitness⟩ := Flat.exists_trees hwitness
  exact ⟨⟨config, publicInput, unsentCommitment, witness⟩, hconfig, hpublic, hcommitments,
    hwitness⟩

/-- Reading the calldata of a proof gives its fields back, whatever spelling their scalars have;
felts that are read to the end are written by one proof of integers and no other. -/
theorem read_inverts_calldata :
    (∀ proof : Proof, proof.Shaped Flat.Encodable →
      ∃ (p : Parts) (calldata : List Int) (c : Cursor),
        p.Matches Flat.Encodes proof ∧ proof.calldata = .ok calldata ∧
        read.run.run (Cursor.ofList calldata.dropLast) = (.ok p, c) ∧ c.atEnd ∧
        Flat.flattenSection (.arr proof.publicInput) = .ok p.sections.publicInput.flat) ∧
    ∀ (xs : List Int) (p : Parts) (c : Cursor), Felts xs →
      read.run.run (Cursor.ofList xs) = (.ok p, c) → c.atEnd →
        ∃! proof : Proof, proof.Shaped Flat.IsNumber ∧
          proof.calldata = .ok (xs ++ [Flat.versionTag]) := by
  constructor
  · intro proof hproof
    obtain ⟨p, hp⟩ := exists_matches hproof
    refine ⟨p, p.calldata, between p.body [], hp, hp.calldata, ?_, ?_, hp.flattenSection⟩
    · rw [calldata_eq_body, List.dropLast_concat, run_read_body]
    · rw [Cursor.atEnd_between]
      rfl
  · intro xs p c hf hread _
    obtain rfl := eq_body_of_read hf hread
    obtain ⟨proof, hproof⟩ := exists_proof hf
    have hencodes := hproof.imp fun _ _ => Flat.Denotes.encodes
    refine ⟨proof, ⟨hproof.shaped, hencodes.calldata⟩, ?_⟩
    rintro other ⟨hshaped, hcalldata⟩
    obtain ⟨q, hq⟩ := exists_matches hshaped
    have hqcalldata := (hq.imp fun _ _ => Flat.Denotes.encodes).calldata
    obtain rfl := calldata_injective (Except.ok.inj (hqcalldata.symm.trans hcalldata))
    exact hq.eq Flat.rightUnique_denotes hproof

/-- A proof with one layer, two of its scalars as texts. -/
def smallProof : Proof where
  config := [.int 20, .str (Text.ofString "2"), .int 1, .int 30,
    .arr [.int 0, .str (Text.ofString "0x4")], .int 6]
  publicInput := [.int 12, .int 0, .int 9, .int 3, .arr [.int 7]]
  unsentCommitment :=
    [.int 10, .int 11, .int 12, .arr [.int 13], .arr [], .arr [.int 14, .int 15], .int 16]
  witness := [.arr [.int 17], .arr [], .arr [], .arr [.int 18], .arr [], .arr [], .int 1,
    .arr [.int 19, .int 20], .arr []]

/-- The calldata of this proof is read back, and is that of one proof of integers. -/
theorem read_inverts_calldata_small :
    smallProof.Shaped Flat.Encodable ∧
      ∃ (p : Parts) (calldata : List Int) (c : Cursor), p.Matches Flat.Encodes smallProof ∧
        smallProof.calldata = .ok calldata ∧
        read.run.run (Cursor.ofList calldata.dropLast) = (.ok p, c) ∧ c.atEnd ∧
        ∃! proof : Proof, proof.Shaped Flat.IsNumber ∧ proof.calldata = .ok calldata := by
  have hint {n : Int} (h₀ : 0 ≤ n) (h : n < 2 ^ 251) : Flat.Encodable (.int n) :=
    ⟨n, Flat.scalar_int (isFelt_of_lt h₀ h)⟩
  have htwo : Flat.Encodable (.str (Text.ofString "2")) := ⟨2, rfl⟩
  have hfour : Flat.Encodable (.str (Text.ofString "0x4")) := ⟨4, rfl⟩
  have hshaped : smallProof.Shaped Flat.Encodable := by
    refine ⟨?_, ?_, ?_, 1, ?_⟩ <;> simp [smallProof, Flat.Kind.Fits, htwo, hfour, hint]
  have hflat : smallProof.calldata = .ok ([20, 2, 1, 30, 2, 0, 4, 6, 12, 0, 9, 3, 1, 7, 10, 11, 12,
    1, 13, 0, 2, 14, 15, 16, 1, 17, 0, 0, 1, 18, 0, 0, 1, 2, 19, 20, 0] ++ [1]) := rfl
  obtain ⟨hwritten, hread⟩ := read_inverts_calldata
  obtain ⟨p, calldata, c, hmatches, hcalldata, hrun, hend, -⟩ := hwritten smallProof hshaped
  cases hflat.symm.trans hcalldata
  have hbody := hrun
  rw [List.dropLast_concat] at hbody
  exact ⟨hshaped, p, _, c, hmatches, hcalldata, hrun, hend, hread _ p c (by decide) hbody hend⟩

end Parts

end Replay

end StarkReplay
