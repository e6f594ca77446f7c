import StarkReplay.Proofs.Polynomial
import StarkReplay.Proofs.Transcript

/-!
The state that checked sections lead to. The initial phase succeeds exactly if the declared number
of layers is that of the configuration, each trace commitment is opened with as many leaves as the
queries need, and the proof of work is there; the state is then given in closed form.
-/
namespace StarkReplay

namespace Table

/-- The row at a position of a table with so many columns. -/
def row (columns : Nat) (cells : List Int) (j : Nat) : List Int :=
  (cells.drop (j * columns)).take columns

theorem rows_eq_map (columns n : Nat) (cells : List Int) :
    rows columns n cells = (List.range n).map (row columns cells) := by
  induction n generalizing cells with
  | zero => rfl
  | succ n ih =>
    have hr : row columns (cells.drop columns) = row columns cells ∘ Nat.succ := by
      funext j
      simp [row, List.drop_drop, Nat.succ_mul, Nat.add_comm]
    rw [rows, ih, hr, List.range_succ_eq_map, List.map_cons, List.map_map]
    simp [row]

theorem ofCells_eq_map {cells : List Int} {n columns : Nat} (hn : 0 < n) (hc : 0 < columns) :
    ofCells cells n columns = .ok ((List.range n).map (row columns cells)) := by
  rw [ofCells, if_pos (by omega), Int.toNat_natCast, Int.toNat_natCast, rows_eq_map]

theorem felts_row {cells : List Int} (h : Felts cells) (columns j : Nat) :
    Felts (row columns cells j) := (h.drop _).take _

theorem length_row {cells : List Int} {n columns j : Nat} (h : cells.length = n * columns)
    (hj : j < n) : (row columns cells j).length = columns := by
  have hle : (j + 1) * columns ≤ n * columns := Nat.mul_le_mul_right _ hj
  rw [Nat.succ_mul] at hle
  rw [row, List.length_take, List.length_drop]
  omega

end Table

namespace Opening

/-- The opening has so many leaves and is the one that is committed to. -/
structure Opens (H : Hash) (o : Opening) (committed : Int) (count : Nat) : Prop where
  length : o.leaves.length = count
  commitment : committed = Digest.commitmentOf H (o.leaves ++ o.authentications)

theorem felts_of_flat {o : Opening} (h : Felts o.flat) :
    IsFelt o.leaves.length ∧ Felts o.leaves ∧ Felts o.authentications := by
  simp only [flat, felts_append, felts_span] at h
  exact ⟨h.1.1, h.1.2, h.2.2⟩

theorem commitment_eq_ok {H : Hash} {o : Opening} {d : Int} :
    o.commitment H = .ok d ↔ Felts (o.leaves ++ o.authentications) ∧
      d = Digest.commitmentOf H (o.leaves ++ o.authentications) := Digest.commitment_eq_ok

theorem commitment_of_felts {H : Hash} {o : Opening} (h : Felts o.flat) :
    o.commitment H = .ok (Digest.commitmentOf H (o.leaves ++ o.authentications)) := by
  obtain ⟨-, hleaves, hauths⟩ := felts_of_flat h
  exact commitment_eq_ok.2 ⟨felts_append.2 ⟨hleaves, hauths⟩, rfl⟩

theorem check_eq_ok {H : Hash} {o : Opening} {name : Text} {committed : Int} {n columns : Nat}
    {rows : List (List Int)} (ho : Felts o.flat) (hn : 0 < n) (hc : 0 < columns) :
    o.check H name committed n columns = .ok rows ↔
      o.Opens H committed (n * columns) ∧
        rows = (List.range n).map (Table.row columns o.leaves) := by
  rw [check, ite_rejectShowing_eq_ok, liftFelt_of_ok (commitment_of_felts ho), bind_eq_ok,
    Table.ofCells_eq_map hn hc]
  constructor
  · rintro ⟨hl, _, hd, h⟩
    cases hd
    obtain ⟨hcommit, h⟩ := ite_reject_eq_ok.1 h
    cases h
    exact ⟨⟨by exact_mod_cast Decidable.not_not.1 hl, (Decidable.not_not.1 hcommit).symm⟩, rfl⟩
  · rintro ⟨h, rfl⟩
    refine ⟨?_, _, rfl, ite_reject_eq_ok.2 ⟨?_, rfl⟩⟩
    · rw [h.length]
      simp
    · simp [h.commitment]

end Opening

theorem Layout.columns_of_params? {layout : Layout} {params : Params}
    (h : layout.params? = some params) :
    0 < params.originalColumns ∧ 0 < params.interactionColumns ∧ 2 ≤ params.constraintDegree := by
  cases layout <;> simp only [params?, reduceCtorEq, Option.some.injEq] at h <;> subst h <;> decide

theorem Layout.rowWidth_of_params? {layout : Layout} {params : Params}
    (h : layout.params? = some params) : params.rowWidth ≤ 27 := by
  cases layout <;> simp only [params?, reduceCtorEq, Option.some.injEq] at h <;> subst h <;> decide

namespace Replay.Sections

open Digest (feltOf)

variable (H : Hash) (params : Layout.Params) (s : Sections)

/-- The number of queries. -/
def count : Nat := s.config.queries.toNat

/-- The leaves opened for a query in the three trace commitments. -/
def row (j : Nat) : List Int :=
  Table.row params.originalColumns s.original.leaves j ++
    (Table.row params.interactionColumns s.interaction.leaves j ++
      Table.row params.constraintDegree s.composition.leaves j)

/-- The value at a query before the first round. -/
def firstValue (j : Nat) : Int := Polynomial.value (s.row params j) (s.beta H)

/-- The schedule of the rounds. -/
def schedule : Fri.Schedule where
  layers := s.config.layers
  commitments := s.commitments.friLayers
  evalPoints := (List.range s.commitments.friLayers.length).map (s.evalPoint H)
  stepSizes := s.config.stepSizes.tail
  lastLayerDigest := feltOf H s.commitments.coefficients

/-- The state that the sections lead to. -/
def start : Start where
  schedule := s.schedule H
  progress := ⟨0, (List.range s.count).map fun j => (s.index H j, s.firstValue H params j)⟩
  coefficients := s.commitments.coefficients

/-- The trace commitments are opened, with the leaves of every query. -/
structure Opened : Prop where
  original : s.original.Opens H s.commitments.original (s.count * params.originalColumns)
  interaction :
    s.interaction.Opens H s.commitments.interaction (s.count * params.interactionColumns)
  composition : s.composition.Opens H s.commitments.composition (s.count * params.constraintDegree)

/-- The nonce is a proof of work for all that is absorbed before it. -/
def HasWork : Prop :=
  Digest.HasWork H (s.workDigest H) s.commitments.nonce s.config.workBits

instance : Decidable (s.HasWork H) := inferInstanceAs (Decidable (Digest.HasWork ..))

variable {H params s} {layout : Layout}

theorem natCast_count (hs : s.Valid layout params) : (s.count : Int) = s.config.queries := by
  have hq := hs.config.queries
  exact Int.toNat_of_nonneg (by omega)

theorem count_pos (hs : s.Valid layout params) : 0 < s.count := by
  have hc := natCast_count hs
  have hq := hs.config.queries
  omega

/-- Two leaves a query are opened in the composition, and their number is a felt. -/
theorem Opened.isFelt_two_count (h : s.Opened H params) (hp : layout.params? = some params)
    (hf : Felts s.flat) : IsFelt (s.count * 2 : Nat) := by
  have hleaves := (Opening.felts_of_flat (felts_parts hf).2.2.2.2.2).1.2
  have hd : s.count * 2 ≤ s.count * params.constraintDegree :=
    Nat.mul_le_mul_left _ (Layout.columns_of_params? hp).2.2
  rw [h.composition.length] at hleaves
  exact ⟨by omega, by omega⟩

theorem Opened.drawable (h : s.Opened H params) (hs : s.Valid layout params)
    (hp : layout.params? = some params) (hf : Felts s.flat) : s.Drawable := by
  obtain ⟨hconfig, hpublic, hcommitments, -⟩ := felts_parts hf
  simp only [Config.flat, felts_append, felts_cons] at hconfig
  obtain ⟨⟨⟨htrace, hcosets, hq, hwork, -⟩, -⟩, -⟩ := hconfig
  have hnonce : IsFelt s.commitments.nonce := by
    simp only [Commitments.flat, felts_append, felts_cons] at hcommitments
    exact hcommitments.2.1
  have hbits := hs.config.workBits
  have hlog := hs.config.logEvalDomain_le
  have htwo := (h.isFelt_two_count hp hf).2
  have hc := natCast_count hs
  have hpos := count_pos hs
  exact {
    publicInput := hpublic
    commitments := hcommitments
    queries := hq.nonneg
    queries_lt := by omega
    domain := Int.add_nonneg htrace.nonneg hcosets.nonneg
    domain_le := Int.le_trans hlog (by decide)
    nonce := ⟨hnonce.nonneg, hs.commitments.nonce⟩
    workBits := hwork.nonneg
    workBits_le := by omega }

theorem felts_row (hf : Felts s.flat) (j : Nat) : Felts (s.row params j) := by
  obtain ⟨-, -, -, h₁, h₂, h₃⟩ := felts_parts hf
  simp only [row, felts_append]
  exact ⟨Table.felts_row (Opening.felts_of_flat h₁).2.1 _ _,
    Table.felts_row (Opening.felts_of_flat h₂).2.1 _ _,
    Table.felts_row (Opening.felts_of_flat h₃).2.1 _ _⟩

theorem rows_eq_ok {rs : List (List Int)} (hs : s.Valid layout params)
    (hp : layout.params? = some params) (hf : Felts s.flat) :
    rows H params s = .ok rs ↔
      s.Opened H params ∧ rs = (List.range s.count).map (s.row params) := by
  obtain ⟨ho, hi, hd⟩ := Layout.columns_of_params? hp
  obtain ⟨-, -, -, h₁, h₂, h₃⟩ := felts_parts hf
  have hn := count_pos hs
  unfold rows
  simp only [← natCast_count hs, bind_eq_ok, Opening.check_eq_ok h₁ hn ho,
    Opening.check_eq_ok h₂ hn hi,
    Opening.check_eq_ok h₃ hn (by omega : 0 < params.constraintDegree), pure_eq_ok]
  have hzip : List.zipWith (· ++ ·)
      ((List.range s.count).map (Table.row params.originalColumns s.original.leaves))
      (List.zipWith (· ++ ·)
        ((List.range s.count).map (Table.row params.interactionColumns s.interaction.leaves))
        ((List.range s.count).map (Table.row params.constraintDegree s.composition.leaves))) =
      (List.range s.count).map (s.row params) := by
    rw [List.zipWith_map, List.zipWith_self, List.zipWith_map, List.zipWith_self]
    rfl
  constructor
  · rintro ⟨_, ⟨h₁, rfl⟩, _, ⟨h₂, rfl⟩, _, ⟨h₃, rfl⟩, h⟩
    exact ⟨⟨h₁, h₂, h₃⟩, by rw [← h, hzip]⟩
  · rintro ⟨h, rfl⟩
    exact ⟨_, ⟨h.original, rfl⟩, _, ⟨h.interaction, rfl⟩, _, ⟨h.composition, rfl⟩, hzip⟩

/-- The value at each query is that of its row at the first challenge. -/
theorem evaluate_rows (hf : Felts s.flat) :
    ((List.range s.count).map (s.row params)).mapM (Polynomial.evaluate · (s.beta H)) =
      .ok ((List.range s.count).map (s.firstValue H params)) := by
  have hbeta : IsFelt (s.beta H) := Digest.isFelt_feltOf H _
  have hrows : ∀ cs ∈ (List.range s.count).map (s.row params), Felts cs := by
    intro cs hcs
    obtain ⟨j, -, rfl⟩ := List.mem_map.1 hcs
    exact felts_row hf j
  rw [Polynomial.mapM_evaluate hbeta hrows, List.map_map]
  rfl

theorem startOf_eq_ok {t : Start} (hs : s.Valid layout params)
    (hp : layout.params? = some params) (hf : Felts s.flat) :
    startOf H params s = .ok t ↔
      s.layers = s.config.layers ∧ s.Opened H params ∧ s.HasWork H ∧ t = s.start H params := by
  have hcoefficients : s.Opened H params → Digest.felt H s.commitments.coefficients =
      .ok (feltOf H s.commitments.coefficients) :=
    fun h => Digest.felt_of_felts (h.drawable hs hp hf).felts.2.2.2
  have hvalues : ((List.range s.count).map (s.row params)).mapM
      (Polynomial.evaluate · (s.beta H)) = .ok _ := evaluate_rows hf
  have hpairs : (List.range s.count).map (fun j => (s.index H j, s.firstValue H params j)) =
      ((List.range s.count).map (s.index H)).zip
        ((List.range s.count).map (s.firstValue H params)) := List.zip_map'.symm
  rw [startOf, ite_rejectShowing_eq_ok, bind_eq_ok]
  simp only [rows_eq_ok hs hp hf]
  constructor
  · rintro ⟨hl, _, ⟨ho, rfl⟩, h⟩
    rw [challenges_eq (ho.drawable hs hp hf), bind_eq_ok] at h
    obtain ⟨c, hc, h⟩ := h
    cases hc
    split at h
    · rename_i hw
      rw [hvalues, bind_eq_ok] at h
      obtain ⟨_, hv, h⟩ := h
      cases hv
      rw [hcoefficients ho] at h
      cases h
      refine ⟨Decidable.not_not.1 hl, ho, of_decide_eq_true (p := s.HasWork H) hw, ?_⟩
      rw [start, schedule, hpairs]
      rfl
    · cases h
  · rintro ⟨hl, ho, hw, rfl⟩
    refine ⟨by simpa using hl, _, ⟨ho, rfl⟩, ?_⟩
    rw [challenges_eq (ho.drawable hs hp hf), bind_eq_ok]
    refine ⟨_, rfl, ?_⟩
    rw [if_pos (by exact decide_eq_true (p := s.HasWork H) hw), hvalues, bind_eq_ok]
    refine ⟨_, rfl, ?_⟩
    rw [hcoefficients ho, start, schedule, hpairs]
    rfl

/-- The sections pass the initial phase. -/
structure Passes (H : Hash) (layout : Layout) (params : Layout.Params) (s : Sections) : Prop where
  valid : s.Valid layout params
  declared : s.layers = s.config.layers
  opened : s.Opened H params
  hasWork : s.HasWork H

/-- The initial phase reads sections that pass it and nothing else. -/
theorem initial_eq_ok {xs : List Int} {t : Start} {c : Cursor}
    (hp : layout.params? = some params) (hf : Felts xs) :
    (initial H layout params).run.run (Cursor.ofList xs) = (.ok t, c) ↔
      ∃ s left, xs = flat s ++ left ∧ s.Passes H layout params ∧ t = s.start H params ∧
        c = Cursor.between s.flat left := by
  have hreads := readSectionsOrReject_reads layout params
  rw [Cursor.ofList_eq_between, initial, run_bind_eq_ok]
  constructor
  · rintro ⟨s, c', hr, hstart⟩
    obtain ⟨hchecked, left, rfl, rfl⟩ := hreads.sound hf hr
    have hfelts := (felts_append.1 hf).1
    have hvalid := (checked_iff_valid hfelts).1 hchecked
    rw [run_lift] at hstart
    obtain ⟨ht, rfl⟩ := Prod.mk.inj hstart
    obtain ⟨hdeclared, hopened, hwork, rfl⟩ := (startOf_eq_ok hvalid hp hfelts).1 ht
    exact ⟨s, left, rfl, ⟨hvalid, hdeclared, hopened, hwork⟩, rfl, rfl⟩
  · rintro ⟨s, left, rfl, hpass, rfl, rfl⟩
    have hfelts := (felts_append.1 hf).1
    refine ⟨s, _, hreads.complete ((checked_iff_valid hfelts).2 hpass.valid) [] left, ?_⟩
    have ht := (startOf_eq_ok hpass.valid hp hfelts).2
      ⟨hpass.declared, hpass.opened, hpass.hasWork, rfl⟩
    rw [run_lift, ht]
    rfl

end Replay.Sections

end StarkReplay
