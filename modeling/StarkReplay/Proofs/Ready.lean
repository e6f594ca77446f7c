import StarkReplay.Proofs.Failing
import StarkReplay.Proofs.Rounds

/-!
What a round preserves. A schedule has an entry for each of its rounds; a progress has at least one
query, with felts as index and value. From such a state a round on felts fails only by rejecting
its layer, and it leads to such a state again. So no state of a run holds anything on which a
later round or the check of the last layer could fail in another way.
-/
namespace StarkReplay

open Failure (IsRejection)

/-- There is an entry for each round, with a step of one to four bits and a felt as point. -/
structure Fri.Schedule.WellFormed (s : Schedule) : Prop where
  layers : s.layers ≤ 15
  commitments : (s.commitments.length : Int) = s.layers
  evalPoints : (s.evalPoints.length : Int) = s.layers
  stepSizes : (s.stepSizes.length : Int) = s.layers
  points : Felts s.evalPoints
  sizes : ∀ size ∈ s.stepSizes, 1 ≤ size ∧ size ≤ 4

/-- The state before one of the rounds or after the last one. -/
structure Fri.Progress.Ready (s : Schedule) (p : Progress) : Prop where
  round : 0 ≤ p.round
  round_le : p.round ≤ s.layers
  queries : p.queries ≠ []
  felts : ∀ q ∈ p.queries, IsFelt q.1 ∧ IsFelt q.2

namespace Replay

open Fri

variable {H : Hash} {s : Schedule} {p next : Progress} {layer : Opening}

/-- The numbers of rounds that a rejection can show. -/
theorem isFelt_rounds (hs : s.WellFormed) (hp : p.Ready s) :
    IsFelt p.round ∧ IsFelt (p.round + 1) ∧ IsFelt s.layers := by
  have hround := hp.round
  have hle := hp.round_le
  have hlayers := hs.layers
  exact ⟨isFelt_of_lt (by omega) (by omega), isFelt_of_lt (by omega) (by omega),
    isFelt_of_lt (by omega) (by omega)⟩

/-! ## One query -/

theorem elementAt_mod_failsOnly {xs : List Int} (h : xs ≠ []) (i : Int) {K : Failure → Prop} :
    FailsOnly K (elementAt xs (i % xs.length)) := by
  have hlength := List.length_pos_iff.2 h
  have hplace := Int.emod_nonneg i (by omega : (xs.length : Int) ≠ 0)
  have hlt := Int.emod_lt_of_pos i (by omega : (0 : Int) < xs.length)
  have hget := List.getElem?_eq_getElem (l := xs) (i := (i % xs.length).toNat) (by omega)
  exact .of_eq_ok ((elementAt_eq_ok hplace).2 hget)

theorem foldQuery_failsOnly {number point : Int} {size : Nat} {query : Int × Int}
    {coset : List Int} (hpoint : IsFelt point) (hindex : IsFelt query.1) (hcoset : Felts coset)
    (hne : coset ≠ []) : FailsOnly IsRejection (foldQuery number size point query coset) := by
  unfold foldQuery
  refine .bind (elementAt_mod_failsOnly hne _) fun _ _ => ?_
  refine .ite_rejectShowing (felts_singleton.2 hindex) fun _ => ?_
  exact .bind (.of_eq_ok (Polynomial.evaluate_of_felts hpoint hcoset)) fun _ _ => .ok _

theorem foldQueries_failsOnly {number point : Int} {size : Nat} {queries : List (Int × Int)}
    {cosets : List (List Int)} (hpoint : IsFelt point) (hqueries : ∀ q ∈ queries, IsFelt q.1)
    (hcosets : ∀ coset ∈ cosets, Felts coset ∧ coset ≠ []) :
    FailsOnly IsRejection (foldQueries number size point queries cosets) := by
  induction queries generalizing cosets with
  | nil => exact .ok _
  | cons query queries ih =>
    cases cosets with
    | nil => exact .ok _
    | cons coset cosets =>
      obtain ⟨⟨hcoset, hne⟩, hrest⟩ := List.forall_mem_cons.1 hcosets
      obtain ⟨hindex, hothers⟩ := List.forall_mem_cons.1 hqueries
      refine .bind (foldQuery_failsOnly hpoint hindex hcoset hne) fun _ _ => ?_
      exact .bind (ih hothers hrest) fun _ _ => .ok _

/-! ## One round -/

/-- What a schedule has for a round. -/
structure Entry (s : Schedule) (i size : Nat) (committed point : Int) : Prop where
  stepSize : s.stepSizes[i]? = some (size : Int)
  small : size ≤ 4
  commitment : s.commitments[i]? = some committed
  evalPoint : s.evalPoints[i]? = some point
  isFelt : IsFelt point

theorem exists_entry (hs : s.WellFormed) {i : Nat} (hi : (i : Int) < s.layers) :
    ∃ size committed point, Entry s i size committed point := by
  have hsizes := hs.stepSizes
  have hcommitments := hs.commitments
  have hpoints := hs.evalPoints
  have hsize : i < s.stepSizes.length := by omega
  have hcommitted : i < s.commitments.length := by omega
  have hpoint : i < s.evalPoints.length := by omega
  obtain ⟨hlow, hhigh⟩ := hs.sizes _ (List.getElem_mem hsize)
  obtain ⟨n, hn⟩ := Int.eq_ofNat_of_zero_le (by omega : 0 ≤ s.stepSizes[i])
  refine ⟨n, s.commitments[i], s.evalPoints[i], ?_, by omega, List.getElem?_eq_getElem hcommitted,
    List.getElem?_eq_getElem hpoint, hs.points _ (List.getElem_mem hpoint)⟩
  rw [List.getElem?_eq_getElem hsize, hn]

/-- A round on felts fails only by rejecting its layer. -/
theorem step_failsOnly (hs : s.WellFormed) (hp : p.Ready s) (hlayer : Felts layer.flat) :
    FailsOnly IsRejection (step H s p layer) := by
  have hround := hp.round
  have hle := hp.round_le
  have hlayers := hs.layers
  have hqueries := List.length_pos_iff.2 hp.queries
  rw [step]
  refine .ite_rejectShowing (by simpa using (isFelt_rounds hs hp).2) fun hbefore => ?_
  obtain ⟨i, hi⟩ := Int.eq_ofNat_of_zero_le hround
  obtain ⟨size, committed, point, hentry⟩ := exists_entry hs (i := i) (by omega)
  have hsize : size ≤ 15 := Nat.le_trans hentry.small (by decide)
  have hpow : powerOfTwo size = .ok (2 ^ size) := powerOfTwo_of_small hsize
  have hsmall : 2 ^ size ≤ 2 ^ 15 := Nat.pow_le_pow_right (by decide) hsize
  rw [hi]
  refine .bind_of_ok (elementAt_natCast hentry.stepSize) (.bind_of_ok hpow ?_)
  refine .ite_rejectShowing (felts_singleton.2 (isFelt_natCast hsmall)) fun hleaves => ?_
  refine .bind_of_ok (liftFelt_of_ok (Opening.commitment_of_felts hlayer)) ?_
  refine .bind_of_ok (elementAt_natCast hentry.commitment) (.ite_reject fun _ => ?_)
  refine .bind_of_ok (elementAt_natCast hentry.evalPoint) ?_
  have htable : Table.ofCells layer.leaves p.queries.length (2 ^ size : Nat) = .ok _ :=
    Table.ofCells_eq_map hqueries (Nat.two_pow_pos size)
  refine .bind_of_ok (mapError_eq_ok.2 htable) (.bind (foldQueries_failsOnly hentry.isFelt
    (fun q hq => (hp.felts q hq).1) ?_) fun _ _ => .ok _)
  intro coset hcoset
  obtain ⟨j, hj, rfl⟩ := List.mem_map.1 hcoset
  have hlength := Table.length_row (Decidable.not_not.1 hleaves) (List.mem_range.1 hj)
  refine ⟨Table.felts_row (Opening.felts_of_flat hlayer).2.1 _ _, List.length_pos_iff.1 ?_⟩
  rw [hlength]
  exact Nat.two_pow_pos size

/-- The queries of a progress, listed along their positions. -/
theorem exists_eq_map (hp : p.Ready s) :
    ∃ (i n : Nat) (index value : Nat → Int), 0 < n ∧
      p = ⟨i, (List.range n).map fun j => (index j, value j)⟩ := by
  obtain ⟨round, queries⟩ := p
  obtain ⟨i, rfl⟩ := Int.eq_ofNat_of_zero_le hp.round
  refine ⟨i, queries.length, fun j => (queries.getD j (0, 0)).1,
    fun j => (queries.getD j (0, 0)).2, List.length_pos_iff.2 hp.queries, ?_⟩
  refine congrArg (Progress.mk _) (List.ext_getElem (by simp) fun j hj _ => ?_)
  simp [hj]

/-- A layer is opened against a commitment, holds the values of the queries in cosets of
`2 ^ size` leaves, and takes the queries on to the values that the cosets fold to at a point. -/
structure Folds (H : Hash) (layer : Opening) (size : Nat) (committed point : Int)
    (queries folded : List (Int × Int)) : Prop where
  opens : layer.Opens H committed (queries.length * 2 ^ size)
  holds : ∀ j q, queries[j]? = some q → Holds size (Table.row (2 ^ size) layer.leaves j) q.1 q.2
  folded : folded = queries.mapIdx fun j q =>
    (q.1 / 2 ^ size, Polynomial.value (Table.row (2 ^ size) layer.leaves j) point)

theorem round_lt_of_step (h : step H s p layer = .ok next) : p.round < s.layers := by
  by_contra hle
  rw [step, if_pos (by omega)] at h
  exact absurd h (rejectShowing_ne_ok _ _ _)

/-- No round passes after the last one. -/
theorem step_of_round_eq (hs : s.WellFormed) (hp : p.Ready s) (hround : p.round = s.layers)
    (layer : Opening) : step H s p layer = reject (.stepBeyond (s.layers + 1) s.layers) := by
  rw [step, if_pos (Int.le_of_eq hround.symm),
    rejectShowing_of_felts (by simpa using (isFelt_rounds hs hp).2), hround]

/-- A round that passes has checked its layer against the entry of the schedule for it. -/
theorem step_sound (hs : s.WellFormed) (hp : p.Ready s) (h : step H s p layer = .ok next) :
    ∃ (i size : Nat) (committed point : Int), p.round = i ∧ Entry s i size committed point ∧
      Folds H layer size committed point p.queries next.queries ∧ next.round = i + 1 := by
  have hround := round_lt_of_step h
  obtain ⟨i, n, index, value, hn, rfl⟩ := exists_eq_map hp
  obtain ⟨size, committed, point, hentry⟩ := exists_entry hs hround
  obtain ⟨-, ho, hheld, rfl⟩ := (step_eq_ok hn hround hentry.stepSize hentry.small
    hentry.commitment hentry.evalPoint hentry.isFelt).1 h
  refine ⟨i, size, committed, point, rfl, hentry, ⟨?_, ?_, ?_⟩, rfl⟩
  · simpa using ho
  · intro j q hq
    obtain ⟨hj, rfl⟩ := List.getElem?_eq_some_iff.1 hq
    simp only [List.length_map, List.length_range] at hj
    simpa using hheld j hj
  · exact List.ext_getElem (by simp) fun j hj _ => by simp

theorem isFelt_shift {index : Int} (h : IsFelt index) (size : Nat) : IsFelt (index / 2 ^ size) :=
  ⟨Int.ediv_nonneg h.1 (Int.pow_nonneg (by decide)),
    Int.lt_of_le_of_lt (Int.ediv_le_self _ h.1) h.2⟩

/-- A round leads to the state before the next one. -/
theorem step_ready (hs : s.WellFormed) (hp : p.Ready s) (h : step H s p layer = .ok next) :
    next.Ready s := by
  have hlt := round_lt_of_step h
  obtain ⟨i, size, committed, point, hround, -, hfolds, hnext⟩ := step_sound hs hp h
  refine ⟨by omega, by omega, ?_, ?_⟩
  · have hqueries := List.length_pos_iff.2 hp.queries
    rw [hfolds.folded, ← List.length_pos_iff, List.length_mapIdx]
    exact hqueries
  · intro q hq
    rw [hfolds.folded, List.mem_mapIdx] at hq
    obtain ⟨j, hj, rfl⟩ := hq
    exact ⟨isFelt_shift (hp.felts _ (List.getElem_mem hj)).1 size, Polynomial.isFelt_value _ _⟩

/-! ## All rounds -/

/-- A run of rounds fails only by rejecting one of its layers. -/
theorem states_failsOnly {layers : List Opening} (hs : s.WellFormed) (hp : p.Ready s)
    (hlayers : Felts (layers.flatMap Opening.flat)) :
    FailsOnly IsRejection (states H s p layers) := by
  induction layers generalizing p with
  | nil => exact .ok _
  | cons layer layers ih =>
    rw [List.flatMap_cons, felts_append] at hlayers
    refine .bind (step_failsOnly hs hp hlayers.1) fun next hnext => ?_
    exact .bind (ih (step_ready hs hp hnext) hlayers.2) fun _ _ => .ok _

/-- Every state of a run is ready for what follows it. -/
theorem states_ready {layers : List Opening} {sts : List Progress} (hs : s.WellFormed)
    (hp : p.Ready s) (h : states H s p layers = .ok sts) : ∀ q ∈ sts, q.Ready s := by
  induction layers generalizing p sts with
  | nil =>
    cases h
    simpa using hp
  | cons layer layers ih =>
    obtain ⟨next, hnext, h⟩ := bind_eq_ok.1 h
    obtain ⟨rest, hrest, h⟩ := bind_eq_ok.1 h
    cases h
    exact List.forall_mem_cons.2 ⟨hp, ih (step_ready hs hp hnext) hrest⟩

/-! ## The last layer -/

theorem checkLastLayer_failsOnly {coefficients : List Int} {queries : List (Int × Int)}
    (hcoefficients : Felts coefficients) (hqueries : ∀ q ∈ queries, IsFelt q.1) :
    FailsOnly IsRejection (checkLastLayer coefficients queries) := by
  induction queries with
  | nil => exact .ok _
  | cons q queries ih =>
    obtain ⟨hq, hrest⟩ := List.forall_mem_cons.1 hqueries
    rw [checkLastLayer]
    refine .bind_of_ok (Polynomial.evaluate_of_felts hq hcoefficients) ?_
    exact .ite_reject fun _ => ih hrest

theorem finish_of_round_ne (hs : s.WellFormed) (hp : p.Ready s) (hround : p.round ≠ s.layers)
    (coefficients : List Int) :
    finish H s p coefficients = reject (.finalTooEarly p.round s.layers) := by
  obtain ⟨hdone, -, hlayers⟩ := isFelt_rounds hs hp
  rw [finish, if_pos hround]
  exact rejectShowing_of_felts (by simpa using ⟨hdone, hlayers⟩) _

theorem round_of_finish {coefficients : List Int} (h : finish H s p coefficients = .ok ()) :
    p.round = s.layers := by
  by_contra hround
  rw [finish, if_pos hround] at h
  exact rejectShowing_ne_ok _ _ _ h

theorem finish_failsOnly {coefficients : List Int} (hs : s.WellFormed) (hp : p.Ready s)
    (hcoefficients : Felts coefficients) : FailsOnly IsRejection (finish H s p coefficients) := by
  obtain ⟨hdone, -, hlayers⟩ := isFelt_rounds hs hp
  rw [finish]
  refine .ite_rejectShowing (by simpa using ⟨hdone, hlayers⟩) fun _ => ?_
  refine .bind_of_ok (liftFelt_of_ok (Digest.felt_of_felts hcoefficients)) ?_
  refine .ite_reject fun _ => checkLastLayer_failsOnly hcoefficients fun q hq => ?_
  exact (hp.felts q hq).1

/-! ## The first state -/

namespace Sections

variable {params : Layout.Params} {layout : Layout} {sections : Sections}

theorem schedule_wellFormed (hs : sections.Valid layout params) :
    (sections.schedule H).WellFormed where
  layers := hs.config.layers.2
  commitments := hs.commitments.friLayers
  evalPoints := by
    rw [schedule, List.length_map, List.length_range]
    exact hs.commitments.friLayers
  stepSizes := by
    have hlayers := hs.config.layers
    simp only [schedule, List.length_tail, Config.layers] at *
    omega
  points := by
    intro v hv
    obtain ⟨i, -, rfl⟩ := List.mem_map.1 hv
    exact Digest.isFelt_feltOf H _
  sizes := hs.config.stepSizes

theorem start_ready (hs : sections.Valid layout params) :
    (sections.start H params).progress.Ready (sections.schedule H) where
  round := Int.le_refl 0
  round_le := by
    have hlayers := hs.config.layers.1
    simp only [start, schedule]
    omega
  queries := by
    have hn := count_pos hs
    simp only [start, ne_eq, List.map_eq_nil_iff, List.range_eq_nil]
    omega
  felts := by
    intro q hq
    obtain ⟨j, -, rfl⟩ := List.mem_map.1 hq
    have hindex := Parts.isFelt_index (H := H) (p := ⟨sections, []⟩) hs 0 j
    simp only [Parts.index, bitsBefore, List.range_zero, List.map_nil, List.sum_nil, pow_zero,
      Int.ediv_one] at hindex
    exact ⟨hindex, Polynomial.isFelt_value _ _⟩

end Sections

end Replay

end StarkReplay
