import StarkReplay.Proofs.Start
import StarkReplay.Replay.Trace

/-!
The states between the rounds in closed form. A round takes every query from one state to the
next exactly if its layer is opened and each coset holds, at the place that the index tells, the
value that was folded before. A run of rounds succeeds exactly if each of them does, and passes
through the states in their order.
-/
namespace StarkReplay.Replay

open Digest (feltOf)

/-! ## One query -/

theorem elementAt_eq_ok {xs : List Int} {i x : Int} (h : 0 ≤ i) :
    elementAt xs i = .ok x ↔ xs[i.toNat]? = some x := by
  unfold elementAt
  rw [if_neg (by omega), if_neg (by omega)]
  cases xs[i.toNat]? with
  | none => simp
  | some y => simp

theorem elementAt_natCast {xs : List Int} {i : Nat} {x : Int} (h : xs[i]? = some x) :
    elementAt xs i = .ok x :=
  (elementAt_eq_ok (by omega)).2 (by rwa [Int.toNat_natCast])

/-- A coset of `2 ^ size` elements holds a value at the place that an index tells. -/
def Holds (size : Nat) (coset : List Int) (index value : Int) : Prop :=
  coset[(index % 2 ^ size).toNat]? = some value

instance (size : Nat) (coset : List Int) (index value : Int) :
    Decidable (Holds size coset index value) := inferInstanceAs (Decidable (_ = _))

theorem foldQuery_eq_ok {layer point index value : Int} {size : Nat} {coset : List Int}
    {folded : Int × Int} (hpoint : IsFelt point) (hcoset : Felts coset)
    (hlength : coset.length = 2 ^ size) :
    foldQuery layer size point (index, value) coset = .ok folded ↔
      Holds size coset index value ∧
        folded = (index / 2 ^ size, Polynomial.value coset point) := by
  have hplace : 0 ≤ index % 2 ^ size := Int.emod_nonneg _ (by simp)
  have hshift : index >>> size = index / 2 ^ size := by
    rw [Int.shiftRight_eq_div_pow]
    simp
  unfold foldQuery Holds
  simp only [bind_eq_ok, ite_rejectShowing_eq_ok, elementAt_eq_ok hplace, hshift,
    Polynomial.evaluate_of_felts hpoint hcoset, hlength, Nat.cast_pow, Nat.cast_ofNat]
  constructor
  · rintro ⟨found, hfound, hsame, _, h, hfolded⟩
    cases h
    cases hfolded
    exact ⟨by rw [hfound, Decidable.not_not.1 hsame], rfl⟩
  · rintro ⟨hfound, rfl⟩
    exact ⟨value, hfound, by simp, _, rfl, rfl⟩

/-- Queries and cosets that are listed along the same positions. -/
theorem foldQueries_eq_ok {layer point : Int} {size : Nat} {js : List Nat} {index value : Nat → Int}
    {coset : Nat → List Int} {folded : List (Int × Int)} (hpoint : IsFelt point)
    (hcoset : ∀ j ∈ js, Felts (coset j) ∧ (coset j).length = 2 ^ size) :
    foldQueries layer size point (js.map fun j => (index j, value j)) (js.map coset) = .ok folded ↔
      (∀ j ∈ js, Holds size (coset j) (index j) (value j)) ∧
        folded = js.map fun j => (index j / 2 ^ size, Polynomial.value (coset j) point) := by
  induction js generalizing folded with
  | nil => simp [foldQueries, eq_comm]
  | cons j js ih =>
    obtain ⟨hj, hjs⟩ := List.forall_mem_cons.1 hcoset
    simp only [List.map_cons, foldQueries, bind_eq_ok, pure_eq_ok, List.forall_mem_cons,
      foldQuery_eq_ok hpoint hj.1 hj.2, ih hjs]
    constructor
    · rintro ⟨_, ⟨hheld, rfl⟩, _, ⟨hrest, rfl⟩, rfl⟩
      exact ⟨⟨hheld, hrest⟩, rfl⟩
    · rintro ⟨⟨hheld, hrest⟩, rfl⟩
      exact ⟨_, ⟨hheld, rfl⟩, _, ⟨hrest, rfl⟩, rfl⟩

/-! ## One round -/

/-- A round passes on a layer of felts that is opened and holds the values folded so far, and on
nothing else. -/
theorem step_eq_ok {H : Hash} {s : Fri.Schedule} {i n size : Nat} {committed point : Int}
    {index value : Nat → Int} {layer : Opening} {next : Fri.Progress} (hn : 0 < n)
    (hround : (i : Int) < s.layers) (hsize : s.stepSizes[i]? = some (size : Int))
    (hsmall : size ≤ 4) (hcommitted : s.commitments[i]? = some committed)
    (hpoint : s.evalPoints[i]? = some point) (hfelt : IsFelt point) :
    step H s ⟨i, (List.range n).map fun j => (index j, value j)⟩ layer = .ok next ↔
      Felts (layer.leaves ++ layer.authentications) ∧
        layer.Opens H committed (n * 2 ^ size) ∧
        (∀ j < n, Holds size (Table.row (2 ^ size) layer.leaves j) (index j) (value j)) ∧
          next = ⟨i + 1, (List.range n).map fun j => (index j / 2 ^ size,
            Polynomial.value (Table.row (2 ^ size) layer.leaves j) point)⟩ := by
  have hpow : powerOfTwo size = .ok (2 ^ size) := powerOfTwo_of_small (by omega)
  have hrows : Felts (layer.leaves ++ layer.authentications) →
      layer.leaves.length = n * 2 ^ size → ∀ j ∈ List.range n,
        Felts (Table.row (2 ^ size) layer.leaves j) ∧
          (Table.row (2 ^ size) layer.leaves j).length = 2 ^ size := by
    intro hlayer hl j hj
    exact ⟨Table.felts_row (felts_append.1 hlayer).1 _ _,
      Table.length_row hl (List.mem_range.1 hj)⟩
  have htable : Table.ofCells layer.leaves n (2 ^ size : Nat) =
      .ok ((List.range n).map (Table.row (2 ^ size) layer.leaves)) :=
    Table.ofCells_eq_map hn (Nat.two_pow_pos size)
  rw [step, if_neg (by simpa using hround), elementAt_natCast hsize, bind_eq_ok]
  simp only [hpow, bind_eq_ok, Except.ok.injEq, exists_eq_left', List.length_map,
    List.length_range]
  by_cases hl : layer.leaves.length = n * 2 ^ size
  · rw [if_neg (by simpa using hl)]
    simp only [elementAt_natCast hcommitted, elementAt_natCast hpoint, htable, mapError_ok,
      Int.toNat_natCast, bind_eq_ok, liftFelt_eq_ok, Opening.commitment_eq_ok, Except.ok.injEq,
      exists_eq_left', ite_reject_eq_ok, pure_eq_ok]
    constructor
    · rintro ⟨_, ⟨hlayer, rfl⟩, hcommit, _, hfolded, rfl⟩
      obtain ⟨hheld, rfl⟩ := (foldQueries_eq_ok hfelt (hrows hlayer hl)).1 hfolded
      exact ⟨hlayer, ⟨hl, (Decidable.not_not.1 hcommit).symm⟩,
        fun j hj => hheld j (List.mem_range.2 hj), rfl⟩
    · rintro ⟨hlayer, ho, hheld, rfl⟩
      refine ⟨_, ⟨hlayer, rfl⟩, by simp [ho.commitment], _, ?_, rfl⟩
      exact (foldQueries_eq_ok hfelt (hrows hlayer hl)).2
        ⟨fun j hj => hheld j (List.mem_range.1 hj), rfl⟩
  · rw [if_pos hl]
    constructor
    · intro h
      exact absurd h (rejectShowing_ne_ok _ _ _)
    · rintro ⟨-, ho, -⟩
      exact absurd ho.length hl

/-! ## A run of rounds -/

section

variable {H : Hash} {s : Fri.Schedule} {p q next : Fri.Progress} {layers : List Opening}
  {layer : Opening} {sts : List Fri.Progress}

theorem length_states (h : states H s p layers = .ok sts) : sts.length = layers.length + 1 := by
  induction layers generalizing p sts with
  | nil =>
    cases h
    rfl
  | cons layer layers ih =>
    obtain ⟨next, -, h⟩ := bind_eq_ok.1 h
    obtain ⟨rest, hrest, h⟩ := bind_eq_ok.1 h
    cases h
    rw [List.length_cons, ih hrest, List.length_cons]

/-- A run goes on from the state that it ends in. -/
theorem states_concat (h : states H s p layers = .ok sts) (hlast : sts.getLast? = some q)
    (hstep : step H s q layer = .ok next) :
    states H s p (layers ++ [layer]) = .ok (sts ++ [next]) := by
  induction layers generalizing p sts with
  | nil =>
    cases h
    obtain rfl : p = q := Option.some.inj hlast
    rw [List.nil_append, states, hstep]
    rfl
  | cons layer layers ih =>
    obtain ⟨p', hp', h⟩ := bind_eq_ok.1 h
    obtain ⟨rest, hrest, h⟩ := bind_eq_ok.1 h
    cases h
    cases rest with
    | nil => cases length_states hrest
    | cons p'' rest =>
      rw [List.getLast?_cons_cons] at hlast
      rw [List.cons_append, states, hp', ok_bind, ih hrest hlast]
      rfl

end

/-! ## The last layer -/

theorem checkLastLayer_eq_ok {coefficients : List Int} {js : List Nat} {index value : Nat → Int}
    (hcoefficients : Felts coefficients) (hindex : ∀ j, IsFelt (index j)) :
    checkLastLayer coefficients (js.map fun j => (index j, value j)) = .ok () ↔
      ∀ j ∈ js, Polynomial.value coefficients (index j) = value j := by
  induction js with
  | nil => simp [checkLastLayer]
  | cons j js ih =>
    rw [List.map_cons, checkLastLayer, Polynomial.evaluate_of_felts (hindex j) hcoefficients,
      bind_eq_ok, List.forall_mem_cons, ← ih]
    simp only [Except.ok.injEq, exists_eq_left', ite_reject_eq_ok, ne_eq, Decidable.not_not]

/-! ## The states of a proof -/

namespace Sections

variable (H : Hash) (s : Sections)

/-- The size of the step of a round. -/
def stepSize (i : Nat) : Nat := (s.config.stepSizes.tail.getD i 0).toNat

/-- The bits of an index that the first rounds take off. -/
def bitsBefore (i : Nat) : Nat := ((List.range i).map s.stepSize).sum

def layerCommitment (i : Nat) : Int := s.commitments.friLayers.getD i 0

variable {H s} {layout : Layout} {params : Layout.Params}

/-- The sizes of the steps are small, and the schedule has one for each round. -/
theorem stepSizes_getElem? (hs : s.Valid layout params) {i : Nat}
    (hi : (i : Int) < s.config.layers) :
    (s.schedule H).stepSizes[i]? = some (s.stepSize i : Int) ∧ s.stepSize i ≤ 4 := by
  have htail : i < s.config.stepSizes.tail.length := by
    rw [List.length_tail]
    unfold Config.layers at hi
    omega
  have hget := List.getElem?_eq_getElem htail
  obtain ⟨hlow, hhigh⟩ := hs.config.stepSizes _ (List.getElem_mem htail)
  rw [stepSize, List.getD_eq_getElem?_getD, hget, Option.getD_some]
  exact ⟨by rw [Int.toNat_of_nonneg (by omega)]; exact hget, by omega⟩

theorem commitments_getElem? (hs : s.Valid layout params) {i : Nat}
    (hi : (i : Int) < s.config.layers) :
    (s.schedule H).commitments[i]? = some (s.layerCommitment i) := by
  have hfri : i < s.commitments.friLayers.length := by
    have := hs.commitments.friLayers
    omega
  have hget := List.getElem?_eq_getElem hfri
  rw [layerCommitment, List.getD_eq_getElem?_getD, hget, Option.getD_some]
  exact hget

theorem evalPoints_getElem? (hs : s.Valid layout params) {i : Nat}
    (hi : (i : Int) < s.config.layers) :
    (s.schedule H).evalPoints[i]? = some (s.evalPoint H i) := by
  have hfri : i < s.commitments.friLayers.length := by
    have := hs.commitments.friLayers
    omega
  simp [schedule, hfri]

end Sections

/-- A proof taken apart: its sections and the openings of its FRI layers. -/
structure Parts where
  sections : Sections
  layers : List Opening
  deriving DecidableEq

namespace Parts

variable (H : Hash) (params : Layout.Params) (p : Parts)

def calldata : List Int :=
  p.sections.flat ++ p.layers.flatMap Opening.flat ++ [Flat.versionTag]

def layer (i : Nat) : Opening := p.layers.getD i ⟨[], []⟩

/-- The leaves that a layer opens for a query. -/
def coset (i j : Nat) : List Int := Table.row (2 ^ p.sections.stepSize i) (p.layer i).leaves j

/-- The index of a query before a round. -/
def index (i j : Nat) : Int := p.sections.index H j / 2 ^ p.sections.bitsBefore i

/-- The value at a query before a round: before the first one that of its row of leaves, before
each other one that of its coset in the round before. -/
def value : Nat → Nat → Int
  | 0, j => p.sections.firstValue H params j
  | i + 1, j => Polynomial.value (p.coset i j) (p.sections.evalPoint H i)

/-- The progress before a round. -/
def progress (i : Nat) : Fri.Progress :=
  ⟨i, (List.range p.sections.count).map fun j => (p.index H i j, p.value H params i j)⟩

/-- The layer of a round is opened, and each coset holds the value folded before. -/
structure Consistent (i : Nat) : Prop where
  opens : (p.layer i).Opens H (p.sections.layerCommitment i)
    (p.sections.count * 2 ^ p.sections.stepSize i)
  holds : ∀ j < p.sections.count,
    Holds (p.sections.stepSize i) (p.coset i j) (p.index H i j) (p.value H params i j)

/-- The values folded last are those of a polynomial at the indices. -/
def Ends (coefficients : List Int) : Prop :=
  ∀ j < p.sections.count, Polynomial.value coefficients (p.index H p.layers.length j) =
    p.value H params p.layers.length j

variable {H params p} {layout : Layout}

theorem progress_zero : p.progress H params 0 = (p.sections.start H params).progress := by
  simp [progress, Sections.start, index, Sections.bitsBefore, value]

/-- The number of rounds done tells the states apart. -/
theorem progress_injective : Function.Injective (p.progress H params) := by
  intro i j h
  have hround : (i : Int) = j := congrArg Fri.Progress.round h
  omega

theorem index_succ (i j : Nat) :
    p.index H (i + 1) j = p.index H i j / 2 ^ p.sections.stepSize i := by
  have hbits : p.sections.bitsBefore (i + 1) =
      p.sections.bitsBefore i + p.sections.stepSize i := by
    simp [Sections.bitsBefore, List.range_succ]
  rw [index, index, hbits, pow_add, Int.ediv_ediv_of_nonneg (Int.pow_nonneg (by decide))]

theorem layer_eq_getElem {i : Nat} (hi : i < p.layers.length) : p.layer i = p.layers[i] := by
  rw [layer, List.getD_eq_getElem?_getD, List.getElem?_eq_getElem hi, Option.getD_some]

theorem felts_layer (hf : Felts (p.layers.flatMap Opening.flat)) {i : Nat}
    (hi : i < p.layers.length) : Felts (p.layer i).flat := by
  rw [layer_eq_getElem hi]
  exact felts_flatMap.1 hf _ (List.getElem_mem hi)

/-- The round of a layer that the configuration has. -/
theorem step_progress {i : Nat} {next : Fri.Progress} (hs : p.sections.Valid layout params)
    (hlayers : (p.layers.length : Int) = p.sections.config.layers)
    (hf : Felts (p.layers.flatMap Opening.flat)) (hi : i < p.layers.length) :
    step H (p.sections.schedule H) (p.progress H params i) (p.layer i) = .ok next ↔
      p.Consistent H params i ∧ next = p.progress H params (i + 1) := by
  have hround : (i : Int) < p.sections.config.layers := by omega
  obtain ⟨hsize, hsmall⟩ := Sections.stepSizes_getElem? (H := H) hs hround
  have hnext : p.progress H params (i + 1) = ⟨i + 1, (List.range p.sections.count).map fun j =>
      (p.index H i j / 2 ^ p.sections.stepSize i,
        Polynomial.value (p.coset i j) (p.sections.evalPoint H i))⟩ := by
    simp [progress, index_succ, value]
  rw [progress, hnext, step_eq_ok (Sections.count_pos hs) hround hsize hsmall
    (Sections.commitments_getElem? hs hround) (Sections.evalPoints_getElem? hs hround)
    (Digest.isFelt_feltOf H _)]
  constructor
  · rintro ⟨-, ho, hheld, rfl⟩
    exact ⟨⟨ho, hheld⟩, rfl⟩
  · rintro ⟨⟨ho, hheld⟩, rfl⟩
    exact ⟨felts_append.2 (Opening.felts_of_flat (felts_layer hf hi)).2, ho, hheld, rfl⟩

/-- The rounds from one on. -/
theorem states_drop {i : Nat} {sts : List Fri.Progress} (hs : p.sections.Valid layout params)
    (hlayers : (p.layers.length : Int) = p.sections.config.layers)
    (hf : Felts (p.layers.flatMap Opening.flat)) (rest : List Opening)
    (hrest : rest = p.layers.drop i) :
    states H (p.sections.schedule H) (p.progress H params i) rest = .ok sts ↔
      (∀ k, i ≤ k → k < p.layers.length → p.Consistent H params k) ∧
        sts = (List.range' i (rest.length + 1)).map (p.progress H params) := by
  -- the layers that are left tell how many rounds are done, so the state reached is known
  induction rest generalizing i sts with
  | nil =>
    have hi : p.layers.length ≤ i := List.drop_eq_nil_iff.1 hrest.symm
    constructor
    · intro h
      cases h
      exact ⟨fun k hk hk' => by omega, rfl⟩
    · rintro ⟨-, rfl⟩
      rfl
  | cons layer rest ih =>
    have hi : i < p.layers.length := by
      by_contra hle
      rw [List.drop_eq_nil_of_le (by omega)] at hrest
      cases hrest
    rw [List.drop_eq_getElem_cons hi, ← layer_eq_getElem hi] at hrest
    obtain ⟨rfl, htail⟩ := List.cons.inj hrest
    simp only [states, bind_eq_ok, step_progress hs hlayers hf hi, pure_eq_ok]
    constructor
    · rintro ⟨_, ⟨hround, rfl⟩, _, hstates, rfl⟩
      obtain ⟨hrounds, rfl⟩ := (ih htail).1 hstates
      refine ⟨fun k hk hk' => ?_, rfl⟩
      rcases Nat.eq_or_lt_of_le hk with rfl | hk
      · exact hround
      · exact hrounds k hk hk'
    · rintro ⟨hrounds, rfl⟩
      exact ⟨_, ⟨hrounds i (Nat.le_refl i) hi, rfl⟩, _,
        (ih htail).2 ⟨fun k hk => hrounds k (by omega), rfl⟩, rfl⟩

theorem states_eq_ok {sts : List Fri.Progress} (hs : p.sections.Valid layout params)
    (hlayers : (p.layers.length : Int) = p.sections.config.layers)
    (hf : Felts (p.layers.flatMap Opening.flat)) :
    states H (p.sections.schedule H) (p.progress H params 0) p.layers = .ok sts ↔
      (∀ i < p.layers.length, p.Consistent H params i) ∧
        sts = (List.range (p.layers.length + 1)).map (p.progress H params) := by
  rw [states_drop hs hlayers hf p.layers rfl, List.range_eq_range']
  simp

theorem isFelt_index (hs : p.sections.Valid layout params) (i j : Nat) :
    IsFelt (p.index H i j) := by
  have hbits : p.sections.config.logEvalDomain.toNat ≤ 250 := by
    have := hs.config.logEvalDomain_le
    omega
  have hpow : (2 : Int) ^ p.sections.config.logEvalDomain.toNat < 2 ^ 251 :=
    Int.pow_lt_pow_of_lt (by decide) (by omega)
  have hpos : (0 : Int) < 2 ^ p.sections.config.logEvalDomain.toNat := Int.pow_pos (by decide)
  have h₀ : 0 ≤ p.sections.index H j := Int.emod_nonneg _ (by omega)
  have hlt : p.sections.index H j < 2 ^ p.sections.config.logEvalDomain.toNat :=
    Int.emod_lt_of_pos _ hpos
  have hle : p.index H i j ≤ p.sections.index H j := Int.ediv_le_self _ h₀
  exact isFelt_of_lt (Int.ediv_nonneg h₀ (Int.pow_nonneg (by decide))) (by omega)

theorem isFelt_value (i j : Nat) : IsFelt (p.value H params i j) := by
  cases i <;> exact Polynomial.isFelt_value _ _

theorem finish_eq_ok {coefficients : List Int} (hs : p.sections.Valid layout params)
    (hlayers : (p.layers.length : Int) = p.sections.config.layers) (hf : Felts coefficients) :
    finish H (p.sections.schedule H) (p.progress H params p.layers.length) coefficients = .ok () ↔
      feltOf H coefficients = feltOf H p.sections.commitments.coefficients ∧
        p.Ends H params coefficients := by
  rw [finish, ite_rejectShowing_eq_ok, liftFelt_of_ok (Digest.felt_of_felts hf), bind_eq_ok]
  simp only [Except.ok.injEq, exists_eq_left', ite_reject_eq_ok]
  simp only [progress, checkLastLayer_eq_ok hf (isFelt_index hs _), List.mem_range]
  constructor
  · rintro ⟨-, hdigest, hends⟩
    exact ⟨Decidable.not_not.1 hdigest, hends⟩
  · rintro ⟨hdigest, hends⟩
    exact ⟨by simpa [Sections.schedule] using hlayers, Decidable.not_not.2 hdigest, hends⟩

end Parts

end StarkReplay.Replay
