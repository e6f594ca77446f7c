import StarkReplay.Proofs.Ready
import StarkReplay.Proofs.Verifier

/-!
The failures of a verification. Whatever integers are submitted, a verifier accepts them, rejects
them, finds no layers in them or does not know the layout; each operation that could fail
otherwise is reached only with operands on which it does not.
-/
namespace StarkReplay

open Cursor (between)
open Failure (IsExhausted IsRejection IsMalformed IsUnsupportedLayout)

/-! ## Sections -/

theorem Config.read_failsOnly : ReadFailsOnly IsExhausted Config.read :=
  .thenRead fun _ => .thenRead fun _ => .thenRead fun _ => .thenRead fun _ =>
    .thenReadSpan fun _ => .thenRead fun _ => .pure _

theorem PublicInput.read_failsOnly : ReadFailsOnly IsExhausted PublicInput.read := by
  refine .bind (.readMany 4) (.readMany 4) fun first hfirst _ => ?_
  match first, hfirst with
  | [_, _, _, _], _ => exact .thenReadSpan fun _ => .pure _

theorem Commitments.read_failsOnly : ReadFailsOnly IsExhausted Commitments.read := by
  refine .bind (.readMany 3) (.readMany 3) fun first hfirst _ => ?_
  match first, hfirst with
  | [_, _, _], _ =>
    exact .thenReadSpan fun _ => .thenReadSpan fun _ => .thenReadSpan fun _ =>
      .thenRead fun _ => .pure _

theorem Opening.read_failsOnly : ReadFailsOnly IsExhausted Opening.read :=
  .thenReadSpan fun _ => .thenReadSpan fun _ => .pure _

/-- The numbers that are out of bounds are shown, and are felts. -/
theorem Config.validate_failsOnly {c : Config} (hc : Felts c.flat) :
    FailsOnly IsRejection c.validate := by
  simp only [flat, felts_append, felts_span, felts_cons, felts_nil, and_true] at hc
  obtain ⟨⟨⟨-, hcosets, -, hwork⟩, -, hsizes⟩, hlast⟩ := hc
  unfold validate
  refine .ite_reject fun _ => .ite_reject fun _ => ?_
  split
  · rename_i size hsize
    have hmem := List.mem_of_mem_tail (List.mem_of_find?_eq_some hsize)
    exact .rejectShowing (felts_singleton.2 (hsizes size hmem)) _
  · refine .ite_rejectShowing (felts_singleton.2 hlast) fun _ => .ite_reject fun _ => ?_
    refine .ite_rejectShowing (felts_singleton.2 hcosets) fun _ => .ite_reject fun _ => ?_
    exact .ite_rejectShowing (felts_singleton.2 hwork) fun _ => .ok _

theorem Layout.exists_shortString (l : Layout) : ∃ v, l.shortString = .ok v := by
  cases l <;> exact ⟨_, rfl⟩

/-- The text of a declared layout is only formed for a felt. -/
theorem PublicInput.validate_failsOnly {p : PublicInput} (hp : IsFelt p.layout) (layout : Layout)
    (config : Config) : FailsOnly IsRejection (p.validate layout config) := by
  obtain ⟨v, hv⟩ := layout.exists_shortString
  have hdecode : ShortString.decode p.layout = .ok _ := if_neg (Int.not_lt.2 hp.nonneg)
  unfold validate
  refine .bind_of_ok hv (.ite (fun _ => .bind_of_ok hdecode (.reject _)) fun _ => ?_)
  exact .ite_reject fun _ => .ite_reject fun _ => .ok _

/-- The number of coefficients is only formed for a small exponent. -/
theorem Commitments.validate_failsOnly {c : Commitments} {params : Layout.Params} {config : Config}
    (h₀ : 0 ≤ config.logLastLayer) (h : config.logLastLayer ≤ 15) :
    FailsOnly IsRejection (c.validate params config) := by
  obtain ⟨n, hn⟩ := Int.eq_ofNat_of_zero_le h₀
  have hpow : powerOfTwo config.logLastLayer = .ok (2 ^ n) := by
    rw [hn]
    exact powerOfTwo_of_small (by omega)
  have hsmall : 2 ^ n ≤ 2 ^ 15 := Nat.pow_le_pow_right (by decide) (by omega)
  unfold validate
  refine .ite_reject fun _ => .ite_reject fun _ => .bind_of_ok hpow ?_
  refine .ite_rejectShowing (felts_singleton.2 (isFelt_natCast hsmall)) fun _ => ?_
  exact .ite_reject fun _ => .ok _

/-- The table is only formed for as many leaves as it has cells. -/
theorem Opening.check_failsOnly {H : Hash} {o : Opening} {name : Text} {committed : Int}
    {n columns : Nat} (ho : Felts o.flat) (hn : 0 < n) (hc : 0 < columns)
    (hsides : Felts [n, columns]) : FailsOnly IsRejection (o.check H name committed n columns) := by
  have htable : Table.ofCells o.leaves n columns = .ok _ := Table.ofCells_eq_map hn hc
  unfold check
  refine .ite_rejectShowing hsides fun _ => ?_
  refine .bind_of_ok (liftFelt_of_ok (commitment_of_felts ho)) ?_
  exact .ite_reject fun _ => .of_eq_ok (mapError_eq_ok.2 htable)

namespace Replay

variable {H : Hash} {layout : Layout} {params : Layout.Params} {s : Sections}

theorem readSections_failsOnly (layout : Layout) (params : Layout.Params) :
    ReadFailsOnly (fun f => f.IsExhausted ∨ f.IsRejection) (readSections layout params) := by
  refine .bind Config.reads (Config.read_failsOnly.mono fun _ => .inl) fun config _ hconfig => ?_
  refine .bind (.lift _) (.lift ((Config.validate_failsOnly hconfig).mono fun _ => .inr))
    fun _ hvalid _ => ?_
  refine .bind PublicInput.reads (PublicInput.read_failsOnly.mono fun _ => .inl)
    fun input _ hinput => ?_
  have hlayout : IsFelt input.layout := by
    simp only [PublicInput.flat, felts_append, felts_cons] at hinput
    exact hinput.1.2.2.2.1
  refine .bind (.lift _) (.lift ((PublicInput.validate_failsOnly hlayout _ _).mono fun _ => .inr))
    fun _ _ _ => ?_
  refine .bind Commitments.reads (Commitments.read_failsOnly.mono fun _ => .inl)
    fun commitments _ _ => ?_
  have hlast : IsFelt config.logLastLayer := by
    simp only [Config.flat, felts_append, felts_cons] at hconfig
    exact hconfig.2.1
  have hsmall := ((Config.validate_eq_ok _).1 hvalid).lastLayer
  refine .bind (.lift _) (.lift ((Commitments.validate_failsOnly hlast.nonneg hsmall).mono
    fun _ => .inr)) fun _ _ _ => ?_
  refine .mono ?_ fun _ => .inl
  refine .bind Opening.reads Opening.read_failsOnly fun _ _ _ => ?_
  refine .bind Opening.reads Opening.read_failsOnly fun _ _ _ => ?_
  refine .bind Opening.reads Opening.read_failsOnly fun _ _ _ => ?_
  exact .thenRead fun _ => .pure _

theorem readSectionsOrReject_failsOnly (layout : Layout) (params : Layout.Params) :
    ReadFailsOnly IsRejection (readSectionsOrReject layout params) := by
  refine (readSections_failsOnly layout params).tryCatch ?_
  rintro f (⟨cause, rfl⟩ | ⟨reason, rfl⟩)
  · exact ⟨_, rfl, _, rfl⟩
  · exact ⟨_, rfl, _, rfl⟩

/-! ## The initial phase -/

namespace Sections

theorem rows_failsOnly (hs : s.Valid layout params) (hp : layout.params? = some params)
    (hf : Felts s.flat) : FailsOnly IsRejection (rows H params s) := by
  obtain ⟨ho, hi, hd⟩ := Layout.columns_of_params? hp
  obtain ⟨hconfig, -, -, h₁, h₂, h₃⟩ := felts_parts hf
  have hn := count_pos hs
  have hqueries : IsFelt s.config.queries := by
    simp only [Config.flat, felts_append, felts_cons] at hconfig
    exact hconfig.1.1.2.2.1
  have hwidth := Layout.rowWidth_of_params? hp
  rw [Layout.Params.rowWidth] at hwidth
  rw [← natCast_count hs] at hqueries
  have hsides {columns : Nat} (h : columns ≤ 27) : Felts [(s.count : Int), (columns : Int)] :=
    felts_cons.2 ⟨hqueries, felts_singleton.2 (isFelt_natCast (by omega))⟩
  unfold rows
  rw [← natCast_count hs]
  refine .bind (Opening.check_failsOnly h₁ hn ho (hsides (by omega))) fun _ _ => ?_
  refine .bind (Opening.check_failsOnly h₂ hn hi (hsides (by omega))) fun _ _ => ?_
  exact .bind (Opening.check_failsOnly h₃ hn (by omega) (hsides (by omega))) fun _ _ => .ok _

/-- Opened sections can be drawn from, so the rest of the initial phase has nothing to fail on but
the proof of work. -/
theorem startOf_failsOnly (hs : s.Valid layout params) (hp : layout.params? = some params)
    (hf : Felts s.flat) : FailsOnly IsRejection (startOf H params s) := by
  unfold startOf
  have hlayers : Felts [s.layers] := (felts_append.1 hf).2
  refine .ite_rejectShowing hlayers fun _ => .bind (rows_failsOnly hs hp hf) fun rs hrs => ?_
  obtain ⟨hopened, rfl⟩ := (rows_eq_ok hs hp hf).1 hrs
  have hdrawable := hopened.drawable hs hp hf
  refine .bind_of_ok (challenges_eq hdrawable) (.ite (fun _ => ?_) fun _ => .reject _)
  refine .bind_of_ok (evaluate_rows hf) ?_
  exact .bind_of_ok (liftFelt_of_ok (Digest.felt_of_felts hdrawable.felts.2.2.2)) (.ok _)

end Sections

theorem initial_failsOnly (hp : layout.params? = some params) :
    ReadFailsOnly IsRejection (initial H layout params) := by
  refine .bind (readSectionsOrReject_reads layout params)
    (readSectionsOrReject_failsOnly layout params) fun s hs hf => ?_
  exact .lift (Sections.startOf_failsOnly ((Sections.checked_iff_valid hf).1 hs) hp hf)

end Replay

/-! ## Layers -/

theorem Fri.readRun_failsOnly (run : Run) : ReadFailsOnly IsMalformed (readRun run) := by
  refine ReadFailsOnly.readSpan.tryCatch ?_
  rintro f ⟨cause, rfl⟩
  exact ⟨_, rfl, _, rfl⟩

theorem Fri.readLayer?_failsOnly (number : Nat) :
    ReadFailsOnly IsMalformed (readLayer? number) := by
  intro taken rest hrest
  rw [readLayer?, run_bind_of_ok (run_get _)]
  split
  · exact .ok _
  refine ReadFailsOnly.bind (readRun_reads .leaves) (readRun_failsOnly .leaves)
    (fun leaves _ _ taken rest hrest => ?_) taken rest hrest
  rw [run_bind_of_ok (run_get _)]
  split
  · exact .error ⟨_, rfl⟩
  exact (readRun_failsOnly .authentications).thenReturn taken rest hrest

theorem Fri.readLayers_failsOnly (fuel number : Nat) :
    ReadFailsOnly IsMalformed (readLayers fuel number) := by
  induction fuel generalizing number with
  | zero => exact .pure _
  | succ fuel ih =>
    intro taken rest hrest
    have hturn := readLayer?_failsOnly number taken rest hrest
    rw [readLayers_succ, run_bind]
    rcases hr : (readLayer? number).run.run (between taken rest) with ⟨f | found, c⟩
    · rw [hr] at hturn
      exact .error (hturn f rfl)
    · obtain ⟨rfl, rfl⟩ | ⟨layer, left, rfl, rfl, rfl⟩ := readLayer?_sound hrest hr
      · exact .ok _
      · exact (ih (number + 1)).thenReturn _ _ (felts_append.1 hrest).2

theorem Fri.layersOf_failsOnly {xs : List Int} (h : Felts xs) :
    FailsOnly IsMalformed (layersOf xs) :=
  (readLayers_failsOnly _ 1).ofList h

/-! ## Whole proofs -/

namespace Failure

/-- What a verifier answers in place of acceptance. -/
def IsVerdict (f : Failure) : Prop := f.IsRejection ∨ f.IsMalformed ∨ f.IsUnsupportedLayout

/-- A verdict that is about what was submitted and not about the layout. -/
def IsRefusal (f : Failure) : Prop := f.IsRejection ∨ f.IsMalformed

end Failure

open Failure (IsVerdict IsRefusal)

theorem FailsOnly.refusal {α : Type} {x : Except Failure α} (h : FailsOnly IsRejection x) :
    FailsOnly IsRefusal x :=
  h.mono fun _ => .inl

theorem Layout.resolve_failsOnly (name : Text) : FailsOnly IsUnsupportedLayout (resolve name) := by
  unfold resolve ofName
  split
  · refine .bind_of_ok rfl ?_
    split
    · exact .ok _
    · exact .error ⟨_, rfl⟩
  · exact .error ⟨_, rfl⟩

namespace Replay

theorem checkStream_failsOnly (stream : Stream) (offset : Nat) (vs : List Int) :
    FailsOnly IsRejection (checkStream stream offset vs) := by
  induction vs generalizing offset with
  | nil => exact .ok _
  | cons v vs ih =>
    rw [checkStream]
    split
    · exact ih (offset + 1)
    · exact .reject _

variable {H : Hash} {name : Text} {layout : Layout} {params : Layout.Params}

theorem verify_failsOnly (hres : Layout.resolve name = .ok (layout, params))
    (calldata : List Int) : FailsOnly IsRefusal (verify H name calldata) := by
  have hp := (Layout.resolve_eq_ok.1 hres).2
  unfold verify
  refine .bind_of_ok hres (.bind (checkStream_failsOnly _ _ _).refusal fun _ hcheck => ?_)
  have hfelts := checkStream_eq_ok.1 hcheck
  refine .ite (fun _ => FailsOnly.refusal (.reject _)) fun htag => ?_
  obtain ⟨body, rfl⟩ := List.getLast?_eq_some_iff.1 (Decidable.not_not.1 htag)
  have hbody := (felts_append.1 hfelts).1
  have hinitial := (initial_failsOnly (H := H) hp).ofList hbody
  rw [List.dropLast_concat]
  rcases hr : (initial H layout params).run.run (Cursor.ofList body) with ⟨e | start, cursor⟩
  · rw [hr] at hinitial
    simp only [hr]
    exact .error (.inl (hinitial e rfl))
  obtain ⟨s, left, rfl, hpass, rfl, rfl⟩ := (Sections.initial_eq_ok hp hbody).1 hr
  simp only [hr]
  obtain ⟨hsections, hleft⟩ := felts_append.1 hbody
  have hwell := Sections.schedule_wellFormed (H := H) hpass.valid
  have hready := Sections.start_ready (H := H) hpass.valid
  have hcoefficients := (felts_span.1 (Sections.felts_coefficients hsections)).2
  refine .bind_of_ok rfl ?_
  rw [Cursor.offset_between, Cursor.slice_left]
  refine .bind ((Fri.layersOf_failsOnly hleft).mono fun _ => .inr) fun layers hlayers => ?_
  obtain rfl := (Fri.layersOf_eq_ok hleft).1 hlayers
  refine .ite (fun _ => FailsOnly.refusal (.reject _)) fun _ => ?_
  refine .bind (states_failsOnly hwell hready hleft).refusal fun sts hsts => ?_
  have hlast := List.forall_mem_cons.2 ⟨hready, states_ready hwell hready hsts⟩ _
    List.getLastD_mem_cons
  refine .bind (finish_failsOnly hwell hlast hcoefficients).refusal fun _ _ => ?_
  exact .bind_of_ok (lastLayerRun_of_felts hcoefficients) (.ok _)

end Replay

end StarkReplay
