import StarkReplay.Proofs.FriState
import StarkReplay.Proofs.Layers
import StarkReplay.Proofs.Rounds

/-!
Verification of a whole proof. It accepts exactly the calldata of parts that pass all its checks;
the parts are determined by the calldata, and the trace by the parts.
-/
namespace StarkReplay

theorem Layout.resolve_eq_ok {name : Text} {layout : Layout} {params : Params} :
    resolve name = .ok (layout, params) ↔ layout.name = name ∧ layout.params? = some params := by
  unfold resolve
  rw [bind_eq_ok]
  constructor
  · rintro ⟨l, hl, h⟩
    have hname : l.name = name := by
      unfold ofName at hl
      split at hl
      · rename_i found hfound
        cases hl
        simpa using List.find?_some hfound
      · cases hl
    split at h
    · rename_i hp
      cases h
      exact ⟨hname, hp⟩
    · cases h
  · rintro ⟨rfl, hp⟩
    refine ⟨layout, ofName_name layout, ?_⟩
    rw [hp]
    rfl

namespace Replay

theorem checkStream_eq_ok {stream : Stream} {offset : Nat} {vs : List Int} :
    checkStream stream offset vs = .ok () ↔ Felts vs := by
  induction vs generalizing offset with
  | nil => simp [checkStream]
  | cons v vs ih =>
    rw [checkStream, felts_cons]
    by_cases hv : IsFelt v
    · rw [Felt.check_of_isFelt hv]
      simp only [ih, hv, true_and]
    · rw [Felt.check_of_not_isFelt hv]
      simp [hv, reject_ne_ok]

namespace Parts

variable (H : Hash) (params : Layout.Params) (p : Parts)

/-- The parts pass every check but that of the last layer. -/
structure Replays (layout : Layout) : Prop where
  initial : p.sections.Passes H layout params
  layers : (p.layers.length : Int) = p.sections.config.layers
  rounds : ∀ i < p.layers.length, p.Consistent H params i

/-- The parts pass every check. -/
structure Accepted (layout : Layout) : Prop extends p.Replays H params layout where
  ends : p.Ends H params p.sections.commitments.coefficients

/-- The states that the parts lead through. -/
def trace : Trace where
  schedule := p.sections.schedule H
  states := (List.range (p.layers.length + 1)).map (p.progress H params)
  witnesses := p.layers.map Opening.flat ++ [Cursor.span p.sections.commitments.coefficients]
  initialLength := p.sections.flat.length

variable {H params p} {layout : Layout}

theorem felts_calldata : Felts p.calldata ↔
    Felts p.sections.flat ∧ Felts (p.layers.flatMap Opening.flat) := by
  have htag : IsFelt Flat.versionTag := by decide
  simp only [calldata, felts_append, felts_cons, htag, felts_nil, and_true]

theorem calldata_eq_append (p : Parts) : p.calldata =
    p.sections.config.flat ++ (p.sections.publicInput.flat ++ (p.sections.commitments.flat ++
      (p.sections.original.flat ++ (p.sections.interaction.flat ++
        (p.sections.composition.flat ++ ([p.sections.layers] ++
          (p.layers.flatMap Opening.flat ++ [Flat.versionTag]))))))) := by
  simp only [calldata, Sections.flat, List.append_assoc]

/-- The configuration is what is read first. -/
theorem run_readConfig (p : Parts) :
    (Config.read.run.run (Cursor.ofList p.calldata)).1 = .ok p.sections.config := by
  rw [calldata_eq_append]
  exact congrArg Prod.fst (Config.reads.complete trivial [] _)

/-- Calldata has only one division into parts. -/
theorem calldata_injective : Function.Injective calldata := by
  intro p q h
  rw [calldata_eq_append, calldata_eq_append] at h
  obtain ⟨h₁, h⟩ := Config.reads.eq_of_append_eq trivial trivial h
  obtain ⟨h₂, h⟩ := PublicInput.reads.eq_of_append_eq trivial trivial h
  obtain ⟨h₃, h⟩ := Commitments.reads.eq_of_append_eq trivial trivial h
  obtain ⟨h₄, h⟩ := Opening.reads.eq_of_append_eq trivial trivial h
  obtain ⟨h₅, h⟩ := Opening.reads.eq_of_append_eq trivial trivial h
  obtain ⟨h₆, h⟩ := Opening.reads.eq_of_append_eq trivial trivial h
  obtain ⟨h₇, h⟩ := Reads.read.eq_of_append_eq trivial trivial h
  have hlayers : p.layers = q.layers := by
    have hl := Fri.layersOf_flatMap p.layers
    rw [List.append_cancel_right h, Fri.layersOf_flatMap] at hl
    exact (Except.ok.inj hl).symm
  obtain ⟨⟨_, _, _, _, _, _, _⟩, _⟩ := p
  obtain ⟨⟨_, _, _, _, _, _, _⟩, _⟩ := q
  simp only at h₁ h₂ h₃ h₄ h₅ h₆ h₇ hlayers
  subst h₁ h₂ h₃ h₄ h₅ h₆ h₇ hlayers
  rfl

theorem getLastD_states (n : Nat) (d : Fri.Progress) :
    ((List.range (n + 1)).map (p.progress H params)).getLastD d = p.progress H params n := by
  rw [List.range_succ, List.map_append, List.map_singleton, List.getLastD_concat]

end Parts

theorem lastLayerRun_of_felts {coefficients : List Int} (h : Felts coefficients) :
    lastLayerRun coefficients = .ok (Cursor.span coefficients) := by
  rw [lastLayerRun, Flat.flatten_array h]
  rfl

theorem Sections.felts_coefficients {s : Sections} (h : Felts s.flat) :
    Felts (Cursor.span s.commitments.coefficients) := by
  have hcommitments := (felts_parts h).2.2.1
  simp only [Commitments.flat, felts_append] at hcommitments
  exact hcommitments.1.2

theorem verify_sound {H : Hash} {name : Text} {calldata : List Int} {t : Trace}
    (h : verify H name calldata = .ok t) : ∃ layout params p,
      Layout.resolve name = .ok (layout, params) ∧ Felts calldata ∧
        Parts.calldata p = calldata ∧ p.Accepted H params layout ∧ t = p.trace H params := by
  obtain ⟨⟨layout, params⟩, hres, h⟩ := bind_eq_ok.1 h
  obtain ⟨_, hfelts, h⟩ := bind_eq_ok.1 h
  have hfelts := checkStream_eq_ok.1 hfelts
  obtain ⟨htag, h⟩ := ite_reject_eq_ok.1 h
  obtain ⟨body, rfl⟩ := List.getLast?_eq_some_iff.1 (Decidable.not_not.1 htag)
  rw [List.dropLast_concat] at h
  rcases hr : (initial H layout params).run.run (Cursor.ofList body) with ⟨_ | start, cursor⟩
  · simp only [hr] at h
    cases h
  · simp only [hr] at h
    obtain ⟨_, hstart, h⟩ := bind_eq_ok.1 h
    cases hstart
    have hp := (Layout.resolve_eq_ok.1 hres).2
    obtain ⟨s, left, rfl, hpass, rfl, rfl⟩ :=
      (Sections.initial_eq_ok hp (felts_append.1 hfelts).1).1 hr
    have hleft := (felts_append.1 (felts_append.1 hfelts).1).2
    rw [Cursor.offset_between, Cursor.slice_left] at h
    obtain ⟨layers, hlayers, h⟩ := bind_eq_ok.1 h
    obtain rfl := (Fri.layersOf_eq_ok hleft).1 hlayers
    rw [Fri.layersOf_flatMap, bind_eq_ok] at h
    obtain ⟨_, hl, h⟩ := h
    cases hl
    obtain ⟨hcount, h⟩ := ite_reject_eq_ok.1 h
    have hcount : (layers.length : Int) = s.config.layers := Decidable.not_not.1 hcount
    obtain ⟨sts, hstates, h⟩ := bind_eq_ok.1 h
    obtain ⟨_, hend, h⟩ := bind_eq_ok.1 h
    have hsections := (felts_append.1 (felts_append.1 hfelts).1).1
    have hcs := (felts_span.1 (Sections.felts_coefficients hsections)).2
    rw [← Parts.progress_zero (p := ⟨s, layers⟩)] at hstates hend
    obtain ⟨hrounds, rfl⟩ :=
      (Parts.states_eq_ok (p := ⟨s, layers⟩) hpass.valid hcount hleft).1 hstates
    rw [Parts.getLastD_states] at hend
    have hends := ((Parts.finish_eq_ok (p := ⟨s, layers⟩) hpass.valid hcount hcs).1 hend).2
    obtain ⟨_, hlast, h⟩ := bind_eq_ok.1 h
    cases (lastLayerRun_of_felts hcs).symm.trans hlast
    cases h
    exact ⟨layout, params, ⟨s, layers⟩, hres, hfelts, rfl, ⟨⟨hpass, hcount, hrounds⟩, hends⟩, rfl⟩

theorem verify_complete {H : Hash} {name : Text} {layout : Layout} {params : Layout.Params}
    {p : Parts} (hres : Layout.resolve name = .ok (layout, params)) (hf : Felts p.calldata)
    (hp : p.Accepted H params layout) : verify H name p.calldata = .ok (p.trace H params) := by
  obtain ⟨hsections, hlayers⟩ := Parts.felts_calldata.1 hf
  have hbody : Felts (p.sections.flat ++ p.layers.flatMap Opening.flat) :=
    felts_append.2 ⟨hsections, hlayers⟩
  have hcs := (felts_span.1 (Sections.felts_coefficients hsections)).2
  have hvalid := hp.initial.valid
  have hinitial := (Sections.initial_eq_ok (H := H) (Layout.resolve_eq_ok.1 hres).2 hbody).2
    ⟨p.sections, _, rfl, hp.initial, rfl, rfl⟩
  have hstates := (Parts.states_eq_ok hvalid hp.layers hlayers).2 ⟨hp.rounds, rfl⟩
  have hfinish := (Parts.finish_eq_ok hvalid hp.layers hcs).2 ⟨rfl, hp.ends⟩
  rw [verify, hres, bind_eq_ok]
  refine ⟨_, rfl, ?_⟩
  dsimp only
  rw [checkStream_eq_ok.2 hf, bind_eq_ok]
  refine ⟨_, rfl, ite_reject_eq_ok.2 ⟨?_, ?_⟩⟩
  · simp [Parts.calldata]
  rw [Parts.calldata, List.dropLast_concat, hinitial]
  dsimp only
  rw [bind_eq_ok]
  refine ⟨_, rfl, ?_⟩
  rw [Cursor.offset_between, Cursor.slice_left, Fri.layersOf_flatMap, bind_eq_ok]
  refine ⟨_, rfl, ite_reject_eq_ok.2 ⟨?_, ?_⟩⟩
  · exact Decidable.not_not.2 hp.layers
  rw [← Parts.progress_zero, bind_eq_ok]
  refine ⟨_, hstates, bind_eq_ok.2 ⟨(), ?_, bind_eq_ok.2 ⟨_, lastLayerRun_of_felts hcs, rfl⟩⟩⟩
  rw [Parts.getLastD_states]
  exact hfinish

/-- The verifier accepts the calldata of accepted parts and nothing else. -/
theorem verify_accepts_iff (H : Hash) (name : Text) (calldata : List Int) :
    (∃ t, verify H name calldata = .ok t) ↔ ∃ layout params p,
      Layout.name layout = name ∧ layout.params? = some params ∧ Felts calldata ∧
        Parts.calldata p = calldata ∧ p.Accepted H params layout := by
  constructor
  · rintro ⟨t, h⟩
    obtain ⟨layout, params, p, hres, hf, rfl, hp, -⟩ := verify_sound h
    obtain ⟨hname, hparams⟩ := Layout.resolve_eq_ok.1 hres
    exact ⟨layout, params, p, hname, hparams, hf, rfl, hp⟩
  · rintro ⟨layout, params, p, hname, hparams, hf, rfl, hp⟩
    exact ⟨_, verify_complete (Layout.resolve_eq_ok.2 ⟨hname, hparams⟩) hf hp⟩

/-! ## A small proof -/

/-- A hash function with less than a hundred digests. -/
def smallHash : Hash := fun bytes =>
  BitVec.ofNat 256 (bytes.foldl (fun n b => (3 * n + b.toNat + 1) % 97) 0 ^ 5 % 97)

/-- Two queries through layers of steps two and one, up to the authentications of the last. -/
def Parts.small (authentications : List Int) : Parts where
  sections := {
    config := ⟨4, 1, 2, 50, [0, 2, 1], 1⟩
    publicInput := ⟨0, 1, 2, 0x726563757273697665, [14, 4]⟩
    commitments := ⟨63, 0, 15, List.replicate 135 5, [70, 7], [375, 204], 6⟩
    original := ⟨[8, 0, 0, 0, 0, 0, 0, 1, 2, 0, 0, 0, 0, 0], [6]⟩
    interaction := ⟨List.replicate 6 0, []⟩
    composition := ⟨List.replicate 4 0, [7]⟩
    layers := 2 }
  layers := [⟨[2, 8, 0, 1, 25, 0, 0, 0], [8]⟩, ⟨[803, 8, 4, 25], authentications⟩]

/-- The state that its initial phase leads to under the small hash function. -/
def Start.small : Start :=
  ⟨⟨2, [70, 7], [9, 23], [2, 1], 28⟩, ⟨0, [(25, 8), (12, 25)]⟩, [375, 204]⟩

/-- The trace of this proof under the small hash function. -/
def Trace.small (authentications : List Int) : Trace where
  schedule := ⟨2, [70, 7], [9, 23], [2, 1], 28⟩
  states := [⟨0, [(25, 8), (12, 25)]⟩, ⟨1, [(6, 803), (3, 25)]⟩, ⟨2, [(3, 987), (1, 579)]⟩]
  witnesses := [Opening.flat ⟨[2, 8, 0, 1, 25, 0, 0, 0], [8]⟩,
    Opening.flat ⟨[803, 8, 4, 25], authentications⟩, Cursor.span [375, 204]]
  initialLength := 195

end Replay

end StarkReplay
