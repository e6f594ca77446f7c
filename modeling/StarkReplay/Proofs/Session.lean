import StarkReplay.Proofs.Ready
import StarkReplay.Proofs.Verifier

/-!
Sessions with the verifier. A caller goes from the initial phase through the rounds layer by layer;
a layer that is refused changes nothing, and another one may be tried. However the tries go, the
round is the number of layers that passed, each of them was checked against the entry of its own
round, and nothing gets past the last round. If the coefficients then end the session, what passed
makes up a proof that is accepted as a whole.
-/
namespace StarkReplay.Replay

open Fri (Schedule Progress)

/-- The layers of a session that passed, the progress before each of them, and that now. -/
structure Session where
  before : List Progress
  passed : List Opening
  current : Progress
  deriving DecidableEq

namespace Session

variable (H : Hash) (s : Schedule) (σ : Session)

def start (p : Progress) : Session := ⟨[], [], p⟩

/-- The states that the session went through. -/
def states : List Progress := σ.before ++ [σ.current]

/-- One more try. -/
def call (layer : Opening) : Session :=
  match step H s σ.current layer with
  | .ok next => ⟨σ.states, σ.passed ++ [layer], next⟩
  | .error _ => σ

/-- Tries one after another. -/
def calls (layers : List Opening) : Session := layers.foldl (call H s) σ

/-- The round with this number took the session from one state to the next, and checked its layer
against the entry of the schedule for this round. -/
def Checked (k : Nat) (layer : Opening) : Prop :=
  ∃ size committed point p next, Entry s k size committed point ∧
    σ.states[k]? = some p ∧ σ.states[k + 1]? = some next ∧
      Folds H layer size committed point p.queries next.queries

/-- What holds of a session from a first state on, whatever is tried. -/
structure Sound (first : Progress) : Prop where
  ready : σ.current.Ready s
  round : σ.current.round = σ.passed.length
  runs : Replay.states H s first σ.passed = .ok σ.states
  checked : ∀ k layer, σ.passed[k]? = some layer → σ.Checked H s k layer

variable {H s σ} {first next : Progress} {layer : Opening}

/-! ## One try -/

theorem length_states (h : σ.Sound H s first) : σ.states.length = σ.passed.length + 1 :=
  Replay.length_states h.runs

theorem call_of_ok (h : step H s σ.current layer = .ok next) :
    σ.call H s layer = ⟨σ.states, σ.passed ++ [layer], next⟩ := by
  rw [call, h]

theorem call_of_error {f : Failure} (h : step H s σ.current layer = .error f) :
    σ.call H s layer = σ := by
  rw [call, h]

theorem states_getElem?_concat {k : Nat} {passed : List Opening} {p : Progress}
    (h : σ.states[k]? = some p) : (Session.mk σ.states passed next).states[k]? = some p := by
  obtain ⟨hk, -⟩ := List.getElem?_eq_some_iff.1 h
  rw [states, List.getElem?_append_left hk]
  exact h

/-- What was checked stays so when the session goes on. -/
theorem Checked.concat {k : Nat} {passed : List Opening} (h : σ.Checked H s k layer) :
    Checked H s ⟨σ.states, passed, next⟩ k layer := by
  obtain ⟨size, committed, point, p, q, hentry, hp, hq, hfolds⟩ := h
  exact ⟨size, committed, point, p, q, hentry, states_getElem?_concat hp,
    states_getElem?_concat hq, hfolds⟩

/-- The layer that passes last is checked against the entry of its own round. -/
theorem checked_last (hs : s.WellFormed) (h : σ.Sound H s first)
    (hstep : step H s σ.current layer = .ok next) (passed : List Opening) :
    Checked H s ⟨σ.states, passed, next⟩ σ.passed.length layer := by
  obtain ⟨i, size, committed, point, hround, hentry, hfolds, -⟩ := step_sound hs h.ready hstep
  obtain rfl : i = σ.passed.length := by
    have := h.round
    omega
  have hlength := length_states h
  refine ⟨size, committed, point, σ.current, next, hentry, ?_, ?_, hfolds⟩
  · apply states_getElem?_concat
    rw [states, List.length_append, List.length_singleton] at hlength
    rw [states, ← Nat.succ.inj hlength, List.getElem?_concat_length]
  · rw [states, ← hlength, List.getElem?_concat_length]

/-- A try keeps what holds of a session. -/
theorem call_sound (hs : s.WellFormed) (h : σ.Sound H s first) (layer : Opening) :
    (σ.call H s layer).Sound H s first := by
  cases hstep : step H s σ.current layer with
  | error f =>
    rw [call_of_error hstep]
    exact h
  | ok next =>
    rw [call_of_ok hstep]
    refine ⟨step_ready hs h.ready hstep, ?_, ?_, ?_⟩
    · obtain ⟨i, -, -, -, hround, -, -, hnext⟩ := step_sound hs h.ready hstep
      rw [hnext, ← hround, h.round]
      simp
    · exact states_concat h.runs List.getLast?_concat hstep
    · intro k layer' hk
      rcases Nat.lt_trichotomy k σ.passed.length with hlt | rfl | hgt
      · rw [List.getElem?_append_left hlt] at hk
        exact (h.checked k layer' hk).concat
      · rw [List.getElem?_concat_length] at hk
        cases hk
        exact checked_last hs h hstep _
      · rw [List.getElem?_eq_none (by simp; omega)] at hk
        cases hk

/-! ## All tries -/

theorem calls_sound (hs : s.WellFormed) (h : σ.Sound H s first) (layers : List Opening) :
    (σ.calls H s layers).Sound H s first := by
  induction layers generalizing σ with
  | nil => exact h
  | cons layer layers ih => exact ih (call_sound hs h layer)

theorem start_sound {p : Progress} (h : p.Ready s) (hround : p.round = 0) :
    (start p).Sound H s p where
  ready := h
  round := hround
  runs := rfl
  checked := nofun

end Session

/-! ## The end of a session -/

variable {H : Hash} {name : Text} {layout : Layout} {params : Layout.Params} {σ : Session}

/-- The layers of a session that was brought to its end make up a proof. -/
theorem Session.Sound.verifies {p : Parts} (hres : Layout.resolve name = .ok (layout, params))
    (hf : Felts p.sections.flat) (hpass : p.sections.Passes H layout params)
    (hpassed : σ.passed = p.layers)
    (h : σ.Sound H (p.sections.schedule H) (p.sections.start H params).progress)
    (hend : finish H (p.sections.schedule H) σ.current p.sections.commitments.coefficients = .ok ())
    (hlayers : Felts (p.layers.flatMap Opening.flat)) :
    ∃ trace, verify H name p.calldata = .ok trace ∧ trace.states = σ.states := by
  have hcount : (p.layers.length : Int) = p.sections.config.layers := by
    rw [← hpassed, ← h.round]
    exact round_of_finish hend
  have hruns := h.runs
  rw [hpassed, ← Parts.progress_zero] at hruns
  obtain ⟨hrounds, hstates⟩ := (Parts.states_eq_ok hpass.valid hcount hlayers).1 hruns
  have hcurrent : σ.current = p.progress H params p.layers.length := by
    have hlast := congrArg (List.getLastD · σ.current) hstates
    rw [Parts.getLastD_states, Session.states, List.getLastD_concat] at hlast
    exact hlast
  have hcs := (felts_span.1 (Sections.felts_coefficients hf)).2
  rw [hcurrent] at hend
  have hends := ((Parts.finish_eq_ok hpass.valid hcount hcs).1 hend).2
  have haccepted : p.Accepted H params layout := ⟨⟨hpass, hcount, hrounds⟩, hends⟩
  exact ⟨p.trace H params,
    verify_complete hres (Parts.felts_calldata.2 ⟨hf, hlayers⟩) haccepted, hstates.symm⟩

/-- What a caller can rely on in a session, after the initial phase took these elements. -/
structure Session.Follows (H : Hash) (name : Text) (taken : List Int) (t : Start) (σ : Session) :
    Prop where
  round : σ.current.round = σ.passed.length
  round_le : (σ.passed.length : Int) ≤ t.schedule.layers
  checked : ∀ k layer, σ.passed[k]? = some layer → σ.Checked H t.schedule k layer
  closed : (σ.passed.length : Int) = t.schedule.layers → ∀ layer,
    step H t.schedule σ.current layer =
      reject (.stepBeyond (t.schedule.layers + 1) t.schedule.layers)
  unfinished : (σ.passed.length : Int) ≠ t.schedule.layers → ∀ coefficients,
    finish H t.schedule σ.current coefficients =
      reject (.finalTooEarly σ.passed.length t.schedule.layers)
  verifies : finish H t.schedule σ.current t.coefficients = .ok () →
    Felts (σ.passed.flatMap Opening.flat) → ∃ trace,
      verify H name (taken ++ σ.passed.flatMap Opening.flat ++ [Flat.versionTag]) = .ok trace ∧
        trace.states = σ.states

theorem Session.Sound.follows {s : Sections} (hres : Layout.resolve name = .ok (layout, params))
    (hf : Felts s.flat) (hpass : s.Passes H layout params)
    (h : σ.Sound H (s.schedule H) (s.start H params).progress) :
    σ.Follows H name s.flat (s.start H params) := by
  have hwell := Sections.schedule_wellFormed (H := H) hpass.valid
  refine ⟨h.round, ?_, h.checked, ?_, ?_, ?_⟩
  · rw [← h.round]
    exact h.ready.round_le
  · intro hdone
    exact step_of_round_eq hwell h.ready (h.round.trans hdone)
  · intro hundone
    rw [← h.round] at hundone ⊢
    exact finish_of_round_ne hwell h.ready hundone
  · intro hend hlayers
    exact h.verifies (p := ⟨s, σ.passed⟩) hres hf hpass rfl hend hlayers

/-- However a caller tries layers after the initial phase, the session follows the schedule. -/
theorem session_follows_schedule (hres : Layout.resolve name = .ok (layout, params))
    {xs : List Int} {t : Start} {c : Cursor} (hf : Felts xs)
    (hinitial : (initial H layout params).run.run (Cursor.ofList xs) = (.ok t, c))
    (tried : List Opening) :
    ((Session.start t.progress).calls H t.schedule tried).Follows H name
      (xs.take c.offset.toNat) t := by
  obtain ⟨s, left, rfl, hpass, rfl, rfl⟩ :=
    (Sections.initial_eq_ok (Layout.resolve_eq_ok.1 hres).2 hf).1 hinitial
  have htaken : (s.flat ++ left).take (Cursor.between s.flat left).offset.toNat = s.flat := by
    simp
  have hfirst : (Session.start (s.start H params).progress).Sound H (s.schedule H)
      (s.start H params).progress :=
    Session.start_sound (Sections.start_ready hpass.valid) rfl
  rw [htaken]
  apply Session.Sound.follows hres (felts_append.1 hf).1 hpass
  exact Session.calls_sound (Sections.schedule_wellFormed hpass.valid) hfirst tried

/-- The layers of the small proof are tried, with a wrong one before, between and after them. -/
def Session.small : Session :=
  (Session.start Start.small.progress).calls smallHash Start.small.schedule
    [⟨[1], [2]⟩, ⟨[2, 8, 0, 1, 25, 0, 0, 0], [8]⟩, ⟨[2, 8, 0, 1, 25, 0, 0, 0], [8]⟩,
      ⟨[803, 8, 4, 25], [9]⟩, ⟨[], []⟩]

theorem session_follows_schedule_small :
    Session.small.Follows smallHash Layout.recursive.name (Parts.small [9]).sections.flat .small ∧
      Session.small.passed = (Parts.small [9]).layers ∧
        ∃ trace, verify smallHash Layout.recursive.name (Parts.small [9]).calldata = .ok trace ∧
          trace.states = Session.small.states := by
  have hinitial : (initial smallHash .recursive ⟨7, 3, 133, 2⟩).run.run
      (Cursor.ofList ((Parts.small [9]).sections.flat ++ [4])) =
        (.ok .small, ⟨(Parts.small [9]).sections.flat ++ [4], 195⟩) :=
    Prod.ext (by decide +kernel) (by decide +kernel)
  have htaken : ((Parts.small [9]).sections.flat ++ [4]).take (195 : Int).toNat =
      (Parts.small [9]).sections.flat := by decide +kernel
  have hfollows : Session.small.Follows smallHash Layout.recursive.name
      (((Parts.small [9]).sections.flat ++ [4]).take (195 : Int).toNat) .small :=
    session_follows_schedule rfl (by decide +kernel) hinitial _
  rw [htaken] at hfollows
  have hend : finish smallHash Start.small.schedule Session.small.current
      Start.small.coefficients = .ok () := by decide +kernel
  have hpassed : Session.small.passed = (Parts.small [9]).layers := by decide +kernel
  have hverifies := hfollows.verifies hend
  rw [hpassed] at hverifies
  exact ⟨hfollows, hpassed, hverifies (by decide +kernel)⟩

end StarkReplay.Replay
