import StarkReplay.Proofs.Refusals

/-!
The grammar of a FRI witness. Its layers are read in turns, each from where the last one stopped.
`Groups` follows the turns without a bound on their number, so it has an outcome only where they
come to an end. On felts they do, and the outcome is that of the bounded grouping: the one list of
layers whose flat forms are the witness, or a refusal where there is none.
-/
namespace StarkReplay.Fri

open Cursor (between)

/-- Turns from this number on, however many, until one finds no layer or fails. -/
inductive Groups : Nat → Cursor → Except Failure (List Opening) → Prop
  | ends {number : Nat} {c c' : Cursor} :
      (readLayer? number).run.run c = (.ok none, c') → Groups number c (.ok [])
  | fails {number : Nat} {c c' : Cursor} {f : Failure} :
      (readLayer? number).run.run c = (.error f, c') → Groups number c (.error f)
  | goesOn {number : Nat} {c c' : Cursor} {layer : Opening}
      {rest : Except Failure (List Opening)} :
      (readLayer? number).run.run c = (.ok (some layer), c') → Groups (number + 1) c' rest →
        Groups number c (rest.map (layer :: ·))

namespace Groups

/-- A turn leads to one outcome. -/
theorem unique {number : Nat} {c : Cursor} {x y : Except Failure (List Opening)}
    (hx : Groups number c x) (hy : Groups number c y) : x = y := by
  induction hx generalizing y with
  | ends h =>
    cases hy with
    | ends _ => rfl
    | fails h' => cases h.symm.trans h'
    | goesOn h' _ => cases h.symm.trans h'
  | fails h =>
    cases hy with
    | ends h' => cases h.symm.trans h'
    | fails h' =>
      cases h.symm.trans h'
      rfl
    | goesOn h' _ => cases h.symm.trans h'
  | goesOn h _ ih =>
    cases hy with
    | ends h' => cases h.symm.trans h'
    | fails h' => cases h.symm.trans h'
    | goesOn h' hrest =>
      cases h.symm.trans h'
      rw [ih hrest]

/-- The flat forms of layers are grouped into them, whatever integers they hold. -/
theorem flatMap (layers : List Opening) (number : Nat) (taken : List Int) :
    Groups number (between taken (layers.flatMap Opening.flat)) (.ok layers) := by
  induction layers generalizing number taken with
  | nil => exact .ends (run_readLayer?_nil number taken)
  | cons layer layers ih =>
    have hturn := run_readLayer?_flat number taken (layers.flatMap Opening.flat) layer
    exact .goesOn hturn (ih (number + 1) (taken ++ layer.flat))

/-- Every turn that finds a layer takes some of the elements, so with a turn to spare for each of
them the bounded grouping comes to the end too. -/
theorem readLayers {fuel : Nat} {rest : List Int} (hrest : Felts rest)
    (hfuel : rest.length < fuel) (number : Nat) (taken : List Int) :
    Groups number (between taken rest)
      ((Fri.readLayers fuel number).run.run (between taken rest)).1 := by
  induction fuel generalizing number taken rest with
  | zero => omega
  | succ fuel ih =>
    rw [readLayers_succ, run_bind]
    rcases hr : (readLayer? number).run.run (between taken rest) with ⟨f | found, c⟩
    · exact .fails hr
    · obtain ⟨rfl, rfl⟩ | ⟨layer, left, rfl, rfl, rfl⟩ := readLayer?_sound hrest hr
      · exact .ends hr
      · have hshort : left.length < fuel := by
          simp only [List.length_append, Opening.flat, Cursor.length_span] at hfuel
          omega
        have hgroups := Groups.goesOn hr
          (ih (felts_append.1 hrest).2 hshort (number + 1) (taken ++ layer.flat))
        dsimp only
        rw [run_bind]
        rcases hl : (Fri.readLayers fuel (number + 1)).run.run
          (between (taken ++ layer.flat) left) with ⟨f | layers, c⟩ <;>
        · rw [hl] at hgroups
          exact hgroups

end Groups

theorem groups_layersOf {xs : List Int} (h : Felts xs) :
    Groups 1 (Cursor.ofList xs) (layersOf xs) :=
  .readLayers h (by omega) 1 []

/-- Felts are grouped in finitely many turns, into the one list of layers whose flat forms they
are; where there is none they are refused as malformed. The flat forms of layers are grouped into
these layers. -/
theorem layersOf_inverts_flat :
    (∀ xs : List Int, Felts xs →
      (∀ outcome, Groups 1 (Cursor.ofList xs) outcome ↔ outcome = layersOf xs) ∧
      (∀ layers, layersOf xs = .ok layers ↔ xs = layers.flatMap Opening.flat) ∧
      (∀ layers layers' : List Opening, xs = layers.flatMap Opening.flat →
        xs = layers'.flatMap Opening.flat → layers = layers') ∧
      ((¬∃ layers : List Opening, xs = layers.flatMap Opening.flat) →
        ∃ cause, layersOf xs = .error (.malformed cause))) ∧
    ∀ layers : List Opening,
      Groups 1 (Cursor.ofList (layers.flatMap Opening.flat)) (.ok layers) ∧
        layersOf (layers.flatMap Opening.flat) = .ok layers := by
  constructor
  · intro xs hf
    have hgroups := groups_layersOf hf
    refine ⟨fun outcome => ?_, fun layers => layersOf_eq_ok hf, fun layers layers' h h' => ?_,
      fun hnone => ?_⟩
    · constructor
      · exact fun h => h.unique hgroups
      · rintro rfl
        exact hgroups
    · have hlayers := (layersOf_eq_ok hf).2 h
      rw [(layersOf_eq_ok hf).2 h'] at hlayers
      exact (Except.ok.inj hlayers).symm
    · rcases hr : layersOf xs with f | layers
      · obtain ⟨cause, rfl⟩ := layersOf_failsOnly hf f hr
        exact ⟨cause, rfl⟩
      · exact absurd ⟨layers, (layersOf_eq_ok hf).1 hr⟩ hnone
  · intro layers
    exact ⟨.flatMap layers 1 [], layersOf_flatMap layers⟩

/-- A layer with two empty runs behind one whose leaves look like counts, and the same witness
without its last element. -/
theorem layersOf_inverts_flat_small :
    Felts [2, 1, 0, 1, 5, 0, 0] ∧ layersOf [2, 1, 0, 1, 5, 0, 0] = .ok [⟨[1, 0], [5]⟩, ⟨[], []⟩] ∧
      Felts [2, 1, 0, 1, 5, 0] ∧ ∃ f, Groups 1 (Cursor.ofList [2, 1, 0, 1, 5, 0]) (.error f) := by
  have hfelts : Felts [2, 1, 0, 1, 5, 0, 0] := by decide
  have hshort : Felts [2, 1, 0, 1, 5, 0] := by decide
  obtain ⟨-, hok, -, -⟩ := layersOf_inverts_flat.1 _ hfelts
  obtain ⟨hgroups, -, -, -⟩ := layersOf_inverts_flat.1 _ hshort
  exact ⟨hfelts, (hok [⟨[1, 0], [5]⟩, ⟨[], []⟩]).2 rfl, hshort, _, (hgroups _).2 rfl⟩

end StarkReplay.Fri
