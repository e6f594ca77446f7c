import StarkReplay.Fri.Witness
import StarkReplay.Proofs.Reads

/-!
The grouping of a FRI witness into layers. Felts are grouped into exactly the layers whose flat
forms, one after another, they are; there is at most one such list of layers.
-/
namespace StarkReplay.Fri

open Cursor (between)

theorem readRun_reads (run : Run) : Reads (readRun run) (fun _ => True) Cursor.span := by
  refine Reads.readSpan.tryCatch fun f => ?_
  cases f <;> exact ⟨_, rfl⟩

/-! ## One turn -/

/-- The next layer, or none at the end of the elements. -/
def readLayer? (number : Nat) : CursorM (Option Opening) := do
  let start ← get
  if start.atEnd then return none
  else
    let leaves ← readRun .leaves
    let middle ← get
    if middle.atEnd then throw (.malformed (.noAuthentications number start.offset))
    else
      let authentications ← readRun .authentications
      return some ⟨leaves, authentications⟩

theorem readLayers_succ (fuel number : Nat) :
    readLayers (fuel + 1) number = readLayer? number >>= fun
      | none => pure []
      | some layer => do
        let rest ← readLayers fuel (number + 1)
        return layer :: rest := by
  rw [readLayers, readLayer?, bind_assoc]
  congr
  funext start
  split
  · rw [pure_bind]
  · rw [bind_assoc]
    congr
    funext leaves
    rw [bind_assoc]
    congr
    funext middle
    split
    · rfl
    · rw [bind_assoc]
      congr

theorem run_readLayer?_nil (number : Nat) (taken : List Int) :
    (readLayer? number).run.run (between taken []) = (.ok none, between taken []) := by
  rw [readLayer?, run_bind_of_ok (run_get _), if_pos (by simp), run_pure]

/-- Two runs with something behind the first one are a layer. -/
theorem run_readLayer?_flat (number : Nat) (taken left : List Int) (layer : Opening) :
    (readLayer? number).run.run (between taken (layer.flat ++ left)) =
      (.ok (some layer), between (taken ++ layer.flat) left) := by
  have hleaves := (readRun_reads .leaves).complete (a := layer.leaves) trivial taken
    (Cursor.span layer.authentications ++ left)
  have hauth := (readRun_reads .authentications).complete (a := layer.authentications) trivial
    (taken ++ Cursor.span layer.leaves) left
  rw [readLayer?, Opening.flat, List.append_assoc, run_bind_of_ok (run_get _),
    if_neg (by simp [Cursor.span]), run_bind_of_ok hleaves, run_bind_of_ok (run_get _),
    if_neg (by simp [Cursor.span]), run_bind_of_ok hauth, run_pure, List.append_assoc]

/-- On felts a turn that succeeds has come to the end or has read the flat form of a layer. -/
theorem readLayer?_sound {number : Nat} {taken rest : List Int} {found : Option Opening}
    {c : Cursor} (hrest : Felts rest)
    (hr : (readLayer? number).run.run (between taken rest) = (.ok found, c)) :
    (found = none ∧ rest = []) ∨ ∃ layer left, found = some layer ∧ rest = layer.flat ++ left ∧
      c = between (taken ++ layer.flat) left := by
  rw [readLayer?, run_bind_of_ok (run_get _), Cursor.atEnd_between] at hr
  split at hr
  · rename_i h
    cases hr
    exact .inl ⟨rfl, List.isEmpty_iff.1 h⟩
  · obtain ⟨leaves, c₁, hleaves, hr⟩ := run_bind_eq_ok.1 hr
    obtain ⟨_, left, rfl, rfl⟩ := (readRun_reads .leaves).sound hrest hleaves
    rw [run_bind_of_ok (run_get _)] at hr
    split at hr
    · cases hr
    · obtain ⟨auths, c₂, hauths, hr⟩ := run_bind_eq_ok.1 hr
      obtain ⟨_, left, rfl, rfl⟩ :=
        (readRun_reads .authentications).sound (felts_append.1 hrest).2 hauths
      cases hr
      exact .inr ⟨⟨leaves, auths⟩, left, rfl, by rw [Opening.flat, List.append_assoc],
        by rw [Opening.flat, List.append_assoc]⟩

/-! ## All turns -/

theorem run_readLayers_nil (fuel number : Nat) (taken : List Int) :
    (readLayers fuel number).run.run (between taken []) = (.ok [], between taken []) := by
  cases fuel with
  | zero => rfl
  | succ fuel =>
    rw [readLayers_succ, run_bind_of_ok (run_readLayer?_nil number taken), run_pure]

theorem run_readLayers_flatMap (layers : List Opening) (fuel number : Nat) (taken : List Int)
    (h : layers.length ≤ fuel) :
    ((readLayers fuel number).run.run (between taken (layers.flatMap Opening.flat))).1 =
      .ok layers := by
  induction layers generalizing fuel number taken with
  | nil => rw [List.flatMap_nil, run_readLayers_nil]
  | cons layer layers ih =>
    obtain ⟨fuel, rfl⟩ : ∃ k, fuel = k + 1 := ⟨fuel - 1, by simp at h; omega⟩
    have hrest := ih fuel (number + 1) (taken ++ layer.flat) (by simpa using h)
    rw [List.flatMap_cons, readLayers_succ,
      run_bind_of_ok (run_readLayer?_flat number taken _ layer), run_bind]
    rcases hr : (readLayers fuel (number + 1)).run.run
      (between (taken ++ layer.flat) (layers.flatMap Opening.flat)) with ⟨e | rest, c⟩
    · rw [hr] at hrest
      cases hrest
    · rw [hr] at hrest
      cases hrest
      rfl

/-- With enough fuel for every element, all of them are grouped. -/
theorem eq_flatMap_of_readLayers {fuel number : Nat} {taken rest : List Int} {c : Cursor}
    {layers : List Opening} (hrest : Felts rest) (hfuel : rest.length < fuel)
    (hr : (readLayers fuel number).run.run (between taken rest) = (.ok layers, c)) :
    rest = layers.flatMap Opening.flat := by
  induction fuel generalizing number taken rest c layers with
  | zero => omega
  | succ fuel ih =>
    rw [readLayers_succ] at hr
    obtain ⟨found, c₁, hfound, hnext⟩ := run_bind_eq_ok.1 hr
    obtain ⟨rfl, rfl⟩ | ⟨layer, left, rfl, rfl, rfl⟩ := readLayer?_sound hrest hfound
    · cases hnext
      rfl
    · obtain ⟨layers, c₂, hlayers, hnext⟩ := run_bind_eq_ok.1 hnext
      cases hnext
      have hl := ih (felts_append.1 hrest).2
        (by simp [Opening.flat, Cursor.span] at hfuel; omega) hlayers
      rw [hl, List.flatMap_cons]

theorem layersOf_flatMap (layers : List Opening) :
    layersOf (layers.flatMap Opening.flat) = .ok layers := by
  refine run_readLayers_flatMap layers _ 1 [] ?_
  have h : layers.length ≤ (layers.flatMap Opening.flat).length := by
    induction layers with
    | nil => simp
    | cons layer layers ih =>
      simp only [List.flatMap_cons, List.length_append, List.length_cons, Opening.flat,
        Cursor.length_span]
      omega
  omega

theorem layersOf_eq_ok {xs : List Int} {layers : List Opening} (h : Felts xs) :
    layersOf xs = .ok layers ↔ xs = layers.flatMap Opening.flat := by
  constructor
  · intro hl
    rcases hr : (readLayers (2 * xs.length + 2) 1).run.run (between [] xs) with ⟨outcome, c⟩
    have ho : outcome = .ok layers := by
      rw [← hl, layersOf, Cursor.ofList_eq_between, hr]
    rw [ho] at hr
    exact eq_flatMap_of_readLayers h (by omega) hr
  · rintro rfl
    exact layersOf_flatMap layers

end StarkReplay.Fri
