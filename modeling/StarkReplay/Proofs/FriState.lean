import StarkReplay.Fri.State
import StarkReplay.Proofs.Reads

/-!
The flat forms of the state between two rounds. A state of felts is encoded as its flat form, and
the reads of a state take flat forms and nothing else; so a state is given back by its encoding.
-/
namespace StarkReplay

namespace Flat

theorem flattenItems_nil_eq_ok {xs : List Int} : flattenItems [] = .ok xs ↔ xs = [] := by
  simp [flattenItems, eq_comm]

theorem flattenItems_cons {v : Json} {vs : List Json} {xs ys : List Int}
    (h : flatten v = .ok xs) (hs : flattenItems vs = .ok ys) :
    flattenItems (v :: vs) = .ok (xs ++ ys) := by
  rw [flattenItems, h, hs]
  rfl

theorem flatten_scalar {t : Json} {v : Int} (h : scalar t = .ok v) : flatten t = .ok [v] := by
  cases t with
  | arr items => cases h
  | _ =>
    rw [flatten.eq_2 _ (by simp), h]
    rfl

/-- Items that are scalars are flattened to their elements. -/
theorem flattenItems_scalars {vs : List Int} {items : List Json}
    (h : List.Forall₂ (fun v t => scalar t = .ok v) vs items) : flattenItems items = .ok vs := by
  induction h with
  | nil => rfl
  | cons ht _ ih => exact flattenItems_cons (flatten_scalar ht) ih

theorem flattenItems_cons_eq_ok {v : Json} {vs : List Json} {xs : List Int} :
    flattenItems (v :: vs) = .ok xs ↔
      ∃ first rest, flatten v = .ok first ∧ flattenItems vs = .ok rest ∧ xs = first ++ rest := by
  rw [flattenItems, bind_eq_ok]
  constructor
  · rintro ⟨first, hfirst, h⟩
    obtain ⟨rest, hrest, h⟩ := bind_eq_ok.1 h
    exact ⟨first, rest, hfirst, hrest, (pure_eq_ok.1 h).symm⟩
  · rintro ⟨first, rest, hfirst, hrest, rfl⟩
    exact ⟨first, hfirst, bind_eq_ok.2 ⟨rest, hrest, rfl⟩⟩

theorem flatten_int_eq_ok {v : Int} {xs : List Int} :
    flatten (.int v) = .ok xs ↔ IsFelt v ∧ xs = [v] := by
  rw [flatten.eq_2 _ (by simp), scalar]
  simp only [bind_eq_ok, mapError_eq_ok, Felt.check_eq_ok, pure_eq_ok]
  constructor
  · rintro ⟨_, ⟨hv, rfl⟩, rfl⟩
    exact ⟨hv, rfl⟩
  · rintro ⟨hv, rfl⟩
    exact ⟨v, ⟨hv, rfl⟩, rfl⟩

theorem flattenItems_ints_eq_ok {vs xs : List Int} :
    flattenItems (vs.map .int) = .ok xs ↔ Felts vs ∧ xs = vs := by
  induction vs generalizing xs with
  | nil => simp [flattenItems_nil_eq_ok]
  | cons v vs ih => simp [flattenItems_cons_eq_ok, flatten_int_eq_ok, ih, and_assoc]

theorem flatten_array_eq_ok {vs xs : List Int} :
    flatten (array vs) = .ok xs ↔ Felts vs ∧ xs = Cursor.span vs := by
  rw [array, flatten]
  simp only [bind_eq_ok, flattenItems_ints_eq_ok, pure_eq_ok, List.length_map]
  constructor
  · rintro ⟨_, ⟨hvs, rfl⟩, rfl⟩
    exact ⟨hvs, rfl⟩
  · rintro ⟨hvs, rfl⟩
    exact ⟨vs, ⟨hvs, rfl⟩, rfl⟩

theorem scalar_int {v : Int} (h : IsFelt v) : scalar (.int v) = .ok v := by
  rw [scalar, Felt.check_of_isFelt h]
  rfl

theorem flatten_int {v : Int} (h : IsFelt v) : flatten (.int v) = .ok [v] :=
  flatten_int_eq_ok.2 ⟨h, rfl⟩

theorem flatten_array {vs : List Int} (h : Felts vs) :
    flatten (array vs) = .ok (Cursor.span vs) :=
  flatten_array_eq_ok.2 ⟨h, rfl⟩

end Flat

namespace Fri

namespace Schedule

def flat (s : Schedule) : List Int :=
  [s.layers] ++ Cursor.span s.commitments ++ Cursor.span s.evalPoints ++
    Cursor.span s.stepSizes ++ [s.lastLayerDigest]

theorem reads : Reads Schedule.read (fun _ => True) flat := by
  have h : Reads Schedule.read (fun _ => True) _ :=
    .field Schedule.layers .read fun _ =>
    .field Schedule.commitments .readSpan fun _ =>
    .field Schedule.evalPoints .readSpan fun _ =>
    .field Schedule.stepSizes .readSpan fun _ =>
    .field Schedule.lastLayerDigest .read fun _ =>
    (Reads.pure _).congr (fun s => by cases s; simp [and_assoc]) fun _ _ => rfl
  exact h.congr (fun _ => Iff.rfl) fun s _ => by simp [flat]

/-- The elements that the schedule holds, without the lengths of its lists. -/
def scalars (s : Schedule) : List Int :=
  [s.layers] ++ s.commitments ++ s.evalPoints ++ s.stepSizes ++ [s.lastLayerDigest]

theorem felts_scalars_of_flat {s : Schedule} (h : Felts s.flat) : Felts s.scalars := by
  simp only [flat, felts_append, felts_span] at h
  simp only [scalars, felts_append]
  tauto

theorem encode_eq_ok {s : Schedule} {xs : List Int} :
    s.encode = .ok xs ↔ Felts s.scalars ∧ xs = s.flat := by
  simp [encode, tree, Flat.flattenItems_cons_eq_ok, Flat.flatten_int_eq_ok,
    Flat.flatten_array_eq_ok, Flat.flattenItems_nil_eq_ok, scalars, flat, and_assoc]

theorem encode_of_felts {s : Schedule} (h : Felts s.flat) : s.encode = .ok s.flat :=
  encode_eq_ok.2 ⟨felts_scalars_of_flat h, rfl⟩

end Schedule

namespace Progress

def elements (p : Progress) : List Int := p.queries.flatMap (fun q => [q.1, q.2])

def flat (p : Progress) : List Int := [p.round] ++ Cursor.span p.elements

theorem pairs?_eq_some {xs : List Int} {queries : List (Int × Int)} :
    pairs? xs = some queries ↔ xs = queries.flatMap (fun q => [q.1, q.2]) := by
  constructor
  · intro h
    induction xs using pairs?.induct generalizing queries with
    | case1 =>
      cases h
      rfl
    | case2 x => cases h
    | case3 x y rest ih =>
      obtain ⟨qs, hqs, rfl⟩ := Option.map_eq_some_iff.1 h
      rw [ih hqs, List.flatMap_cons]
      rfl
  · rintro rfl
    exact pairs?_flatMap queries

theorem reads : Reads Progress.read (fun _ => True) flat := by
  have h : Reads Progress.read (fun _ => True) fun p =>
      [p.round] ++ (Cursor.span p.elements ++ []) := by
    refine .field Progress.round .read fun round =>
      .field Progress.elements .readSpan fun found => ?_
    cases he : pairs? found with
    | none =>
      refine (Reads.throw _).congr (fun p => iff_of_false ?_ id) fun _ _ => rfl
      rintro ⟨-, rfl⟩
      rw [elements, pairs?_flatMap] at he
      cases he
    | some queries =>
      have hqueries := pairs?_eq_some.1 he
      refine (Reads.pure _).congr (fun p => ?_) fun _ _ => rfl
      constructor
      · rintro ⟨⟨-, rfl⟩, rfl⟩
        rw [elements, pairs?_flatMap] at he
        cases he
        rfl
      · rintro rfl
        exact ⟨⟨trivial, rfl⟩, hqueries.symm⟩
  exact h.congr (fun _ => Iff.rfl) fun p _ => by simp [flat]

/-- The elements that the progress holds, without the number of them. -/
def scalars (p : Progress) : List Int := p.round :: p.elements

theorem felts_scalars_of_flat {p : Progress} (h : Felts p.flat) : Felts p.scalars := by
  simp only [flat, felts_append, felts_span, felts_cons] at h
  simp only [scalars, felts_cons]
  tauto

theorem encode_eq_ok {p : Progress} {xs : List Int} :
    p.encode = .ok xs ↔ Felts p.scalars ∧ xs = p.flat := by
  simp [encode, tree, Flat.flattenItems_cons_eq_ok, Flat.flatten_int_eq_ok,
    Flat.flatten_array_eq_ok, Flat.flattenItems_nil_eq_ok, scalars, flat, elements, and_assoc]

theorem encode_of_felts {p : Progress} (h : Felts p.flat) : p.encode = .ok p.flat :=
  encode_eq_ok.2 ⟨felts_scalars_of_flat h, rfl⟩

end Progress

end Fri

end StarkReplay
