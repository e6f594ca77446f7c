import StarkReplay.Proofs.Failing
import StarkReplay.Proofs.FeltText
import StarkReplay.Proofs.Fields

/-!
Regrouping against flattening. A tree whose scalars are integers is read back from its flat
sequence under every template of its shape, and felts are read in no other way. So flattening loses
nothing but the spelling of scalars, and what does not fit a template is refused as malformed.
-/
namespace StarkReplay.Flat

/-- A tree is a scalar or an array of trees. -/
@[elab_as_elim]
theorem tree_induction {motive : Json → Prop}
    (scalar : ∀ t, (∀ items, t ≠ .arr items) → motive t)
    (array : ∀ items, (∀ t ∈ items, motive t) → motive (.arr items)) (t : Json) : motive t := by
  match t with
  | .arr items => exact array items fun t _ => tree_induction scalar array t
  | .null | .bool _ | .int _ | .float _ | .str _ | .obj _ => exact scalar _ nofun

/-! ## Scalars in a tree -/

mutual

/-- The scalars of a tree in order. -/
def leaves : Json → List Json
  | .arr items => itemLeaves items
  | v => [v]

def itemLeaves : List Json → List Json
  | [] => []
  | v :: vs => leaves v ++ itemLeaves vs

end

mutual

/-- The tree with each scalar replaced by the felt that it is encoded as. -/
def encodeLeaves : Json → Except EncodingError Json
  | .arr items => do
    let vs ← encodeItemLeaves items
    return .arr vs
  | v => do
    let n ← scalar v
    return .int n

def encodeItemLeaves : List Json → Except EncodingError (List Json)
  | [] => .ok []
  | v :: vs => do
    let first ← encodeLeaves v
    let rest ← encodeItemLeaves vs
    return first :: rest

end

mutual

/-- The flat sequence of a tree whose scalars are integers. -/
def elements : Json → List Int
  | .arr items => items.length :: itemElements items
  | .int n => [n]
  | _ => []

def itemElements : List Json → List Int
  | [] => []
  | v :: vs => elements v ++ itemElements vs

end

/-- All scalars of the tree are integers. -/
def Integral (v : Json) : Prop := ∀ s ∈ leaves v, ∃ n, s = .int n

/-- All scalars of the tree are felts. -/
def FeltTree (v : Json) : Prop := ∀ s ∈ leaves v, IsNumber s

def itemsOf : Json → List Json
  | .arr items => items
  | _ => []

variable {t v : Json} {items vs : List Json}

theorem shapes_eq_map (items : List Json) : shapes items = items.map shape := by
  induction items with
  | nil => rfl
  | cons v items ih => rw [shapes, ih, List.map_cons]

theorem mem_itemLeaves {s : Json} : s ∈ itemLeaves items ↔ ∃ v ∈ items, s ∈ leaves v := by
  induction items with
  | nil => simp [itemLeaves]
  | cons v items ih => simp [itemLeaves, ih]

theorem itemElements_eq_flatMap (items : List Json) :
    itemElements items = items.flatMap elements := by
  induction items with
  | nil => rfl
  | cons v items ih => rw [itemElements, ih, List.flatMap_cons]

theorem shape_of_scalar (h : ∀ items, t ≠ .arr items) : shape t = .scalar := by
  rw [shape.eq_2 t h]

theorem leaves_of_scalar (h : ∀ items, t ≠ .arr items) : leaves t = [t] := by
  rw [leaves.eq_2 t h]

theorem shape_eq_scalar : shape v = .scalar ↔ ∀ items, v ≠ .arr items := by
  constructor
  · rintro h items rfl
    cases h
  · exact shape_of_scalar

theorem shape_eq_array {ss : List Shape} :
    shape v = .array ss ↔ ∃ items, v = .arr items ∧ items.map shape = ss := by
  constructor
  · intro h
    cases v with
    | arr items =>
      rw [shape, shapes_eq_map] at h
      exact ⟨items, rfl, Shape.array.inj h⟩
    | _ => cases h
  · rintro ⟨items, rfl, rfl⟩
    rw [shape, shapes_eq_map]

theorem forall_leaves_arr {P : Json → Prop} :
    (∀ s ∈ leaves (.arr items), P s) ↔ ∀ v ∈ items, ∀ s ∈ leaves v, P s := by
  simp only [leaves, mem_itemLeaves]
  constructor
  · intro h v hv s hs
    exact h s ⟨v, hv, hs⟩
  · rintro h s ⟨v, hv, hs⟩
    exact h v hv s hs

theorem Integral.exists_eq_int (h : Integral v) (hs : ∀ items, v ≠ .arr items) :
    ∃ n, v = .int n := by
  apply h
  rw [leaves_of_scalar hs]
  exact List.mem_singleton_self v

theorem FeltTree.integral (h : FeltTree v) : Integral v := by
  intro s hs
  obtain ⟨n, -, hn⟩ := h s hs
  exact ⟨n, hn⟩

/-- The felts of a flat sequence are the scalars of the tree and its lengths. -/
theorem Integral.feltTree (h : Integral v) (hf : Felts (elements v)) : FeltTree v := by
  induction v using tree_induction with
  | scalar v hs =>
    obtain ⟨n, rfl⟩ := h.exists_eq_int hs
    intro s hmem
    rw [leaves_of_scalar hs, List.mem_singleton] at hmem
    exact ⟨n, (felts_cons.1 hf).1, hmem⟩
  | array items ih =>
    rw [elements, felts_cons, itemElements_eq_flatMap, felts_flatMap] at hf
    apply forall_leaves_arr (P := IsNumber).2
    intro v hv
    exact ih v hv (forall_leaves_arr.1 h v hv) (hf.2 v hv)

theorem flatten_of_feltTree (h : FeltTree v) : flatten v = .ok (elements v) := by
  induction v using tree_induction with
  | scalar v hs =>
    obtain ⟨n, hn, rfl⟩ := h v (leaves_of_scalar hs ▸ List.mem_singleton_self v)
    exact flatten_int hn
  | array items ih =>
    have hitems : flattenItems items = .ok (itemElements items) := by
      replace h := forall_leaves_arr.1 h
      induction items with
      | nil => rfl
      | cons v items ihs =>
        obtain ⟨hv, hvs⟩ := List.forall_mem_cons.1 h
        obtain ⟨ihv, ihvs⟩ := List.forall_mem_cons.1 ih
        exact flattenItems_cons (ihv hv) (ihs ihvs hvs)
    rw [flatten, hitems]
    rfl

/-! ## Encoded scalars -/

theorem isFelt_of_scalar {n : Int} (h : scalar t = .ok n) : IsFelt n := by
  cases t with
  | str text =>
    obtain ⟨m, -, hm, rfl⟩ := Felt.ofText_eq_ok.1 (mapError_eq_ok.1 h)
    exact hm
  | int m =>
    obtain ⟨hm, rfl⟩ := Felt.check_eq_ok.1 (mapError_eq_ok.1 h)
    exact hm
  | _ => cases h

/-- The tree `v` stands in place of `t`, with felts for scalars and the flat sequence `xs`. -/
structure Replaces (t v : Json) (xs : List Int) : Prop where
  encoded : encodeLeaves t = .ok v
  shape : shape v = shape t
  felts : FeltTree v
  elements : elements v = xs

theorem encodeItemLeaves_of_flattenItems {xs : List Int}
    (ih : ∀ t ∈ items, ∀ {ys}, flatten t = .ok ys → ∃ v, Replaces t v ys)
    (h : flattenItems items = .ok xs) :
    ∃ vs, encodeItemLeaves items = .ok vs ∧ vs.map Flat.shape = items.map Flat.shape ∧
      (∀ v ∈ vs, FeltTree v) ∧ itemElements vs = xs := by
  induction items generalizing xs with
  | nil =>
    cases h
    exact ⟨[], rfl, rfl, nofun, rfl⟩
  | cons t items ihs =>
    obtain ⟨iht, ihts⟩ := List.forall_mem_cons.1 ih
    rw [flattenItems] at h
    obtain ⟨first, hfirst, h⟩ := bind_eq_ok.1 h
    obtain ⟨rest, hrest, h⟩ := bind_eq_ok.1 h
    obtain ⟨v, hv, hshape, hfelts, rfl⟩ := iht hfirst
    obtain ⟨vs, hvs, hshapes, hall, rfl⟩ := ihs ihts hrest
    refine ⟨v :: vs, ?_, ?_, List.forall_mem_cons.2 ⟨hfelts, hall⟩, Except.ok.inj h⟩
    · rw [encodeItemLeaves, hv, hvs]
      rfl
    · rw [List.map_cons, List.map_cons, hshape, hshapes]

theorem exists_replaces {xs : List Int} (h : flatten t = .ok xs) : ∃ v, Replaces t v xs := by
  induction t using tree_induction generalizing xs with
  | scalar t hs =>
    rw [flatten.eq_2 t hs] at h
    obtain ⟨n, hn, h⟩ := bind_eq_ok.1 h
    refine ⟨.int n, ?_, ?_, ?_, Except.ok.inj h⟩
    · rw [encodeLeaves.eq_2 t hs, hn]
      rfl
    · rw [shape_of_scalar hs]
      rfl
    · intro s hmem
      exact ⟨n, isFelt_of_scalar hn, List.mem_singleton.1 hmem⟩
  | array items ih =>
    rw [flatten] at h
    obtain ⟨ys, hys, h⟩ := bind_eq_ok.1 h
    obtain ⟨vs, hvs, hshapes, hall, rfl⟩ := encodeItemLeaves_of_flattenItems ih hys
    have hlength : vs.length = items.length := by
      simpa using congrArg List.length hshapes
    refine ⟨.arr vs, ?_, ?_, forall_leaves_arr.2 hall, ?_⟩
    · rw [encodeLeaves, hvs]
      rfl
    · rw [Flat.shape, Flat.shape, shapes_eq_map, shapes_eq_map, hshapes]
    · rw [Flat.elements, hlength]
      exact Except.ok.inj h

/-! ## Reads -/

/-- What a template lets through. -/
def Fits (template v : Json) : Prop := shape v = shape template ∧ Integral v

theorem fits_scalar (h : ∀ items, t ≠ .arr items) : Fits t v ↔ ∃ n, v = .int n := by
  rw [Fits, shape_of_scalar h, shape_eq_scalar]
  constructor
  · rintro ⟨hs, hv⟩
    exact hv.exists_eq_int hs
  · rintro ⟨n, rfl⟩
    exact ⟨nofun, fun s hs => ⟨n, List.mem_singleton.1 hs⟩⟩

theorem fits_arr : Fits (.arr items) v ↔ ∃ vs, v = .arr vs ∧ List.Forall₂ Fits items vs := by
  rw [Fits, shape, shapes_eq_map, shape_eq_array]
  constructor
  · rintro ⟨⟨vs, rfl, hshapes⟩, hv⟩
    refine ⟨vs, rfl, ?_⟩
    replace hv := forall_leaves_arr.1 hv
    induction vs generalizing items with
    | nil =>
      rw [List.map_eq_nil_iff.1 hshapes.symm]
      exact .nil
    | cons v vs ih =>
      obtain ⟨t, ts, rfl, ht, hts⟩ := List.map_eq_cons_iff.1 hshapes.symm
      obtain ⟨hv, hvs⟩ := List.forall_mem_cons.1 hv
      exact .cons ⟨ht.symm, hv⟩ (ih hts.symm hvs)
  · rintro ⟨vs, rfl, h⟩
    refine ⟨⟨vs, rfl, ?_⟩, forall_leaves_arr.2 ?_⟩
    · induction h with
      | nil => rfl
      | cons hv _ ih => rw [List.map_cons, List.map_cons, hv.1, ih]
    · induction h with
      | nil => nofun
      | cons hv _ ih => exact List.forall_mem_cons.2 ⟨hv.2, ih⟩

theorem readTrees_reads {templates : List Json}
    (h : ∀ t ∈ templates, Reads (readTree t) (Fits t) elements) :
    Reads (readTrees templates) (List.Forall₂ Fits templates) itemElements := by
  induction templates with
  | nil =>
    refine (Reads.pure []).congr (fun vs => ?_) fun vs hvs => ?_
    · exact List.forall₂_nil_left_iff
    · cases hvs
      rfl
  | cons t templates ih =>
    obtain ⟨ht, hts⟩ := List.forall_mem_cons.1 h
    have hread : Reads (readTrees (t :: templates)) (List.Forall₂ Fits (t :: templates))
        (fun vs => elements (vs.headD .null) ++ itemElements vs.tail) := by
      refine .bind (fun vs : List Json => vs.headD .null) ht (fun v hv => ?_) (fun vs hvs => ?_)
      · refine (ih hts).thenReturn (fun us => ?_) fun vs _ => rfl
        constructor
        · rintro ⟨hus, rfl⟩
          cases hus with
          | cons _ htail => exact ⟨_, htail, rfl⟩
        · rintro ⟨vs, hvs, rfl⟩
          exact ⟨.cons hv hvs, rfl⟩
      · cases hvs with
        | cons hhead _ => exact hhead
    refine hread.congr (fun _ => Iff.rfl) fun vs hvs => ?_
    cases hvs
    simp [itemElements]

theorem readTree_reads (template : Json) :
    Reads (readTree template) (Fits template) elements := by
  induction template using tree_induction with
  | scalar t hs =>
    rw [readTree.eq_2 t hs]
    refine Reads.read.thenReturn (fun v => ?_) fun _ _ => rfl
    rw [fits_scalar hs]
    simp
  | array items ih =>
    have hread : Reads (readTree (.arr items)) (Fits (.arr items))
        (fun v => [((itemsOf v).length : Int)] ++ itemElements (itemsOf v)) := by
      rw [readTree]
      refine .bind (fun v => ((itemsOf v).length : Int)) .read (fun count _ => .get fun c => ?_)
        fun _ _ => trivial
      split
      · rename_i hcount
        refine (Reads.throw _).congr (fun v => iff_of_false ?_ id) fun _ _ => rfl
        rintro ⟨hv, rfl⟩
        obtain ⟨vs, rfl, hvs⟩ := fits_arr.1 hv
        exact hcount (congrArg Int.ofNat hvs.length_eq.symm)
      · rename_i hcount
        refine (readTrees_reads ih).thenReturn (fun v => ?_) fun vs _ => rfl
        rw [fits_arr]
        constructor
        · rintro ⟨⟨vs, rfl, hvs⟩, -⟩
          exact ⟨vs, hvs, rfl⟩
        · rintro ⟨vs, hvs, rfl⟩
          refine ⟨⟨vs, rfl, hvs⟩, ?_⟩
          rw [Decidable.not_not.1 hcount, hvs.length_eq]
          rfl
    refine hread.congr (fun _ => Iff.rfl) fun v hv => ?_
    obtain ⟨vs, rfl, -⟩ := fits_arr.1 hv
    rfl

theorem readTree_failsOnly (template : Json) :
    ReadFailsOnly (fun f => f.IsExhausted ∨ f.IsMalformed) (readTree template) := by
  have hread : ReadFailsOnly (fun f => f.IsExhausted ∨ f.IsMalformed) Cursor.read :=
    ReadFailsOnly.read.mono fun _ => .inl
  induction template using tree_induction with
  | scalar t hs =>
    rw [readTree.eq_2 t hs]
    exact hread.thenReturn
  | array items ih =>
    have hitems : ReadFailsOnly (fun f => f.IsExhausted ∨ f.IsMalformed) (readTrees items) := by
      induction items with
      | nil => exact .pure _
      | cons t items ihs =>
        obtain ⟨ht, hts⟩ := List.forall_mem_cons.1 ih
        exact .bind (readTree_reads t) ht fun _ _ _ => (ihs hts).thenReturn
    rw [readTree]
    refine .bind .read hread fun count _ _ => .get fun c => ?_
    split
    · exact .throw (.inr ⟨_, rfl⟩)
    · exact hitems.thenReturn

/-! ## Regrouping -/

/-- `v` has the shape of the template, felts for scalars, and the flat sequence `xs`. -/
structure Regroups (xs : List Int) (template v : Json) : Prop where
  shape : shape v = shape template
  leaves : ∀ s ∈ leaves v, IsNumber s
  flat : flatten v = .ok xs

theorem regroup_of_fits (h : Fits t v) : regroup (elements v) t = .ok v := by
  have hread := (readTree_reads t).complete h [] []
  rw [List.append_nil] at hread
  rw [regroup, Cursor.ofList_eq_between, hread]
  simp

theorem regroup_eq_ok {xs : List Int} (hf : Felts xs) :
    regroup xs t = .ok v ↔ Regroups xs t v := by
  constructor
  · intro h
    rw [regroup, Cursor.ofList_eq_between] at h
    rcases hr : (readTree t).run.run (Cursor.between [] xs) with ⟨f | w, c⟩
    · rw [hr] at h
      cases f <;> cases h
    · obtain ⟨hfits, left, rfl, rfl⟩ := (readTree_reads t).sound hf hr
      rw [hr] at h
      simp only [Cursor.atEnd_between] at h
      split at h
      · rename_i hend
        cases h
        rw [List.isEmpty_iff.1 hend, List.append_nil] at hf ⊢
        have hfelts := hfits.2.feltTree hf
        exact ⟨hfits.1, hfelts, flatten_of_feltTree hfelts⟩
      · cases h
  · intro h
    have hflat := flatten_of_feltTree h.leaves
    rw [h.flat] at hflat
    rw [Except.ok.inj hflat]
    exact regroup_of_fits ⟨h.shape, FeltTree.integral h.leaves⟩

theorem regroup_failsOnly {xs : List Int} (hf : Felts xs) (t : Json) :
    FailsOnly Failure.IsMalformed (regroup xs t) := by
  have hread := (readTree_failsOnly t).ofList hf
  unfold regroup
  rcases hr : (readTree t).run.run (Cursor.ofList xs) with ⟨f | v, c⟩
  · rw [hr] at hread
    rcases hread f rfl with ⟨cause, rfl⟩ | ⟨cause, rfl⟩
    · exact .error ⟨_, rfl⟩
    · exact .error ⟨_, rfl⟩
  · dsimp only
    split
    · exact .ok _
    · exact .error ⟨_, rfl⟩

/-- What flattening writes is regrouped into the tree with its scalars encoded. Felts are regrouped
under a template into the one tree of felts that has its shape and is flattened to them, and where
there is none they are refused as malformed. -/
theorem regroup_inverts_flatten :
    (∀ (t : Json) (xs : List Int), flatten t = .ok xs →
      ∃ v, encodeLeaves t = .ok v ∧ shape v = shape t ∧ regroup xs t = .ok v) ∧
    ∀ (xs : List Int) (template : Json), Felts xs →
      (∀ v, regroup xs template = .ok v ↔ Regroups xs template v) ∧
      (∀ v w, Regroups xs template v → Regroups xs template w → v = w) ∧
      ((¬∃ v, Regroups xs template v) →
        ∃ cause, regroup xs template = .error (.malformed cause)) := by
  constructor
  · intro t xs h
    obtain ⟨v, hv⟩ := exists_replaces h
    refine ⟨v, hv.encoded, hv.shape, ?_⟩
    rw [← hv.elements]
    exact regroup_of_fits ⟨hv.shape, hv.felts.integral⟩
  · intro xs template hf
    refine ⟨fun v => regroup_eq_ok hf, fun v w hv hw => ?_, fun hnone => ?_⟩
    · have hregroup := (regroup_eq_ok hf).2 hv
      rw [(regroup_eq_ok hf).2 hw] at hregroup
      exact (Except.ok.inj hregroup).symm
    · rcases hr : regroup xs template with f | v
      · obtain ⟨cause, rfl⟩ := regroup_failsOnly hf template f hr
        exact ⟨cause, rfl⟩
      · exact absurd ⟨v, (regroup_eq_ok hf).1 hr⟩ hnone

theorem regroup_inverts_flatten_small :
    flatten (.arr [.str "0x10", .arr [.int 3, .arr []]]) = .ok [2, 16, 2, 3, 0] ∧
      Felts [2, 16, 2, 3, 0] ∧
      ∃ v, encodeLeaves (.arr [.str "0x10", .arr [.int 3, .arr []]]) = .ok v ∧
        regroup [2, 16, 2, 3, 0] (.arr [.str "0x10", .arr [.int 3, .arr []]]) = .ok v ∧
        Regroups [2, 16, 2, 3, 0] (.arr [.str "0x10", .arr [.int 3, .arr []]]) v := by
  have hflat : flatten (.arr [.str "0x10", .arr [.int 3, .arr []]]) = .ok [2, 16, 2, 3, 0] := rfl
  have hfelts : Felts [2, 16, 2, 3, 0] := by decide
  obtain ⟨v, hv, -, hregroup⟩ := regroup_inverts_flatten.1 _ _ hflat
  exact ⟨hflat, hfelts, v, hv, hregroup, ((regroup_inverts_flatten.2 _ _ hfelts).1 v).1 hregroup⟩

end StarkReplay.Flat
