import StarkReplay.Proofs.ProofText

/-!
Fields of an object, changed one at a time. A field that is set keeps its place, or comes last if
it is new; so of two settings of one field the last one counts, a field that is there may be set
before or after another one, and the fields of other names stay as they are.
-/
namespace StarkReplay.Json.Fields

variable {fields fields' before after : Fields} {name other : Text} {v w : Json}

theorem get?_append (h : name ∉ before.map Prod.fst) :
    Fields.get? (before ++ (name, v) :: after) name = some v := by
  induction before with
  | nil => simp [get?]
  | cons field before ih =>
    simp only [List.map_cons, List.mem_cons, not_or] at h
    rw [List.cons_append, get?, if_neg (Ne.symm h.1), ih h.2]

/-- The value of a field is that of the first one with its name. -/
theorem get?_eq_some_iff : fields.get? name = some v ↔
    ∃ before after, fields = before ++ (name, v) :: after ∧ name ∉ before.map Prod.fst := by
  constructor
  · intro h
    induction fields with
    | nil => cases h
    | cons field fields ih =>
      obtain ⟨k, u⟩ := field
      by_cases hk : k = name
      · subst hk
        rw [get?, if_pos rfl] at h
        cases h
        exact ⟨[], fields, rfl, List.not_mem_nil⟩
      · rw [get?, if_neg hk] at h
        obtain ⟨before, after, rfl, hbefore⟩ := ih h
        exact ⟨(k, u) :: before, after, rfl, by simpa [Ne.symm hk] using hbefore⟩
  · rintro ⟨before, after, rfl, hbefore⟩
    exact get?_append hbefore

theorem set_append (h : name ∉ before.map Prod.fst) :
    Fields.set (before ++ (name, v) :: after) name w = before ++ (name, w) :: after := by
  induction before with
  | nil => simp [set]
  | cons field before ih =>
    simp only [List.map_cons, List.mem_cons, not_or] at h
    rw [List.cons_append, set, if_neg (Ne.symm h.1), ih h.2, List.cons_append]

theorem set_eq_self (h : fields.get? name = some v) : fields.set name v = fields := by
  obtain ⟨before, after, rfl, hbefore⟩ := get?_eq_some_iff.1 h
  exact set_append hbefore

theorem set_set (fields : Fields) (name : Text) (v w : Json) :
    (fields.set name v).set name w = fields.set name w := by
  induction fields with
  | nil => simp [set]
  | cons field fields ih =>
    obtain ⟨k, u⟩ := field
    by_cases hk : k = name <;> simp [set, hk, ih]

/-- A field that is there keeps its place, whatever is set before. -/
theorem set_comm (hne : name ≠ other) (h : name ∈ fields.map Prod.fst) :
    (fields.set other w).set name v = (fields.set name v).set other w := by
  induction fields with
  | nil => cases h
  | cons field fields ih =>
    obtain ⟨k, u⟩ := field
    by_cases hk : k = name
    · subst hk
      simp [set, hne]
    · have hfields : name ∈ fields.map Prod.fst := by simpa [Ne.symm hk] using h
      by_cases ho : k = other
      · subst ho
        simp [set, hk]
      · simp [set, hk, ho, ih hfields]

theorem mem_map_fst_set (fields : Fields) (name : Text) (v : Json) :
    name ∈ (fields.set name v).map Prod.fst := by
  rw [map_fst_set]
  split
  · assumption
  · simp

theorem filter_set (p : Text → Bool) (h : p name = false) (fields : Fields) (v : Json) :
    (fields.set name v).filter (fun f => p f.1) = fields.filter (fun f => p f.1) := by
  induction fields with
  | nil => simp [set, h]
  | cons field fields ih =>
    obtain ⟨k, u⟩ := field
    by_cases hk : k = name
    · subst hk
      simp [set, h]
    · simp [set, hk, List.filter_cons, ih]

/-! ## One value changed -/

/-- The fields with the value of one of them changed, if it is there. -/
def update (fields : Fields) (name : Text) (f : Json → Json) : Fields :=
  match fields.get? name with
  | some v => fields.set name (f v)
  | none => fields

theorem update_of_some (h : fields.get? name = some v) (f : Json → Json) :
    fields.update name f = fields.set name (f v) := by
  simp [update, h]

theorem get?_update (fields : Fields) (name : Text) (f : Json → Json) :
    (fields.update name f).get? name = (fields.get? name).map f := by
  cases h : fields.get? name with
  | none => simp [update, h]
  | some v => simp [update, h, get?_set]

theorem update_update {f : Json → Json} (h : ∀ v, f (f v) = f v) (fields : Fields) (name : Text) :
    (fields.update name f).update name f = fields.update name f := by
  cases hv : fields.get? name with
  | none => simp [update, hv]
  | some v =>
    have hv' : (fields.update name f).get? name = some (f v) := by rw [get?_update, hv]; rfl
    rw [update_of_some hv', update_of_some hv, set_set, h]

/-- The value of the named field is replaced if `R` tells by what; all other fields stay, with
their names and their order. -/
inductive Updates (name : Text) (R : Json → Json → Prop) : Fields → Fields → Prop
  | replaced {before after : Fields} {v w : Json} : name ∉ before.map Prod.fst → R v w →
      Updates name R (before ++ (name, v) :: after) (before ++ (name, w) :: after)
  | kept {fields : Fields} : (∀ v, fields.get? name = some v → ∀ w, ¬R v w) →
      Updates name R fields fields

/-- The function replaces the values that the relation replaces, as it tells, and keeps the
others. -/
structure Performs (f : Json → Json) (R : Json → Json → Prop) : Prop where
  unique : ∀ v w, R v w → w = f v
  total : ∀ v, R v (f v) ∨ f v = v ∧ ∀ w, ¬R v w

variable {R : Json → Json → Prop} {f : Json → Json}

theorem updates_update (h : Performs f R) (fields : Fields) (name : Text) :
    Updates name R fields (fields.update name f) := by
  cases hv : fields.get? name with
  | none =>
    have hsame : fields.update name f = fields := by simp [update, hv]
    rw [hsame]
    exact .kept fun v hv' => by simp [hv] at hv'
  | some v =>
    rw [update_of_some hv]
    rcases h.total v with hR | ⟨hsame, hnone⟩
    · obtain ⟨before, after, rfl, hbefore⟩ := get?_eq_some_iff.1 hv
      rw [set_append hbefore]
      exact .replaced hbefore hR
    · rw [hsame, set_eq_self hv]
      refine .kept fun v' hv' => ?_
      cases hv.symm.trans hv'
      exact hnone

/-- Only one way to replace a value is told, so only one object comes of it. -/
theorem updates_iff (h : Performs f R) : Updates name R fields fields' ↔
    fields' = fields.update name f := by
  constructor
  · intro hupdates
    cases hupdates with
    | replaced hbefore hR =>
      rw [update_of_some (get?_append hbefore), set_append hbefore, h.unique _ _ hR]
    | kept hkept =>
      cases hv : fields.get? name with
      | none => simp [update, hv]
      | some v =>
        have hself : f v = v := (h.total v).elim (fun hR => absurd hR (hkept v hv _)) And.left
        rw [update_of_some hv, hself, set_eq_self hv]
  · rintro rfl
    exact updates_update h fields name

end StarkReplay.Json.Fields
