import Mathlib.Data.List.Induction
import StarkReplay.FileTree
import StarkReplay.Proofs.FileNames
import StarkReplay.Proofs.Outcome

/-!
Places in a file tree, and where paths lead. In a well-formed tree whatever stands somewhere stands
in a directory. A path without two dots then leads to the place of its stored names, if no name in
it is too long and all that it leads through are directories.
-/
namespace StarkReplay.FileTree

open FileName (above stored isTooLong isEncodable)

/-- What is listed stands in a directory. -/
structure WellFormed (t : FileTree) : Prop where
  parents : ∀ e ∈ t.entries, t.node? e.1.dropLast = some .directory

/-- The place of the names of a path. -/
def place (p : Path) : Place := p.map stored

section

variable {t t' : FileTree} {p q : Place} {n : Node}

/-! ## Nodes -/

theorem nodeAmong_eq_none {entries : List (Place × Node)} :
    nodeAmong p entries = none ↔ ∀ e ∈ entries, e.1 ≠ p := by
  induction entries with
  | nil => simp [nodeAmong]
  | cons e entries ih =>
    obtain ⟨r, m⟩ := e
    by_cases hr : r = p
    · simp [nodeAmong, hr]
    · simp [nodeAmong, hr, ih]

theorem node?_eq_none : t.node? p = none ↔ p ≠ [] ∧ ∀ e ∈ t.entries, e.1 ≠ p := by
  rw [node?]
  split
  · simp_all
  · simp_all [nodeAmong_eq_none]

theorem node?_ne_none (h : p ≠ []) : t.node? p ≠ none ↔ ∃ e ∈ t.entries, e.1 = p := by
  rw [Ne, node?_eq_none]
  simp [h]

theorem wellFormed_iff :
    t.WellFormed ↔ ∀ p, t.node? p ≠ none → t.node? p.dropLast = some .directory := by
  constructor
  · rintro ⟨parents⟩ p hp
    by_cases hnil : p = []
    · subst hnil
      rfl
    · obtain ⟨e, he, rfl⟩ := (node?_ne_none hnil).1 hp
      exact parents e he
  · intro h
    refine ⟨fun e he => h e.1 fun hnone => ?_⟩
    exact (node?_eq_none.1 hnone).2 e he rfl

/-- Whatever stands below a place, a directory stands there. -/
theorem WellFormed.directory_above (hw : t.WellFormed) (hq : q ≠ [])
    (h : t.node? (p ++ q) ≠ none) : t.node? p = some .directory := by
  induction q using List.reverseRecOn with
  | nil => exact absurd rfl hq
  | append_singleton q name ih =>
    have hparent := wellFormed_iff.1 hw _ h
    rw [← List.append_assoc, List.dropLast_concat] at hparent
    by_cases hnil : q = []
    · rwa [hnil, List.append_nil] at hparent
    · exact ih hnil (by simp [hparent])

theorem WellFormed.nothing_below (hw : t.WellFormed) (h : t.node? p = none) (q : Place) :
    t.node? (p ++ q) = none := by
  by_cases hq : q = []
  · rwa [hq, List.append_nil]
  · cases hn : t.node? (p ++ q) with
    | none => rfl
    | some n =>
      rw [hw.directory_above hq (by simp [hn])] at h
      cases h

theorem children_eq_nil : t.children p = [] ↔ ∀ name, t.node? (p ++ [name]) = none := by
  rw [children, List.filter_eq_nil_iff]
  simp only [node?_eq_none, decide_eq_true_eq]
  constructor
  · intro h name
    refine ⟨by simp, fun e he heq => h e he ?_⟩
    rw [heq]
    exact ⟨by simp, by simp⟩
  · rintro h e he ⟨hne, heq⟩
    refine (h (e.1.getLast hne)).2 e he ?_
    rw [← heq, List.dropLast_concat_getLast]

/-- Nothing stands below a directory without children. -/
theorem WellFormed.empty_of_children (hw : t.WellFormed) (h : t.children p = []) (hq : q ≠ []) :
    t.node? (p ++ q) = none := by
  cases q with
  | nil => exact absurd rfl hq
  | cons name q =>
    have hchild := children_eq_nil.1 h name
    rw [List.append_cons]
    exact hw.nothing_below hchild q

theorem node?_erase (hp : p ≠ []) (q : Place) :
    (t.erase p).node? q = if q = p then none else t.node? q := by
  have herase : ∀ entries : List (Place × Node),
      nodeAmong q (entries.filter fun e => e.1 ≠ p) =
        if q = p then none else nodeAmong q entries := by
    intro entries
    induction entries with
    | nil => simp [nodeAmong]
    | cons e entries ih =>
      obtain ⟨r, m⟩ := e
      by_cases hr : r = p
      · subst hr
        rw [List.filter_cons_of_neg (by simp), ih, nodeAmong]
        by_cases hq : q = r
        · rw [if_pos hq, if_pos hq]
        · rw [if_neg hq, if_neg hq, if_neg (Ne.symm hq)]
      · rw [List.filter_cons_of_pos (by simpa using hr), nodeAmong, nodeAmong, ih]
        by_cases hq : r = q
        · rw [if_pos hq, if_neg (hq ▸ hr), if_pos hq]
        · rw [if_neg hq, if_neg hq]
  by_cases hq : q = []
  · subst hq
    simp [node?, hp.symm]
  · simp only [node?, erase, if_neg hq]
    exact herase t.entries

/-- A tree stays well-formed when something comes into a directory where nothing stands. -/
theorem WellFormed.of_adds (hw : t.WellFormed) (hp : t.node? p = none)
    (hparent : t.node? p.dropLast = some .directory)
    (h : ∀ q, t'.node? q = if p = q then some n else t.node? q) : t'.WellFormed := by
  have hne := (node?_eq_none.1 hp).1
  rw [wellFormed_iff] at hw ⊢
  intro q hq
  rw [h]
  by_cases hpq : p = q
  · subst hpq
    rw [if_neg, hparent]
    intro heq
    have hlength := congrArg List.length heq
    rw [List.length_dropLast] at hlength
    have hpos := List.length_pos_iff.2 hne
    omega
  · rw [h, if_neg hpq] at hq
    have hdirectory := hw q hq
    rw [if_neg, hdirectory]
    rintro rfl
    rw [hp] at hdirectory
    cases hdirectory

end

/-! ## Paths -/

section

variable {p : Path}

theorem any_contains_nul : p.any (fun name => name.contains (CodePoint.ofNat 0)) = true ↔
    ∃ name ∈ p, (0 : UInt8) ∈ FileName.bytes name := by
  simp only [List.any_eq_true, FileName.contains_nul_iff]

/-- Of encodable names without a zero byte, the length of the path is all that counts. -/
theorem checkPath_of_names (hencodable : ∀ name ∈ p, isEncodable name = true)
    (hnul : ∀ name ∈ p, (0 : UInt8) ∉ FileName.bytes name) : checkPath p =
      if pathBound ≤ pathLength p then .error .nameTooLong else .ok () := by
  have hnul' : ¬p.any (fun name => name.contains (CodePoint.ofNat 0)) = true := by
    rw [any_contains_nul]
    rintro ⟨name, hmem, hzero⟩
    exact hnul name hmem hzero
  rw [checkPath, if_neg (by simpa using hencodable), if_neg hnul']

theorem checkPath_eq_ok : checkPath p = .ok () ↔
    (∀ name ∈ p, isEncodable name = true) ∧ (∀ name ∈ p, (0 : UInt8) ∉ FileName.bytes name) ∧
      pathLength p < pathBound := by
  constructor
  · intro h
    rw [checkPath] at h
    split at h
    · cases h
    · rename_i hencodable
      split at h
      · cases h
      · rename_i hnul
        split at h
        · cases h
        · rename_i hbound
          rw [Bool.not_eq_false, List.all_eq_true] at hencodable
          rw [any_contains_nul, not_exists] at hnul
          exact ⟨hencodable, fun name hmem hzero => hnul name ⟨hmem, hzero⟩,
            Nat.not_le.1 hbound⟩
  · rintro ⟨hencodable, hnul, hbound⟩
    rw [checkPath_of_names hencodable hnul, if_neg (Nat.not_le.2 hbound)]

theorem checkPath_eq_error {f : Failure} (h : checkPath p = .error f) :
    f = .unencodable ∨ f = .nulInPath ∨ f = .nameTooLong := by
  rw [checkPath] at h
  split at h
  · cases h
    exact .inl rfl
  · split at h
    · cases h
      exact .inr (.inl rfl)
    · split at h
      · cases h
        exact .inr (.inr rfl)
      · cases h

theorem pathLength_append (p q : Path) : pathLength (p ++ q) = pathLength p + pathLength q := by
  induction p with
  | nil => simp [pathLength]
  | cons name p ih =>
    simp only [pathLength, List.cons_append, List.foldr_cons] at ih ⊢
    omega

theorem pathLength_place (p : Path) : pathLength (place p) = pathLength p := by
  induction p with
  | nil => rfl
  | cons name p ih =>
    simp only [pathLength, place, List.map_cons, List.foldr_cons, FileName.bytes_stored] at ih ⊢
    rw [ih]

/-- A path whose names, and the path itself, a file system takes. -/
structure Allowed (p : Path) : Prop where
  checked : checkPath p = .ok ()
  short : ∀ name ∈ p, isTooLong name = false

theorem allowed_place (h : Allowed p) : Allowed (place p) := by
  obtain ⟨hencodable, hnul, hbound⟩ := checkPath_eq_ok.1 h.checked
  constructor
  · rw [checkPath_eq_ok, pathLength_place, place, List.forall_mem_map, List.forall_mem_map]
    refine ⟨fun name hname => FileName.isEncodable_stored (hencodable name hname), ?_, hbound⟩
    simpa only [FileName.bytes_stored] using hnul
  · rw [place, List.forall_mem_map]
    simpa only [FileName.isTooLong_stored] using h.short

theorem place_place (p : Path) : place (place p) = place p := by
  simp [place, FileName.stored_stored]

theorem above_not_mem_place (h : above ∉ p) : above ∉ place p := by
  intro hmem
  obtain ⟨name, hname, habove⟩ := List.mem_map.1 hmem
  exact h (FileName.stored_eq_above.1 habove ▸ hname)

variable {t : FileTree} {here q : Place}

theorem follow_cons {name : Text} (h : name ≠ above) : t.follow here (name :: p) = .ok q ↔
    t.node? here = some .directory ∧ isTooLong name = false ∧
      t.follow (here ++ [stored name]) p = .ok q := by
  rw [follow]
  split
  · simp_all
  · simp_all
  · rename_i hdirectory
    rw [if_neg h]
    split
    · simp_all
    · simp_all

/-- A path is followed one part after the other. -/
theorem follow_append (t : FileTree) (here : Place) (first rest : Path) :
    t.follow here (first ++ rest) = t.follow here first >>= fun d => t.follow d rest := by
  induction first generalizing here with
  | nil => rfl
  | cons name first ih =>
    rw [List.cons_append, follow, follow]
    split
    · rfl
    · rfl
    · split
      · exact ih _
      · split
        · rfl
        · exact ih _

/-- Where a path leads that does not lead back. -/
theorem follow_eq_ok (h : above ∉ p) : t.follow here p = .ok q ↔
    q = here ++ place p ∧ (∀ name ∈ p, isTooLong name = false) ∧
      ∀ k < p.length, t.node? (here ++ place (p.take k)) = some .directory := by
  induction p generalizing here with
  | nil =>
    rw [follow, Except.ok.injEq, place, List.map_nil, List.append_nil]
    exact ⟨fun heq => ⟨heq.symm, nofun, nofun⟩, fun heq => heq.1.symm⟩
  | cons name p ih =>
    obtain ⟨hname, hp⟩ := not_or.1 (mt List.mem_cons.2 h)
    have hplace : ∀ p, here ++ place (name :: p) = here ++ [stored name] ++ place p := by
      simp [place]
    have hzero : here ++ place ((name :: p).take 0) = here := List.append_nil here
    rw [follow_cons (Ne.symm hname), ih hp, List.forall_mem_cons, hplace]
    constructor
    · rintro ⟨hdirectory, hshort, rfl, hshorts, hdirs⟩
      refine ⟨rfl, ⟨hshort, hshorts⟩, fun k hk => ?_⟩
      cases k with
      | zero => rwa [hzero]
      | succ k =>
        rw [List.take_succ_cons, hplace]
        exact hdirs k (Nat.lt_of_succ_lt_succ hk)
    · rintro ⟨rfl, ⟨hshort, hshorts⟩, hdirs⟩
      have hdirectory := hdirs 0 (Nat.succ_pos _)
      rw [hzero] at hdirectory
      refine ⟨hdirectory, hshort, rfl, hshorts, fun k hk => ?_⟩
      have hk' := hdirs (k + 1) (Nat.succ_lt_succ hk)
      rwa [List.take_succ_cons, hplace] at hk'

/-- Through directories a path leads on, unless one of its names is too long. -/
theorem follow_of_directories (h : above ∉ p)
    (hdirs : ∀ k < p.length, t.node? (here ++ place (p.take k)) = some .directory) :
    t.follow here p = .ok (here ++ place p) ∨ t.follow here p = .error .nameTooLong := by
  induction p generalizing here with
  | nil =>
    rw [follow, place, List.map_nil, List.append_nil]
    exact .inl rfl
  | cons name p ih =>
    obtain ⟨hname, hp⟩ := not_or.1 (mt List.mem_cons.2 h)
    have hplace : ∀ p, here ++ place (name :: p) = here ++ [stored name] ++ place p := by
      simp [place]
    have hdirectory : t.node? here = some .directory := by
      simpa [place] using hdirs 0 (Nat.succ_pos _)
    have hrest : ∀ k < p.length,
        t.node? (here ++ [stored name] ++ place (p.take k)) = some .directory := by
      intro k hk
      rw [← hplace, ← List.take_succ_cons]
      exact hdirs (k + 1) (Nat.succ_lt_succ hk)
    rw [follow, hdirectory, hplace]
    dsimp only
    rw [if_neg (Ne.symm hname)]
    split
    · exact .inr rfl
    · exact ih hp hrest

namespace WellFormed

variable (hw : t.WellFormed)
include hw

theorem directories_iff : (∀ k < p.length, t.node? (place (p.take k)) = some .directory) ↔
    t.node? (place p.dropLast) = some .directory := by
  constructor
  · intro h
    by_cases hnil : p = []
    · subst hnil
      rfl
    · rw [List.dropLast_eq_take]
      have hpos := List.length_pos_iff.2 hnil
      exact h _ (by omega)
  · intro h k hk
    have htake : p.dropLast.take k = p.take k := by
      rw [List.dropLast_eq_take, List.take_take, Nat.min_eq_left (by omega)]
    have hsplit : place (p.take k) ++ place (p.dropLast.drop k) = place p.dropLast := by
      rw [place, place, ← List.map_append, ← htake, List.take_append_drop, place]
    by_cases hnil : place (p.dropLast.drop k) = []
    · rwa [← hsplit, hnil, List.append_nil] at h
    · exact hw.directory_above hnil (by simp [hsplit, h])

/-- In a well-formed tree the last directory of a path is all that counts. -/
theorem resolve_eq_ok (h : above ∉ p) : t.resolve p = .ok q ↔
    Allowed p ∧ q = place p ∧ t.node? (place p.dropLast) = some .directory := by
  have hfollow : t.follow [] p = .ok q ↔ _ := follow_eq_ok h
  simp only [List.nil_append, hw.directories_iff] at hfollow
  rw [resolve, bind_eq_ok]
  constructor
  · rintro ⟨⟨⟩, hchecked, hresolved⟩
    obtain ⟨hq, hshort, hparent⟩ := hfollow.1 hresolved
    exact ⟨⟨hchecked, hshort⟩, hq, hparent⟩
  · rintro ⟨hallowed, hq, hparent⟩
    exact ⟨⟨⟩, hallowed.checked, hfollow.2 ⟨hq, hallowed.short, hparent⟩⟩

theorem lookUp_eq_ok (h : above ∉ p) {n : Node} : t.lookUp p = .ok n ↔
    Allowed p ∧ t.node? (place p) = some n := by
  rw [lookUp, bind_eq_ok]
  constructor
  · rintro ⟨q, hq, hn⟩
    obtain ⟨hallowed, rfl, -⟩ := (hw.resolve_eq_ok h).1 hq
    refine ⟨hallowed, ?_⟩
    split at hn
    · rename_i hsome
      cases hn
      exact hsome
    · cases hn
  · rintro ⟨hallowed, hn⟩
    have hparent := wellFormed_iff.1 hw (place p) (by simp [hn])
    rw [place, ← List.map_dropLast] at hparent
    refine ⟨_, (hw.resolve_eq_ok h).2 ⟨hallowed, rfl, hparent⟩, ?_⟩
    rw [hn]

theorem resolve_of_parent (h : above ∉ p) (hchecked : checkPath p = .ok ())
    (hparent : t.node? (place p.dropLast) = some .directory) :
    t.resolve p = .ok (place p) ∨ t.resolve p = .error .nameTooLong := by
  rw [resolve, hchecked, ok_bind]
  exact follow_of_directories h (hw.directories_iff.2 hparent)

/-- Nothing stands at a path that leads through something missing. -/
theorem of_noSuchPath (h : above ∉ p) (hresolve : t.resolve p = .error .noSuchPath) :
    checkPath p = .ok () ∧ t.node? (place p) = none := by
  cases hchecked : checkPath p with
  | error f =>
    rw [resolve, hchecked] at hresolve
    cases hresolve
    rcases checkPath_eq_error hchecked with hf | hf | hf <;> cases hf
  | ok _ =>
    refine ⟨rfl, ?_⟩
    cases hn : t.node? (place p) with
    | none => rfl
    | some n =>
      have hparent := wellFormed_iff.1 hw (place p) (by simp [hn])
      rw [place, ← List.map_dropLast] at hparent
      rcases hw.resolve_of_parent h hchecked hparent with hok | hlong
      · rw [hok] at hresolve
        cases hresolve
      · rw [hlong] at hresolve
        cases hresolve

end WellFormed

end

end StarkReplay.FileTree
