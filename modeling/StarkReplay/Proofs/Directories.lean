import StarkReplay.FileTree.Directory
import StarkReplay.Proofs.Places

/-!
Making directories. The directory of a path is made with the missing ones on the way to it, and
nothing else changes. If that fails the tree is as it was, unless a name was too long that nobody
could look at before the directory above it was made.
-/
namespace StarkReplay.FileTree

open FileName (above isTooLong)

/-- All that the second tree has besides the first one are directories on the way to a place. -/
def AddsWay (t t' : FileTree) (p : Place) : Prop :=
  ∀ q, t'.node? q = t.node? q ∨ t.node? q = none ∧ t'.node? q = some .directory ∧ q <+: p

theorem AddsWay.refl (t : FileTree) (p : Place) : AddsWay t t p := fun _ => .inl rfl

theorem AddsWay.trans {t t₁ t₂ : FileTree} {p p₂ : Place} (h₁ : AddsWay t t₁ p)
    (h₂ : AddsWay t₁ t₂ p₂) (hp : p <+: p₂) : AddsWay t t₂ p₂ := by
  intro q
  rcases h₂ q with hsame | ⟨hnone, hdirectory, hprefix⟩
  · rw [hsame]
    rcases h₁ q with hsame' | ⟨hnone, hdirectory, hprefix⟩
    · exact .inl hsame'
    · exact .inr ⟨hnone, hdirectory, hprefix.trans hp⟩
  · rcases h₁ q with hsame' | ⟨_, hdirectory', _⟩
    · exact .inr ⟨hsame' ▸ hnone, hdirectory, hprefix⟩
    · rw [hnone] at hdirectory'
      cases hdirectory'

theorem AddsWay.mono {t t' : FileTree} {p p' : Place} (h : AddsWay t t' p) (hp : p <+: p') :
    AddsWay t t' p' := h.trans (.refl t' p') hp

/-- What comes of making the directory of a path. -/
structure Makes (t : FileTree) (p : Path) (outcome : Except Failure Unit) (t' : FileTree) :
    Prop where
  wellFormed : t'.WellFormed
  adds : AddsWay t t' (place p)
  made : outcome = .ok () → t'.lookUp p = .ok .directory
  failed : ∀ f, outcome = .error f → t' = t ∨ f = .nameTooLong

variable {t t' : FileTree} {p : Path} {outcome : Except Failure Unit}

theorem run_ensureDirectory (p : Path) (t : FileTree) : (ensureDirectory p).run.run t =
    match t.makeDirectory p with
    | .ok made => (.ok (), made)
    | .error f => if t.isDirectory p then (.ok (), t) else (.error f, t) := by
  rw [ensureDirectory, run_bind, run_get]
  dsimp only
  rcases t.makeDirectory p with f | made
  · dsimp only
    split <;> rfl
  · rfl

theorem isDirectory_iff : t.isDirectory p = true ↔ t.lookUp p = .ok .directory := by
  rw [isDirectory]
  split <;> simp_all

namespace WellFormed

variable (hw : t.WellFormed)
include hw

theorem makeDirectory_eq_ok (h : above ∉ p) {made : FileTree} :
    t.makeDirectory p = .ok made ↔ Allowed p ∧ t.node? (place p.dropLast) = some .directory ∧
      t.node? (place p) = none ∧ made = t.put (place p) .directory := by
  rw [makeDirectory, bind_eq_ok]
  constructor
  · rintro ⟨q, hq, hmade⟩
    obtain ⟨hallowed, rfl, hparent⟩ := (hw.resolve_eq_ok h).1 hq
    split at hmade
    · rename_i hnone
      cases hmade
      exact ⟨hallowed, hparent, hnone, rfl⟩
    · cases hmade
  · rintro ⟨hallowed, hparent, hnone, rfl⟩
    refine ⟨_, (hw.resolve_eq_ok h).2 ⟨hallowed, rfl, hparent⟩, ?_⟩
    rw [hnone]

theorem makes_directory (h : above ∉ p) {made : FileTree} (hmade : t.makeDirectory p = .ok made) :
    Makes t p (.ok ()) made := by
  obtain ⟨hallowed, hparent, hnone, rfl⟩ := (hw.makeDirectory_eq_ok h).1 hmade
  have hnode := fun q => node?_put t q .directory (node?_eq_none.1 hnone).1
  rw [place, List.map_dropLast] at hparent
  have hw' := hw.of_adds hnone hparent hnode
  refine ⟨hw', fun q => ?_, fun _ => ?_, fun f hf => ?_⟩
  · by_cases hq : place p = q
    · subst hq
      exact .inr ⟨hnone, by rw [hnode, if_pos rfl], List.prefix_rfl⟩
    · exact .inl (by rw [hnode, if_neg hq])
  · rw [hw'.lookUp_eq_ok h, hnode, if_pos rfl]
    exact ⟨hallowed, rfl⟩
  · cases hf

theorem makes_ensureDirectory (h : above ∉ p)
    (hrun : (ensureDirectory p).run.run t = (outcome, t')) : Makes t p outcome t' := by
  rw [run_ensureDirectory] at hrun
  split at hrun
  · rename_i hmade
    cases hrun
    exact hw.makes_directory h hmade
  · split at hrun
    · rename_i hdirectory
      cases hrun
      exact ⟨hw, .refl t _, fun _ => isDirectory_iff.1 hdirectory, nofun⟩
    · cases hrun
      exact ⟨hw, .refl t _, nofun, fun _ _ => .inl rfl⟩

/-- Where nothing stands in a directory, only too long a name keeps a directory from being made. -/
theorem ensureDirectory_of_parent (h : above ∉ p) (hchecked : checkPath p = .ok ())
    (hparent : t.node? (place p.dropLast) = some .directory) (hnone : t.node? (place p) = none)
    {f : Failure} (hrun : (ensureDirectory p).run.run t = (.error f, t')) : f = .nameTooLong := by
  have hmissing : t.lookUp p ≠ .ok .directory := by
    intro hlook
    rw [hw.lookUp_eq_ok h, hnone] at hlook
    cases hlook.2
  rw [run_ensureDirectory] at hrun
  rcases hw.resolve_of_parent h hchecked hparent with hok | hlong
  · rw [makeDirectory, hok, ok_bind, hnone] at hrun
    cases hrun
  · rw [makeDirectory, hlong] at hrun
    dsimp only [bind, Except.bind] at hrun
    rw [if_neg (mt isDirectory_iff.1 hmissing)] at hrun
    cases hrun
    rfl

/-- A directory is missing on the way to a path. -/
theorem of_makeDirectory_noSuchPath (h : above ∉ p)
    (hmake : t.makeDirectory p = .error .noSuchPath) :
    checkPath p = .ok () ∧ t.node? (place p) = none := by
  apply hw.of_noSuchPath h
  rw [makeDirectory] at hmake
  rcases hr : t.resolve p with f | q
  · rw [hr] at hmake
    cases hmake
    rfl
  · rw [hr, ok_bind] at hmake
    split at hmake <;> cases hmake

/-- The directories on the way are made one after another, by induction on how many names lead to
them. -/
theorem makes_first (h : above ∉ p) {k : Nat} (hk : k ≤ p.length)
    (hrun : (makeFirst p k).run.run t = (outcome, t')) : Makes t (p.take k) outcome t' := by
  induction k generalizing outcome t' with
  | zero =>
    cases hrun
    exact ⟨hw, .refl t _, fun _ => rfl, nofun⟩
  | succ k ih =>
    have hprefix : place (p.take k) <+: place (p.take (k + 1)) :=
      (List.take_prefix_take_left (Nat.le_succ k)).map _
    have htake : above ∉ p.take (k + 1) := fun hmem => h (List.mem_of_mem_take hmem)
    rw [makeFirst, run_bind, run_get] at hrun
    dsimp only at hrun
    split at hrun
    · rename_i hmissing
      obtain ⟨hchecked, hnone⟩ := hw.of_makeDirectory_noSuchPath htake hmissing
      rw [run_bind] at hrun
      rcases hfirst : (makeFirst p k).run.run t with ⟨f | _, t₁⟩
      · have hmakes := ih (Nat.le_of_succ_le hk) hfirst
        rw [hfirst] at hrun
        cases hrun
        exact ⟨hmakes.wellFormed, hmakes.adds.mono hprefix, nofun, hmakes.failed⟩
      · have hmakes := ih (Nat.le_of_succ_le hk) hfirst
        rw [hfirst] at hrun
        have hnext := hmakes.wellFormed.makes_ensureDirectory htake hrun
        refine ⟨hnext.wellFormed, hmakes.adds.trans hnext.adds hprefix, hnext.made, ?_⟩
        rintro f rfl
        right
        have hparent : t₁.node? (place (p.take (k + 1)).dropLast) = some .directory := by
          have hmade := hmakes.made rfl
          rw [hmakes.wellFormed.lookUp_eq_ok fun hmem => h (List.mem_of_mem_take hmem)] at hmade
          have hnames : (p.take (k + 1)).dropLast = p.take k := by
            rw [List.dropLast_eq_take, List.length_take, List.take_take]
            congr 1
            omega
          rw [hnames]
          exact hmade.2
        have hnone' : t₁.node? (place (p.take (k + 1))) = none := by
          rcases hmakes.adds (place (p.take (k + 1))) with hsame | ⟨-, -, hle⟩
          · rwa [hsame]
          · have hlength := hle.length_le
            simp only [place, List.length_map, List.length_take] at hlength
            omega
        exact hmakes.wellFormed.ensureDirectory_of_parent htake hchecked hparent hnone' hrun
    · exact hw.makes_ensureDirectory htake hrun

theorem makes_directories (h : above ∉ p)
    (hrun : (makeDirectories p).run.run t = (outcome, t')) : Makes t p outcome t' := by
  have hfirst := hw.makes_first h (Nat.le_refl _) hrun
  rwa [List.take_length] at hfirst

theorem childrenAt_eq_ok (h : above ∉ p) {found : List (Place × Node)}
    (hfound : t.childrenAt p = .ok found) :
    t.lookUp p = .ok .directory ∧ found = t.children (place p) := by
  obtain ⟨n, hlook, hfound⟩ := bind_eq_ok.1 hfound
  cases n with
  | file content => cases hfound
  | directory =>
    obtain ⟨q, hq, hfound⟩ := bind_eq_ok.1 hfound
    obtain ⟨-, rfl, -⟩ := (hw.resolve_eq_ok h).1 hq
    cases hfound
    exact ⟨hlook, rfl⟩

end WellFormed

end StarkReplay.FileTree
