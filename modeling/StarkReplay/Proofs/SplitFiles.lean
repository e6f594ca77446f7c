import StarkReplay.Proofs.Accounting
import StarkReplay.Proofs.ChunkFiles

/-!
Splitting a proof file into a directory. Either the directory holds the chunks afterwards, and
nothing else, or the tree is as it was; only when a name or a path is too long, which may show after
the directories above have been made, do these stay.
-/
namespace StarkReplay.Split

open FileTree
open FileName (above)
open Replay (Parts)

variable {H : Hash} {name : Text} {t t' : FileTree} {directory : Path} {c : Chunks}

/-- The chunks of a proof text are accepted felts, and few. -/
theorem split_sound {text : Text} (h : split H text name = .ok c) :
    verify H name c = .ok () ∧ (∀ s ∈ c.streams, Felts s.2) ∧ c.steps.length ≤ 15 := by
  obtain ⟨layout, params, p, hres, hf, -, -, hp, rfl⟩ := exists_parts_of_split h
  have hstreams := Parts.felts_chunks hp.toReplays (Layout.resolve_eq_ok.1 hres).2 hf
    (Replay.Sections.felts_coefficients (Parts.felts_calldata.1 hf).1)
  refine ⟨verify_complete hres hstreams hp.toReplays hp.ends rfl, hstreams, ?_⟩
  rw [Parts.chunks, Parts.length_steps]
  exact hp.toReplays.le_fifteen

/-- The directory holds the chunks and nothing else; outside it there are at most the directories
on the way to it that were missing. -/
structure Filled (t t' : FileTree) (directory : Path) (c : Chunks) : Prop where
  chunks : chunksAt t' directory c.steps.length = .ok c
  only : ∀ q ≠ [], t'.node? (place directory ++ q) ≠ none ↔ ∃ s ∈ c.streams, q = [s.1.name]
  outside : ∀ q, ¬place directory <+: q → t'.node? q = t.node? q ∨
    t.node? q = none ∧ t'.node? q = some .directory ∧ q <+: place directory

theorem writable_of_empty (hw : t.WellFormed) (h : above ∉ directory)
    (hthere : t.lookUp directory = .ok .directory)
    (hempty : ∀ q ≠ [], t.node? (place directory ++ q) = none) (hsteps : c.steps.length < 999) :
    Writable t directory c.streams := by
  obtain ⟨hallowed, hdirectory⟩ := (hw.lookUp_eq_ok h).1 hthere
  exact ⟨hw, h, hallowed, hdirectory, nodup_names c, length_name_le hsteps,
    fun s _ => hempty _ (List.cons_ne_nil _ _), fun s _ => hempty _ (List.cons_ne_nil _ _)⟩

theorem run_writeChunks (hw : t.WellFormed) (h : above ∉ directory)
    (hsteps : c.steps.length < 999) (hfelts : ∀ s ∈ c.streams, Felts s.2)
    {outcome : Except Failure (List Path)}
    (hrun : (writeChunks c directory).run.run t = (outcome, t')) :
    (∀ f, outcome = .error f → t' = t ∨ f = .nameTooLong ∧ AddsWay t t' (place directory)) ∧
      ∀ paths, outcome = .ok paths → Filled t t' directory c := by
  rw [writeChunks, run_bind] at hrun
  rcases hprepare : (prepareDirectory directory).run.run t with ⟨f | _, t₁⟩
  · obtain ⟨hmakes, -⟩ := makes_prepareDirectory hw h hprepare
    rw [hprepare] at hrun
    cases hrun
    refine ⟨fun f' hf => ?_, nofun⟩
    cases hf
    exact (hmakes.failed f rfl).imp_right fun hlong => ⟨hlong, hmakes.adds⟩
  · obtain ⟨hmakes, hempty⟩ := makes_prepareDirectory hw h hprepare
    have hwritable := writable_of_empty hmakes.wellFormed h (hmakes.made rfl) (hempty rfl) hsteps
    rw [hprepare] at hrun
    dsimp only at hrun
    by_cases hshort : pathLength directory + 22 < pathBound
    · obtain ⟨paths, t₂, hwrite, hwritten⟩ := hwritable.run_writeFiles hshort
      cases hwrite.symm.trans hrun
      refine ⟨nofun, fun _ _ => ⟨?_, fun q hq => ⟨?_, ?_⟩, fun q hq => ?_⟩⟩
      · exact hwritten.chunksAt_eq h hwritable.allowed hshort hwritable.short hfelts
      · intro hthere
        by_contra hnone
        refine hthere ((hwritten.others _ ?_).trans (hempty rfl q hq))
        intro s hs heq
        exact hnone ⟨s, hs, List.append_cancel_left heq⟩
      · rintro ⟨s, hs, rfl⟩
        obtain ⟨content, -, hnode⟩ := hwritten.contents s hs
        simp [hnode]
      · have hsame : t'.node? q = t₁.node? q := by
          apply hwritten.others
          rintro s - rfl
          exact hq (List.prefix_append _ _)
        rw [hsame]
        exact hmakes.adds q
    · have hwrite := hwritable.run_writeFiles_of_long (by omega)
      cases hwrite.symm.trans hrun
      exact ⟨fun f hf => .inr ⟨by cases hf; rfl, hmakes.adds⟩, nofun⟩

theorem run_splitFile {proof : Path} {text : Text} (htext : t.textAt proof = .ok text)
    (hsplit : split H text name = .ok c) (directory : Path) :
    (splitFile H proof name directory).run.run t =
      match (writeChunks c directory).run.run t with
      | (.ok _, t') => (.ok c, t')
      | (.error f, t') => (.error f, t') := by
  rw [splitFile, run_bind, run_get]
  dsimp only
  rw [run_bind, run_lift, htext]
  dsimp only
  rw [run_bind, run_lift, hsplit]
  dsimp only
  rw [run_bind]
  rcases (writeChunks c directory).run.run t with ⟨_ | _, t'⟩ <;> rfl

/-- Unless the file holds a text that is split, nothing is written. -/
theorem run_splitFile_of_error {proof : Path} {f : Failure}
    (h : (t.textAt proof >>= fun text => split H text name) = .error f) (directory : Path) :
    (splitFile H proof name directory).run.run t = (.error f, t) := by
  rw [splitFile, run_bind, run_get]
  dsimp only
  rw [run_bind, run_lift]
  rcases htext : t.textAt proof with f' | text
  · rw [htext] at h
    cases h
    rfl
  · rw [htext, ok_bind] at h
    dsimp only
    rw [run_bind, run_lift, h]

/-- Splitting a proof file fills the directory with the chunks of the proof, which are accepted, or
leaves the tree as it is; of a proof that verifies only too long a name or path may leave some of
the directories that were missing. -/
theorem splitFile_fills_or_leaves (hw : t.WellFormed) (h : above ∉ directory) (H : Hash)
    (proof : Path) (name : Text) :
    (∀ f t', (splitFile H proof name directory).run.run t = (.error f, t') →
      t' = t ∨ f = .nameTooLong ∧
        (∃ text c, t.textAt proof = .ok text ∧ split H text name = .ok c) ∧
          AddsWay t t' (place directory)) ∧
    ∀ c t', (splitFile H proof name directory).run.run t = (.ok c, t') →
      verify H name c = .ok () ∧ Filled t t' directory c := by
  rcases hread : (t.textAt proof >>= fun text => split H text name) with f | c
  · rw [run_splitFile_of_error hread]
    refine ⟨fun f' t' hrun => ?_, nofun⟩
    cases hrun
    exact .inl rfl
  · obtain ⟨text, htext, hsplit⟩ := bind_eq_ok.1 hread
    obtain ⟨haccepted, hfelts, hcount⟩ := split_sound hsplit
    rw [run_splitFile htext hsplit]
    rcases hwrite : (writeChunks c directory).run.run t with ⟨f | paths, t₁⟩
    · obtain ⟨hfailed, -⟩ := run_writeChunks hw h (by omega) hfelts hwrite
      refine ⟨fun f' t' hrun => ?_, nofun⟩
      cases hrun
      exact (hfailed f rfl).imp_right fun hlong => ⟨hlong.1, ⟨text, c, htext, hsplit⟩, hlong.2⟩
    · obtain ⟨-, hfilled⟩ := run_writeChunks hw h (by omega) hfelts hwrite
      refine ⟨nofun, fun c' t' hrun => ?_⟩
      cases hrun
      exact ⟨haccepted, hfilled paths rfl⟩

/-- The text of the small proof in a file, and nothing else. -/
def smallTree : FileTree := ⟨[(["p"], .file ((Utf8.encode? smallText).getD []))]⟩

theorem wellFormed_smallTree : smallTree.WellFormed := by
  constructor
  intro e he
  rw [List.mem_singleton.1 he]
  rfl

theorem textAt_smallTree : smallTree.textAt ["p"] = .ok smallText := by decide +kernel

theorem splitFile_fills_or_leaves_small :
    smallTree.WellFormed ∧ above ∉ (["out", "small"] : Path) ∧
      ∃ t', (splitFile Replay.smallHash ["p"] Layout.recursive.name ["out", "small"]).run.run
          smallTree = (.ok .small, t') ∧
        verify Replay.smallHash Layout.recursive.name .small = .ok () ∧
          Filled smallTree t' ["out", "small"] .small := by
  have h : above ∉ (["out", "small"] : Path) := by decide
  have hwrite : ((writeChunks .small ["out", "small"]).run.run smallTree).1 =
      .ok (Chunks.small.streams.map fun s => ["out", "small", s.1.name]) := by decide +kernel
  have hrun := run_splitFile textAt_smallTree split_smallText ["out", "small"]
  rcases hpair : (writeChunks .small ["out", "small"]).run.run smallTree with ⟨outcome, t'⟩
  rw [hpair] at hwrite hrun
  cases hwrite
  exact ⟨wellFormed_smallTree, h, t', hrun,
    (splitFile_fills_or_leaves wellFormed_smallTree h _ _ _).2 _ _ hrun⟩

/-- A missing directory is made and stays although the one in it has too long a name. -/
theorem splitFile_leaves_directory :
    smallTree.WellFormed ∧ above ∉ (["a", List.replicate 256 ('x' : CodePoint)] : Path) ∧
      (splitFile Replay.smallHash ["p"] Layout.recursive.name
          ["a", List.replicate 256 ('x' : CodePoint)]).run.run smallTree =
        (.error .nameTooLong, smallTree.put ["a"] .directory) ∧
      smallTree.put ["a"] .directory ≠ smallTree := by
  have hwrite : (writeChunks .small ["a", List.replicate 256 ('x' : CodePoint)]).run.run smallTree =
      (.error .nameTooLong, smallTree.put ["a"] .directory) := by
    refine Prod.ext ?_ ?_ <;> decide +kernel
  refine ⟨wellFormed_smallTree, by decide, ?_, ?_⟩
  · rw [run_splitFile textAt_smallTree split_smallText, hwrite]
  · intro h
    have hlength := congrArg (fun t => t.entries.length) h
    revert hlength
    decide

end StarkReplay.Split
