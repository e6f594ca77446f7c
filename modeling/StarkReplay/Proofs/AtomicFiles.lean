import StarkReplay.Annotations.Files
import StarkReplay.Proof.Files
import StarkReplay.Proofs.Outcome
import StarkReplay.Proofs.Replacing

/-!
Files that are made from others. Everything is read before the one file is written, which may be
one of those that were read; so what goes wrong while reading, and what goes wrong while writing,
leaves the tree as it is.
-/
namespace StarkReplay.FileTree

variable {α β : Type} {t : FileTree} {target : Path} {m : FileM α} {holds : α → Text → Prop}

/-- A failure leaves the tree as it is, and a success only replaces the target, by the text that
goes with the result. -/
structure WritesAt (t : FileTree) (m : FileM α) (target : Path) (holds : α → Text → Prop) :
    Prop where
  failed : ∀ f t', m.run.run t = (.error f, t') → t' = t
  done : ∀ a t', m.run.run t = (.ok a, t') → ∃ text content, holds a text ∧
    Utf8.encode? text = some content ∧ Replaced t t' target content

theorem writesAt_writeText (t : FileTree) (target : Path) (text : Text) :
    WritesAt t (writeText target text) target fun _ s => s = text := by
  have hwriting := writing_writeHistory t target text
  constructor
  · intro f t' hrun
    rw [run_writeText] at hrun
    generalize t.writeHistory target text = history at hrun hwriting
    cases hwriting <;> cases hrun <;> rfl
  · intro a t' hrun
    rw [run_writeText] at hrun
    generalize t.writeHistory target text = history at hrun hwriting
    cases hwriting with
    | replaced _ _ hcontent hreplaced =>
      cases hrun
      exact ⟨text, _, rfl, hcontent, hreplaced⟩
    | _ => cases hrun

namespace WritesAt

/-- What goes before the writing and only reads. -/
theorem bind {x : Except Failure β} {k : β → FileM α} {reader : FileM β}
    (hread : reader.run.run t = (x, t)) (h : ∀ b, x = .ok b → WritesAt t (k b) target holds) :
    WritesAt t (reader >>= k) target holds := by
  have hrun := run_bind reader k t
  rw [hread] at hrun
  cases x with
  | error f =>
    constructor
    · intro f' t' hfailed
      cases hrun.symm.trans hfailed
      rfl
    · intro a t' hdone
      cases hrun.symm.trans hdone
  | ok b =>
    obtain ⟨hfailed, hdone⟩ := h b rfl
    exact ⟨fun f t' h' => hfailed f t' (hrun.symm.trans h'),
      fun a t' h' => hdone a t' (hrun.symm.trans h')⟩

/-- A result given after the writing. -/
theorem map {f : α → β} {holds' : β → Text → Prop} (h : WritesAt t m target holds)
    (hholds : ∀ a text, holds a text → holds' (f a) text) :
    WritesAt t (m >>= fun a => pure (f a)) target holds' := by
  have hrun := run_bind m (fun a => pure (f a)) t
  rcases hm : m.run.run t with ⟨f' | a, t₁⟩ <;> rw [hm] at hrun <;> constructor
  · intro e t' hfailed
    cases hrun.symm.trans hfailed
    exact h.failed _ _ hm
  · intro b t' hdone
    cases hrun.symm.trans hdone
  · intro e t' hfailed
    cases hrun.symm.trans hfailed
  · intro b t' hdone
    cases hrun.symm.trans hdone
    obtain ⟨text, content, hold, hwritten⟩ := h.done _ _ hm
    exact ⟨text, content, hholds a text hold, hwritten⟩

end WritesAt

/-! ## Reading -/

theorem run_reading (t : FileTree) (path : Path) (f : Text → Except Failure α) :
    (do f (← (← get).textAt path) : FileM α).run.run t = (t.textAt path >>= f, t) := by
  rw [run_bind, run_get]
  dsimp only
  rw [run_bind, run_lift]
  cases t.textAt path <;> rfl

theorem run_ofFile (t : FileTree) (path : Path) : (Proof.ofFile path).run.run t =
    (t.textAt path >>= fun text => (Proof.parse text).mapError .malformed, t) :=
  run_reading t path _

theorem run_readDocument (t : FileTree) (path : Path) :
    (Annotations.readDocument path).run.run t = (t.textAt path >>= fun text =>
      (Json.read Numeral.maxDigits text).mapError (Annotations.jsonFailure text), t) :=
  run_reading t path _

/-- The lines of the file that is given. -/
def LinesAt (t : FileTree) (source : Option Path) (lines : List Text) : Prop :=
  ∃ path text, source = some path ∧ t.textAt path = .ok text ∧ lines = text.lines

theorem run_readLines (t : FileTree) (source : Option Path) :
    ∃ x, (Annotations.readLines source).run.run t = (x, t) ∧
      ∀ lines, x = .ok (some lines) → LinesAt t source lines := by
  cases source with
  | none => exact ⟨.ok none, rfl, nofun⟩
  | some path =>
    refine ⟨_, run_reading t path fun text => .ok (some text.lines), fun lines hlines => ?_⟩
    obtain ⟨text, htext, hlines⟩ := bind_eq_ok.1 hlines
    cases hlines
    exact ⟨path, text, rfl, htext, rfl⟩

/-! ## Files from files -/

/-- What three files hold: a document, and the lines for it. -/
structure Sources (t : FileTree) (proof : Path) (annotations extra : Option Path) (document : Json)
    (main further : List Text) : Prop where
  document : ∃ text, t.textAt proof = .ok text ∧ Json.read Numeral.maxDigits text = .ok document
  main : LinesAt t annotations main
  further : LinesAt t extra further

theorem writesAt_writeCalldata (t : FileTree) (proof output : Path) :
    WritesAt t (Proof.writeCalldata proof output) output fun n s => ∃ text elements,
      t.textAt proof = .ok text ∧ Proof.calldataOf text = .ok elements ∧
        n = elements.length ∧ s = Flat.text elements := by
  refine .bind (run_ofFile t proof) fun p hp => .bind (run_lift _ t) fun elements helements => ?_
  obtain ⟨text, htext, hparse⟩ := bind_eq_ok.1 hp
  have hcalldata : Proof.calldataOf text = .ok elements := bind_eq_ok.2 ⟨p, hparse, helements⟩
  refine (writesAt_writeText t output (Flat.text elements)).map ?_
  rintro _ s rfl
  exact ⟨text, elements, htext, hcalldata, rfl, rfl⟩

theorem given_of_merge {document merged : Json} {a e : Option (List Text)}
    (h : Annotations.merge document a e = .ok merged) :
    ∃ main further, a = some main ∧ e = some further := by
  rcases a with _ | main
  · cases h
  rcases e with _ | further
  · cases h
  exact ⟨main, further, rfl, rfl⟩

theorem writesAt_mergeFiles (t : FileTree) (proof : Path) (annotations extra : Option Path)
    (output : Path) :
    WritesAt t (Annotations.mergeFiles proof annotations extra output) output fun merged s =>
      ∃ document main further, Sources t proof annotations extra document main further ∧
        Annotations.merge document (some main) (some further) = .ok merged ∧
          s = merged.write .indented := by
  obtain ⟨x, hrunMain, hmain⟩ := run_readLines t annotations
  obtain ⟨y, hrunFurther, hfurther⟩ := run_readLines t extra
  refine .bind hrunMain fun a ha => .bind hrunFurther fun e he =>
    .bind (run_readDocument t proof) fun document hdocument =>
      .bind (run_lift _ t) fun merged hmerged => ?_
  obtain ⟨main, further, rfl, rfl⟩ := given_of_merge hmerged
  obtain ⟨text, htext, hread⟩ := bind_eq_ok.1 hdocument
  have hsources : Sources t proof annotations extra document main further :=
    ⟨⟨text, htext, mapError_eq_ok.1 hread⟩, hmain main ha, hfurther further he⟩
  refine (writesAt_writeText t output (merged.write .indented)).map ?_
  rintro _ s rfl
  exact ⟨document, main, further, hsources, hmerged, rfl⟩

/-- Writing is all or nothing. Wherever writing a text is interrupted, the target is as it was or
complete and all else is as it was; and writing a text, the calldata of a proof file or a proof
file with annotations either fails and leaves the tree as it is, or replaces nothing but the
target, which may be one of the files that were read. -/
theorem writes_atomically (t : FileTree) (target : Path) :
    (∀ text, (∀ u ∈ (t.writeHistory target text).1, Moment t u target text) ∧
      WritesAt t (writeText target text) target fun _ s => s = text) ∧
    (∀ proof, WritesAt t (Proof.writeCalldata proof target) target fun n s => ∃ text elements,
      t.textAt proof = .ok text ∧ Proof.calldataOf text = .ok elements ∧
        n = elements.length ∧ s = Flat.text elements) ∧
    ∀ proof annotations extra,
      WritesAt t (Annotations.mergeFiles proof annotations extra target) target fun merged s =>
        ∃ document main further, Sources t proof annotations extra document main further ∧
          Annotations.merge document (some main) (some further) = .ok merged ∧
            s = merged.write .indented :=
  ⟨fun text => ⟨moment_of_writeHistory t target text, writesAt_writeText t target text⟩,
    fun proof => writesAt_writeCalldata t proof target,
    fun proof annotations extra => writesAt_mergeFiles t proof annotations extra target⟩

def proofText : Text := Json.write .oneLine <| .obj [
  ("config", .arr [.int 1]), ("public_input", .arr []), ("unsent_commitment", .arr []),
  ("witness", .arr [.str "0x2"])]

/-- A proof file and a directory. -/
def proofTree : FileTree :=
  ⟨[(["p"], .file ((Utf8.encode? proofText).getD [])), (["d"], .directory)]⟩

/-- The proof file is replaced by its calldata; over the directory nothing is written, though the
text is complete in the temporary file by then. -/
theorem writes_atomically_small :
    (∃ t' content, (Proof.writeCalldata ["p"] ["p"]).run.run proofTree = (.ok 3, t') ∧
      Utf8.encode? "1 2 1" = some content ∧ Replaced proofTree t' ["p"] content) ∧
    (proofTree.writeHistory ["d"] "1 2 1").1.length = 4 ∧
      (writeText ["d"] "1 2 1").run.run proofTree = (.error .isDirectory, proofTree) := by
  obtain ⟨-, hcalldata, -⟩ := writes_atomically proofTree ["p"]
  obtain ⟨hwrite, -, -⟩ := writes_atomically proofTree ["d"]
  have hdone : ((Proof.writeCalldata ["p"] ["p"]).run.run proofTree).1 = .ok 3 := by decide +kernel
  have hfailed : ((writeText ["d"] "1 2 1").run.run proofTree).1 = .error .isDirectory := by
    decide +kernel
  refine ⟨?_, by decide +kernel, ?_⟩
  · rcases hrun : (Proof.writeCalldata ["p"] ["p"]).run.run proofTree with ⟨outcome, t'⟩
    rw [hrun] at hdone
    cases hdone
    obtain ⟨s, content, ⟨text, elements, htext, helements, -, rfl⟩, hcontent, hreplaced⟩ :=
      (hcalldata ["p"]).done _ _ hrun
    have hsmall : (proofTree.textAt ["p"] >>= Proof.calldataOf) = .ok [1, 2, 1] := by
      decide +kernel
    rw [htext, ok_bind, helements] at hsmall
    cases hsmall
    exact ⟨t', content, rfl, hcontent, hreplaced⟩
  · rcases hrun : (writeText ["d"] "1 2 1").run.run proofTree with ⟨outcome, t'⟩
    rw [hrun] at hfailed
    cases hfailed
    rw [(hwrite "1 2 1").2.failed _ _ hrun]

end StarkReplay.FileTree
