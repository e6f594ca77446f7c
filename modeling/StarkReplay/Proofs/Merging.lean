import StarkReplay.Proofs.AnnotationLines
import StarkReplay.Proofs.JsonReading
import StarkReplay.Proofs.Rewriting

/-!
Merging annotations again. Lines that are merged in replace those that were merged in before, each
field in its place, and no other field is touched. A merged document is read back from its file as
it was written, so merging the same lines into it again leaves the file as it is.
-/
namespace StarkReplay

namespace FileTree

variable {t u : FileTree} {path target : Path} {text : Text} {content : List UInt8}

/-- A file that is not the target is as it was. -/
theorem Replaced.textAt (h : Replaced t u target content) (hne : t.resolve path ≠ t.resolve target)
    (htext : t.textAt path = .ok text) : u.textAt path = .ok text := by
  obtain ⟨old, hold, htext⟩ := bind_eq_ok.1 htext
  have hlook := h.lookUp_of_ne hne (bytesAt_eq_ok.1 hold)
  exact bind_eq_ok.2 ⟨old, bytesAt_eq_ok.2 hlook, htext⟩

theorem LinesAt.of_replaced {source : Option Path} {ls : List Text} (h : LinesAt t source ls)
    (hreplaced : Replaced t u target content)
    (hne : ∀ path, source = some path → t.resolve path ≠ t.resolve target) :
    LinesAt u source ls := by
  obtain ⟨path, text, rfl, htext, rfl⟩ := h
  exact ⟨path, text, rfl, hreplaced.textAt (hne path rfl) htext, rfl⟩

end FileTree

namespace Annotations

open FileTree

variable {t t' : FileTree} {proof output : Path} {annotations extra : Option Path}
  {fields : Json.Fields} {document merged : Json} {main further main' further' : List Text}

/-! ## Merging once more -/

theorem withLines_withLines (fields : Json.Fields) (main further main' further' : List Text) :
    withLines (withLines fields main further) main' further' = withLines fields main' further' := by
  have hne : mainName ≠ extraName := by decide
  have hmem := Json.Fields.mem_map_fst_set fields mainName (lineArray main)
  rw [withLines, withLines, Json.Fields.set_comm hne hmem, Json.Fields.set_set,
    Json.Fields.set_set, withLines]

theorem plain_lineArray {limit : Nat} (h : ∀ l ∈ main, l.Scalar) :
    Json.Plain Text.Unpaired limit (lineArray main) := by
  refine .arr fun v hv => ?_
  obtain ⟨l, hl, rfl⟩ := List.mem_map.1 hv
  exact .str (h l hl).unpaired

theorem plain_withLines {limit : Nat} (h : Json.Plain Text.Unpaired limit (.obj fields))
    (hmain : ∀ l ∈ main, l.Scalar) (hfurther : ∀ l ∈ further, l.Scalar) :
    Json.Plain Text.Unpaired limit (.obj (withLines fields main further)) := by
  have hnames : mainName.Scalar ∧ extraName.Scalar := by
    simp only [Text.Scalar]
    decide
  exact (h.set hnames.1.unpaired (plain_lineArray hmain)).set hnames.2.unpaired
    (plain_lineArray hfurther)

/-- A merge succeeds if everything is read, the document takes the lines and the text is
written. -/
theorem mergeFiles_eq_ok :
    (mergeFiles proof annotations extra output).run.run t = (.ok merged, t') ↔
      ∃ document main further, Sources t proof annotations extra document main further ∧
        merge document (some main) (some further) = .ok merged ∧
          (writeText output (merged.write .indented)).run.run t = (.ok (), t') := by
  constructor
  · intro h
    obtain ⟨x, hx, hmain⟩ := run_readLines t annotations
    obtain ⟨y, hy, hfurther⟩ := run_readLines t extra
    obtain ⟨a, _, ha, h⟩ := run_bind_eq_ok.1 h
    cases hx.symm.trans ha
    obtain ⟨e, _, he, h⟩ := run_bind_eq_ok.1 h
    cases hy.symm.trans he
    obtain ⟨document, _, hdocument, h⟩ := run_bind_eq_ok.1 h
    rw [run_readDocument] at hdocument
    obtain ⟨hread, rfl⟩ := Prod.mk.inj hdocument
    obtain ⟨m, _, hm, h⟩ := run_bind_eq_ok.1 h
    rw [run_lift] at hm
    obtain ⟨hmerge, rfl⟩ := Prod.mk.inj hm
    obtain ⟨_, _, hwrite, h⟩ := run_bind_eq_ok.1 h
    cases h
    obtain ⟨main, further, rfl, rfl⟩ := given_of_merge hmerge
    obtain ⟨text, htext, hread⟩ := bind_eq_ok.1 hread
    exact ⟨document, main, further, ⟨⟨text, htext, mapError_eq_ok.1 hread⟩, hmain main rfl,
      hfurther further rfl⟩, hmerge, hwrite⟩
  · rintro ⟨document, main, further, ⟨⟨text, htext, hread⟩, hmain, hfurther⟩, hmerge, hwrite⟩
    refine run_bind_eq_ok.2 ⟨_, t, hmain.run_readLines, run_bind_eq_ok.2 ⟨_, t,
      hfurther.run_readLines, run_bind_eq_ok.2 ⟨document, t, ?_, run_bind_eq_ok.2 ⟨merged, t, ?_,
        run_bind_eq_ok.2 ⟨(), t', hwrite, rfl⟩⟩⟩⟩⟩
    · rw [run_readDocument, htext, ok_bind, hread]
      rfl
    · rw [run_lift, hmerge]

/-! ## Merging into what was merged -/

/-- A merged document is in its file as it is, and read back from it. -/
theorem document_of_mergeFiles {content : List UInt8}
    (hplain : Json.Plain Text.Unpaired Numeral.maxDigits merged)
    (hbytes : t.bytesAt output = .ok content)
    (hcontent : Utf8.encode? (merged.write .indented) = some content) :
    ∃ text, t.textAt output = .ok text ∧ Json.read Numeral.maxDigits text = .ok merged := by
  have hprinted : Json.Printed (merged.write .indented) :=
    hplain.integral.printed_writeAt .indented 0
  refine ⟨_, textAt_of_bytesAt hbytes hcontent, ?_⟩
  rw [hprinted.unifyLineEnds, Json.read_write hplain]

/-- The fields of other names than those of the lines. -/
def others (fields : Json.Fields) : Json.Fields :=
  fields.filter fun f => f.1 ≠ mainName ∧ f.1 ≠ extraName

theorem others_withLines (fields : Json.Fields) (main further : List Text) :
    others (withLines fields main further) = others fields := by
  let p : Text → Bool := fun name => decide (name ≠ mainName ∧ name ≠ extraName)
  have hmain : p mainName = false := by decide
  have hextra : p extraName = false := by decide
  exact (Json.Fields.filter_set p hextra _ _).trans (Json.Fields.filter_set p hmain _ _)

/-- Merging lines into an object replaces lines that were merged into it before, and keeps all
other fields, with their values and in their order. Merging the same files into a merged proof
file, which has no numbers but integers and is none of the files of lines, gives the same document
and leaves the file, and all else, as it is. -/
theorem merge_stable :
    (∀ (fields : Json.Fields) (main further : List Text), ∃ merged : Json.Fields,
      merge (.obj fields) (some main) (some further) = .ok (.obj merged) ∧
        merged.get? mainName = some (lineArray main) ∧
        merged.get? extraName = some (lineArray further) ∧ others merged = others fields ∧
        ∀ main' further', merge (.obj merged) (some main') (some further') =
          merge (.obj fields) (some main') (some further')) ∧
    ∀ t proof annotations extra output document merged t',
      (readDocument proof).run.run t = (.ok document, t) → document.Integral →
      (∀ path, annotations = some path ∨ extra = some path →
        t.resolve path ≠ t.resolve output) →
      (mergeFiles proof annotations extra output).run.run t = (.ok merged, t') →
        ∃ content t'', Utf8.encode? (merged.write .indented) = some content ∧
          t'.bytesAt output = .ok content ∧
          (mergeFiles output annotations extra output).run.run t' = (.ok merged, t'') ∧
          t''.bytesAt output = .ok content ∧ ∀ q, t''.node? q = t'.node? q := by
  constructor
  · intro fields main further
    obtain ⟨hmain, hfurther⟩ := get?_withLines fields main further
    refine ⟨_, rfl, hmain, hfurther, others_withLines fields main further,
      fun main' further' => ?_⟩
    rw [merge, merge, withLines_withLines]
  · intro t proof annotations extra output document merged t' hdocument hintegral hne hrun
    obtain ⟨_, main, further, ⟨⟨text, htext, hread⟩, hmain, hfurther⟩, hmerge, hwrite⟩ :=
      mergeFiles_eq_ok.1 hrun
    obtain ⟨fields, rfl, rfl⟩ := merge_eq_ok.1 hmerge
    have hsame : document = .obj fields := by
      rw [run_readDocument, htext, ok_bind, hread] at hdocument
      cases hdocument
      rfl
    subst hsame
    -- what is written is read back, and the lines are those of before
    have hplain := plain_withLines (Json.plain_of_read (scalar_of_textAt htext) hread hintegral)
      hmain.scalar hfurther.scalar
    obtain ⟨_, content, rfl, hcontent, hreplaced⟩ := (writesAt_writeText t output _).done _ _ hwrite
    have hbytes := hreplaced.bytesAt
    obtain ⟨t'', hagain, hreplaced'⟩ := writeText_again hwrite hcontent
    refine ⟨content, t'', hcontent, hbytes, mergeFiles_eq_ok.2 ⟨_, main, further,
      ⟨document_of_mergeFiles hplain hbytes hcontent, ?_, ?_⟩, ?_, hagain⟩, hreplaced'.bytesAt, ?_⟩
    · exact hmain.of_replaced hreplaced fun path hpath => hne path (.inl hpath)
    · exact hfurther.of_replaced hreplaced fun path hpath => hne path (.inr hpath)
    · rw [merge, withLines_withLines]
    · exact hreplaced.node?_again hreplaced'

/-- A proof with lines merged in before and with half a surrogate pair. -/
def smallProof : Json :=
  .obj [("extra_annotations", .null), ("a", .arr [.int 20, .str [CodePoint.ofNat 0xD800, 'x']])]

theorem plain_smallProof : Json.Plain Text.Unpaired Numeral.maxDigits smallProof := by
  refine .obj (by decide) (by simp only [Text.Unpaired]; decide) ?_
  simp only [List.forall_mem_cons, List.not_mem_nil, false_imp_iff, implies_true, and_true]
  refine ⟨.null, .arr ?_⟩
  simp only [List.forall_mem_cons, List.not_mem_nil, false_imp_iff, implies_true, and_true]
  exact ⟨.int (by decide), .str (by simp only [Text.Unpaired]; decide)⟩

/-- A proof file and two files of lines, one of them empty. -/
def smallTree : FileTree :=
  ⟨[(["p"], .file ((Utf8.encode? (smallProof.write .oneLine)).getD [])),
    (["m"], .file ((Utf8.encode? "one\ntwo\n").getD [])), (["e"], .file [])]⟩

/-- Lines are merged into the proof file itself, and then once more. -/
theorem merge_stable_small :
    ∃ merged t', (mergeFiles ["p"] (some ["m"]) (some ["e"]) ["p"]).run.run smallTree =
        (.ok merged, t') ∧ t'.bytesAt ["p"] ≠ smallTree.bytesAt ["p"] ∧
      ∃ t'', (mergeFiles ["p"] (some ["m"]) (some ["e"]) ["p"]).run.run t' = (.ok merged, t'') ∧
        t''.bytesAt ["p"] = t'.bytesAt ["p"] := by
  have htext : smallTree.textAt ["p"] = .ok (smallProof.write .oneLine) := by decide +kernel
  have hdocument : (readDocument ["p"]).run.run smallTree = (.ok smallProof, smallTree) := by
    rw [run_readDocument, htext, ok_bind, Json.read_write plain_smallProof]
    rfl
  have hne : ∀ path, some (["m"] : Path) = some path ∨ some (["e"] : Path) = some path →
      smallTree.resolve path ≠ smallTree.resolve ["p"] := by
    rintro path (h | h) <;> cases h <;> decide +kernel
  have hdone : ((mergeFiles ["p"] (some ["m"]) (some ["e"]) ["p"]).run.run smallTree).2.bytesAt
      ["p"] ≠ smallTree.bytesAt ["p"] := by decide +kernel
  rcases hrun : (mergeFiles ["p"] (some ["m"]) (some ["e"]) ["p"]).run.run smallTree with
    ⟨f | merged, t'⟩
  · rw [hrun, (writesAt_mergeFiles ..).failed _ _ hrun] at hdone
    exact absurd rfl hdone
  · obtain ⟨content, t'', -, hbytes, hagain, hbytes', -⟩ := merge_stable.2 _ _ _ _ _ _ _ _
      hdocument plain_smallProof.integral hne hrun
    rw [hrun] at hdone
    exact ⟨merged, t', rfl, hdone, t'', hagain, hbytes'.trans hbytes.symm⟩

end Annotations

end StarkReplay
