import StarkReplay.Proofs.AtomicFiles
import StarkReplay.Proofs.ElementText
import StarkReplay.Proofs.JsonFields

/-!
Lines of annotation files. A file that holds texts with a line feed behind each is read as these
texts if none of them has a line end in it; a text that has one, such as a form feed or a line
separator, is cut there. The annotations of a merged proof are the lines that are read, in order.
-/
namespace StarkReplay

namespace Text

variable {p : CodePoint → Bool} {t w : Text}

/-- No piece of a text has a code point in it at which the text is cut. -/
theorem not_of_mem_pieces (h : w ∈ pieces p t) : ∀ c ∈ w, p c = false := by
  induction t generalizing w with
  | nil =>
    rw [pieces, List.mem_singleton] at h
    simp [h]
  | cons d t ih =>
    rw [pieces] at h
    split at h
    · rcases List.mem_cons.1 h with rfl | h
      · simp
      · exact ih h
    · rename_i hd
      have hd : p d = false := by simpa using hd
      split at h
      · simp_all
      · rename_i v ws heq
        rcases List.mem_cons.1 h with rfl | h
        · exact List.forall_mem_cons.2 ⟨hd, ih (heq ▸ List.mem_cons_self)⟩
        · exact ih (heq ▸ List.mem_cons_of_mem _ h)

/-- Cutting texts leaves them whole exactly if there is no place to cut. -/
theorem flatMap_pieces_eq_iff {ls : List Text} :
    ls.flatMap (pieces p) = ls ↔ ∀ l ∈ ls, ∀ c ∈ l, p c = false := by
  constructor
  · intro h l hl
    rw [← h, List.mem_flatMap] at hl
    obtain ⟨l', -, hpiece⟩ := hl
    exact not_of_mem_pieces hpiece
  · intro h
    induction ls with
    | nil => rfl
    | cons l ls ih =>
      obtain ⟨hl, hls⟩ := List.forall_mem_cons.1 h
      rw [List.flatMap_cons, pieces_of_none hl, ih hls, List.singleton_append]

/-- The text in front of a line feed is cut at each of its line ends. Without a carriage return in
it no two code points make one end. -/
theorem lines_append {l : Text} (h : ('\r' : CodePoint) ∉ l) (r : Text) :
    lines (l ++ ('\n' : CodePoint) :: r) = l.pieces isLineEnd ++ lines r := by
  have hfeed : isLineEnd '\n' = true := by decide
  have hne : ('\n' : CodePoint) ≠ '\r' := by decide
  induction l with
  | nil => cases r <;> simp [lines, pieces, hfeed, hne]
  | cons c l ih =>
    simp only [List.mem_cons, not_or] at h
    have hrest := ih h.2
    by_cases hc : isLineEnd c = true
    · cases l <;> simp_all [lines, pieces, Ne.symm h.1]
    · obtain ⟨w, ws, hpieces⟩ := List.exists_cons_of_ne_nil (pieces_ne_nil isLineEnd l)
      rw [hpieces] at hrest
      rw [List.cons_append, lines.eq_def, pieces, if_neg hc, hpieces]
      simp only [if_neg hc, hrest, List.cons_append]

theorem lines_flatMap {ls : List Text} (h : ∀ l ∈ ls, ('\r' : CodePoint) ∉ l) :
    lines (ls.flatMap fun l => l ++ [('\n' : CodePoint)]) = ls.flatMap (pieces isLineEnd) := by
  induction ls with
  | nil => rfl
  | cons l ls ih =>
    obtain ⟨hl, hls⟩ := List.forall_mem_cons.1 h
    rw [List.flatMap_cons, List.append_assoc, List.singleton_append, lines_append hl, ih hls,
      List.flatMap_cons]

theorem mem_unifyLineEnds {c : CodePoint} (h : c ∈ unifyLineEnds t) : c = '\n' ∨ c ∈ t := by
  fun_induction unifyLineEnds t <;> grind

theorem mem_of_mem_lines {c : CodePoint} (hw : w ∈ lines t) (h : c ∈ w) : c ∈ t := by
  fun_induction lines t generalizing w <;> grind

end Text

theorem Utf8.scalar_of_decodeWithin {fuel : Nat} {bytes : List UInt8} {t : Text}
    (h : decodeWithin fuel bytes = some t) : t.Scalar := by
  induction fuel generalizing bytes t with
  | zero =>
    cases bytes with
    | nil =>
      cases h
      exact nofun
    | cons b bytes => cases h
  | succ fuel ih =>
    cases bytes with
    | nil =>
      cases h
      exact nofun
    | cons b bytes =>
      simp only [decodeWithin] at h
      obtain ⟨⟨c, rest⟩, hone, h⟩ := Option.bind_eq_some_iff.1 h
      obtain ⟨s, hs, rfl⟩ := Option.map_eq_some_iff.1 h
      exact List.forall_mem_cons.2 ⟨(decodeOne?_sound hone).2, ih hs⟩

namespace FileTree

variable {t : FileTree} {path : Path} {text : Text} {content : List UInt8}

/-- A file with the bytes of a text holds the text, but for its line ends. -/
theorem textAt_of_bytesAt (h : t.bytesAt path = .ok content)
    (htext : Utf8.encode? text = some content) : t.textAt path = .ok text.unifyLineEnds := by
  rw [textAt, h, ok_bind, Utf8.decode?_of_encode? htext]

/-- What is read from a file has no surrogates. -/
theorem scalar_of_textAt (h : t.textAt path = .ok text) : text.Scalar := by
  obtain ⟨content, -, h⟩ := bind_eq_ok.1 h
  split at h
  · rename_i s hdecode
    cases h
    intro c hc
    rcases Text.mem_unifyLineEnds hc with rfl | hc
    · decide
    · exact Utf8.scalar_of_decodeWithin hdecode c hc
  · cases h

theorem LinesAt.scalar {source : Option Path} {ls : List Text} (h : LinesAt t source ls) :
    ∀ l ∈ ls, l.Scalar := by
  obtain ⟨path, text, -, htext, rfl⟩ := h
  intro l hl c hc
  exact scalar_of_textAt htext c (Text.mem_of_mem_lines hl hc)

theorem LinesAt.run_readLines {source : Option Path} {ls : List Text} (h : LinesAt t source ls) :
    (Annotations.readLines source).run.run t = (.ok (some ls), t) := by
  obtain ⟨path, text, rfl, htext, rfl⟩ := h
  have hrun : (Annotations.readLines (some path)).run.run t =
      (t.textAt path >>= fun text => .ok (some text.lines), t) := run_reading t path _
  rw [hrun, htext]
  rfl

theorem LinesAt.unique {source : Option Path} {ls ls' : List Text} (h : LinesAt t source ls)
    (h' : LinesAt t source ls') : ls = ls' := by
  cases h.run_readLines.symm.trans h'.run_readLines
  rfl

end FileTree

namespace Annotations

open FileTree

variable {t t' : FileTree} {path proof output : Path} {annotations extra : Option Path}
  {ls : List Text} {merged : Json}

/-- The file holds the lines, with a line feed behind each of them. -/
def HoldsLines (t : FileTree) (path : Path) (ls : List Text) : Prop :=
  ∃ content, t.bytesAt path = .ok content ∧
    Utf8.encode? (ls.flatMap fun l => l ++ [('\n' : CodePoint)]) = some content

theorem HoldsLines.textAt_eq (h : HoldsLines t path ls) (hls : ∀ l ∈ ls, ('\r' : CodePoint) ∉ l) :
    t.textAt path = .ok (ls.flatMap fun l => l ++ [('\n' : CodePoint)]) := by
  obtain ⟨content, hbytes, htext⟩ := h
  rw [textAt_of_bytesAt hbytes htext, Text.unifyLineEnds_eq_self]
  rintro c hc rfl
  obtain ⟨l, hl, hc⟩ := List.mem_flatMap.1 hc
  rcases List.mem_append.1 hc with hc | hc
  · exact hls l hl hc
  · revert hc
    decide

/-- The lines that are read are the pieces of those that the file holds. -/
theorem HoldsLines.linesAt (h : HoldsLines t path ls) (hls : ∀ l ∈ ls, ('\r' : CodePoint) ∉ l) :
    LinesAt t (some path) (ls.flatMap (Text.pieces Text.isLineEnd)) :=
  ⟨path, _, rfl, h.textAt_eq hls, (Text.lines_flatMap hls).symm⟩

theorem merge_eq_ok {document : Json} {main further : List Text} :
    merge document (some main) (some further) = .ok merged ↔
      ∃ fields, document = .obj fields ∧ merged = .obj (withLines fields main further) := by
  cases document <;> simp [merge, eq_comm]

theorem get?_withLines (fields : Json.Fields) (main further : List Text) :
    (withLines fields main further).get? mainName = some (lineArray main) ∧
      (withLines fields main further).get? extraName = some (lineArray further) := by
  have hne : extraName ≠ mainName := by decide
  simp [withLines, Json.Fields.get?_set, hne]

/-- A merged document is an object with the lines of both files. -/
theorem exists_lines_of_mergeFiles
    (h : (mergeFiles proof annotations extra output).run.run t = (.ok merged, t')) :
    ∃ (fields : Json.Fields) (main further : List Text), LinesAt t annotations main ∧
      LinesAt t extra further ∧ merged = .obj fields ∧
        fields.get? mainName = some (lineArray main) ∧
        fields.get? extraName = some (lineArray further) := by
  obtain ⟨_, _, ⟨document, main, further, hsources, hmerge, -⟩, -⟩ :=
    (writesAt_mergeFiles t proof annotations extra output).done _ _ h
  obtain ⟨fields, -, rfl⟩ := merge_eq_ok.1 hmerge
  exact ⟨_, main, further, hsources.main, hsources.further, rfl,
    get?_withLines fields main further⟩

/-- Lines without line feeds and carriage returns are read from a file as they stand exactly if no
other line end is in them, and are cut at those that are. A merged proof has the lines that are
read. -/
theorem lines_kept_iff (h : HoldsLines t path ls)
    (hls : ∀ l ∈ ls, ('\n' : CodePoint) ∉ l ∧ ('\r' : CodePoint) ∉ l) :
    (readLines (some path)).run.run t =
        (.ok (some (ls.flatMap (Text.pieces Text.isLineEnd))), t) ∧
      ((readLines (some path)).run.run t = (.ok (some ls), t) ↔
        ∀ l ∈ ls, ∀ c ∈ l, Text.isLineEnd c = false) ∧
      ∀ proof other output merged t',
        ((mergeFiles proof (some path) other output).run.run t = (.ok merged, t') →
          ∃ fields : Json.Fields, merged = .obj fields ∧ fields.get? mainName =
            some (lineArray (ls.flatMap (Text.pieces Text.isLineEnd)))) ∧
        ((mergeFiles proof other (some path) output).run.run t = (.ok merged, t') →
          ∃ fields : Json.Fields, merged = .obj fields ∧ fields.get? extraName =
            some (lineArray (ls.flatMap (Text.pieces Text.isLineEnd)))) := by
  have hreturn : ∀ l ∈ ls, ('\r' : CodePoint) ∉ l := fun l hl => (hls l hl).2
  have hlines := h.linesAt hreturn
  have hrun := hlines.run_readLines
  refine ⟨hrun, ?_, fun proof other output merged t' => ⟨fun hmerge => ?_, fun hmerge => ?_⟩⟩
  · rw [hrun, ← Text.flatMap_pieces_eq_iff, Prod.mk.injEq, Except.ok.injEq, Option.some.injEq,
      and_iff_left rfl]
  · obtain ⟨fields, main, further, hmain, -, hobj, hget, -⟩ := exists_lines_of_mergeFiles hmerge
    exact ⟨fields, hobj, hlines.unique hmain ▸ hget⟩
  · obtain ⟨fields, main, further, -, hfurther, hobj, -, hget⟩ := exists_lines_of_mergeFiles hmerge
    exact ⟨fields, hobj, hlines.unique hfurther ▸ hget⟩

/-- A file with blanks at the end of a line and an empty line, and one with a form feed in a
line. -/
def linesTree : FileTree :=
  ⟨[(["a"], .file ((Utf8.encode? "first  \n\nthird\n").getD [])),
    (["f"], .file ((Utf8.encode? "one\x0ctwo\n").getD []))]⟩

theorem lines_kept_iff_small :
    HoldsLines linesTree ["a"] ["first  ", "", "third"] ∧
      (∀ l ∈ (["first  ", "", "third"] : List Text), ('\n' : CodePoint) ∉ l ∧
        ('\r' : CodePoint) ∉ l) ∧
        (readLines (some ["a"])).run.run linesTree =
          (.ok (some ["first  ", "", "third"]), linesTree) := by
  have hholds : HoldsLines linesTree ["a"] ["first  ", "", "third"] :=
    ⟨(Utf8.encode? "first  \n\nthird\n").getD [], by decide +kernel, by decide +kernel⟩
  have hls : ∀ l ∈ (["first  ", "", "third"] : List Text), ('\n' : CodePoint) ∉ l ∧
      ('\r' : CodePoint) ∉ l := by decide
  exact ⟨hholds, hls, (lines_kept_iff hholds hls).2.1.2 (by decide)⟩

/-- A line is cut at a form feed. -/
theorem form_feed_cuts_line :
    HoldsLines linesTree ["f"] ["one\x0ctwo"] ∧
      (∀ l ∈ (["one\x0ctwo"] : List Text), ('\n' : CodePoint) ∉ l ∧ ('\r' : CodePoint) ∉ l) ∧
        (readLines (some ["f"])).run.run linesTree = (.ok (some ["one", "two"]), linesTree) ∧
          (readLines (some ["f"])).run.run linesTree ≠
            (.ok (some ["one\x0ctwo"]), linesTree) := by
  have hread : ((readLines (some ["f"])).run.run linesTree).1 = .ok (some ["one", "two"]) := by
    decide +kernel
  refine ⟨⟨(Utf8.encode? "one\x0ctwo\n").getD [], by decide +kernel, by decide +kernel⟩, by decide,
    ?_, ?_⟩
  · exact Prod.ext hread rfl
  · intro heq
    rw [heq] at hread
    revert hread
    decide

end Annotations

end StarkReplay
