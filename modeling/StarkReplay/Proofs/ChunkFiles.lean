import StarkReplay.Proofs.Chunks
import StarkReplay.Proofs.Directories
import StarkReplay.Proofs.ElementText
import StarkReplay.Proofs.FeltText
import StarkReplay.Proofs.FileWriting
import StarkReplay.Split.Files

/-!
Chunks in files. The names of the streams are plain, distinct and short, so in an empty directory
the files can be written one after another; what is read back from them are the chunks.
-/
namespace StarkReplay

open FileTree
open FileName (above IsPlain)

/-! ## Names of streams -/

namespace Stream

theorem name_step (n : Nat) : (step n).name = Text.ofString "step" ++ Numeral.decimal n := by
  simp [name, Text.concat]

theorem name_injective : Function.Injective name := by
  have hstep : ∀ (n : Nat) (t : Text), t.head? ≠ some ('s' : CodePoint) → (step n).name ≠ t := by
    rintro n t ht rfl
    exact ht rfl
  intro a b h
  cases a with
  | step n =>
    cases b with
    | step m =>
      rw [name_step, name_step] at h
      have hnumbers := congrArg Numeral.ofDecimal (List.append_cancel_left h)
      rw [Numeral.ofDecimal_decimal, Numeral.ofDecimal_decimal] at hnumbers
      rw [hnumbers]
    | _ => exact absurd h (hstep n _ (by decide))
  | _ =>
    cases b with
    | step m => exact absurd h.symm (hstep m _ (by decide))
    | _ => revert h; decide

theorem isPlain_name (s : Stream) : IsPlain s.name := by
  cases s with
  | step n =>
    have hword : IsPlain (Text.ofString "step") := by decide
    rw [name_step]
    refine List.forall_mem_append.2 ⟨hword, fun c hc => ?_⟩
    have hdigit := Numeral.isDecimalDigit_iff.1 (Numeral.isDecimalDigit_of_mem_decimal hc)
    omega
  | _ => decide

theorem name_ne_above (s : Stream) : s.name ≠ above := by
  cases s with
  | step n =>
    rw [name_step]
    intro h
    cases h
  | _ => decide

theorem length_name_step_le {n : Nat} (h : n < 1000) : (step n).name.length ≤ 7 := by
  have hdigits := (Numeral.length_digits_le_iff (show 2 ≤ 10 by omega) (show 1 ≤ 3 by omega)).2 h
  rw [name_step, List.length_append, Numeral.decimal, List.length_map]
  exact Nat.add_le_add_left hdigits 4

theorem above_not_mem_append {p : Path} (h : above ∉ p) (s : Stream) : above ∉ p ++ [s.name] := by
  rw [List.mem_append, List.mem_singleton, not_or]
  exact ⟨h, s.name_ne_above.symm⟩

end Stream

namespace Split

theorem map_fst_numbered (n : Nat) (cs : List (List Int)) :
    (Chunks.numbered n cs).map Prod.fst = (List.range' n cs.length).map Stream.step := by
  induction cs generalizing n with
  | nil => rfl
  | cons c cs ih => simp [Chunks.numbered, ih, List.range'_succ]

theorem map_fst_streams (c : Chunks) : c.streams.map Prod.fst =
    .initial :: ((List.range' 1 c.steps.length).map Stream.step ++ [.final]) := by
  simp [Chunks.streams, map_fst_numbered]

theorem nodup_names (c : Chunks) : (c.streams.map fun s => s.1.name).Nodup := by
  have hstreams : (c.streams.map Prod.fst).Nodup := by
    have hrange : (List.range' 1 c.steps.length).Nodup := List.nodup_range'
    have hsteps := hrange.map fun _ _ h => Stream.step.inj h
    rw [map_fst_streams, List.nodup_cons, List.nodup_append']
    refine ⟨by simp, hsteps, List.nodup_singleton _, fun stream hstep hfinal => ?_⟩
    obtain ⟨n, -, rfl⟩ := List.mem_map.1 hstep
    cases List.mem_singleton.1 hfinal
  have hnames := hstreams.map Stream.name_injective
  rwa [List.map_map] at hnames

theorem length_name_le {c : Chunks} (hsteps : c.steps.length < 999) :
    ∀ s ∈ c.streams, s.1.name.length ≤ 7 := by
  intro s hs
  have hstream := List.mem_map_of_mem (f := Prod.fst) hs
  rw [map_fst_streams, List.mem_cons, List.mem_append, List.mem_singleton] at hstream
  rcases hstream with hinitial | hstep | hfinal
  · rw [hinitial]
    decide
  · obtain ⟨n, hn, hstep⟩ := List.mem_map.1 hstep
    have hrange := List.mem_range'_1.1 hn
    rw [← hstep]
    exact Stream.length_name_step_le (by omega)
  · rw [hfinal]
    decide

/-! ## Writing -/

variable {t : FileTree} {p : Path}

/-- The files can be written into the directory of the path one after another. -/
structure Writable (t : FileTree) (p : Path) (files : List (Stream × List Int)) : Prop where
  wellFormed : t.WellFormed
  down : above ∉ p
  allowed : Allowed p
  directory : t.node? (place p) = some .directory
  nodup : (files.map fun f => f.1.name).Nodup
  short : ∀ f ∈ files, f.1.name.length ≤ 7
  free : ∀ f ∈ files, t.node? (place p ++ [f.1.name]) = none
  temporaryFree : ∀ f ∈ files, t.node? (place p ++ [temporaryName f.1.name 0]) = none

/-- The files are written, and nothing else changes. -/
structure Written (t t' : FileTree) (p : Path) (files : List (Stream × List Int)) : Prop where
  wellFormed : t'.WellFormed
  contents : ∀ f ∈ files, ∃ content, Utf8.encode? (Flat.text f.2) = some content ∧
    t'.node? (place p ++ [f.1.name]) = some (.file content)
  others : ∀ q, (∀ f ∈ files, q ≠ place p ++ [f.1.name]) → t'.node? q = t.node? q

namespace Writable

variable {f : Stream × List Int} {files : List (Stream × List Int)}

theorem newFile (h : Writable t p (f :: files)) : NewFile t p f.1.name where
  down := f.1.above_not_mem_append h.down
  allowed := h.allowed
  directory := h.directory
  plain := f.1.isPlain_name
  short := (h.short f List.mem_cons_self).trans (by omega)
  free := h.free f List.mem_cons_self
  temporaryFree := h.temporaryFree f List.mem_cons_self

/-- After one file the others can still be written. -/
theorem tail (h : Writable t p (f :: files)) (content : List UInt8) :
    Writable (t.withFile p f.1.name content) p files := by
  have hnode := h.newFile.node?_withFile content
  have hnodup := List.nodup_cons.1 h.nodup
  refine ⟨h.newFile.wellFormed_withFile h.wellFormed content, h.down, h.allowed, ?_, hnodup.2,
    fun g hg => h.short g (List.mem_cons_of_mem _ hg), fun g hg => ?_, fun g hg => ?_⟩
  · rw [hnode, if_neg (by simp), h.directory]
  · rw [hnode, if_neg, h.free g (List.mem_cons_of_mem _ hg)]
    intro heq
    have hname := List.singleton_inj.1 (List.append_cancel_left heq)
    exact hnodup.1 (List.mem_map.2 ⟨g, hg, hname.symm⟩)
  · rw [hnode, if_neg, h.temporaryFree g (List.mem_cons_of_mem _ hg)]
    intro heq
    -- a temporary name is longer than the name of any of the files
    have hlength := congrArg List.length (List.singleton_inj.1 (List.append_cancel_left heq))
    have hshort := h.short f List.mem_cons_self
    rw [length_temporaryName] at hlength
    omega

theorem run_writeFiles (h : Writable t p files) (hshort : pathLength p + 22 < pathBound) :
    ∃ paths t', (writeFiles p files).run.run t = (.ok paths, t') ∧ Written t t' p files := by
  induction files generalizing t with
  | nil => exact ⟨[], t, rfl, h.wellFormed, nofun, fun _ _ => rfl⟩
  | cons f files ih =>
    obtain ⟨content, hcontent, -⟩ := Flat.exists_encode?_text f.2
    have hlength := h.short f List.mem_cons_self
    have hfirst := h.newFile.writeText_of_short h.wellFormed hcontent (by omega)
    obtain ⟨paths, t', hrest, hwritten⟩ := ih (h.tail content)
    have hnode := h.newFile.node?_withFile content
    refine ⟨(p ++ [f.1.name]) :: paths, t', ?_, hwritten.wellFormed, ?_, fun q hq => ?_⟩
    · obtain ⟨stream, elements⟩ := f
      rw [writeFiles, run_bind_of_ok hfirst, run_bind_of_ok hrest]
      rfl
    · refine List.forall_mem_cons.2 ⟨⟨content, hcontent, ?_⟩, hwritten.contents⟩
      rw [hwritten.others, hnode, if_pos rfl]
      intro g hg heq
      have hname := List.singleton_inj.1 (List.append_cancel_left heq)
      exact (List.nodup_cons.1 h.nodup).1 (List.mem_map.2 ⟨g, hg, hname.symm⟩)
    · obtain ⟨hne, hothers⟩ := List.forall_mem_cons.1 hq
      rw [hwritten.others q hothers, hnode, if_neg (Ne.symm hne)]

/-- Too long a path for the first temporary file leaves nothing behind. -/
theorem run_writeFiles_of_long {elements : List Int}
    (h : Writable t p ((.initial, elements) :: files)) (hlong : pathBound ≤ pathLength p + 22) :
    (writeFiles p ((.initial, elements) :: files)).run.run t = (.error .nameTooLong, t) := by
  have hlength : Stream.initial.name.length = 7 := by decide
  have hfirst := h.newFile.writeText_of_long (Flat.text elements) (by simp only [hlength]; omega)
  rw [writeFiles, run_bind, hfirst]

end Writable

/-! ## Reading back -/

/-- The elements in a file, decimal numerals between blanks. -/
def elementsAt (t : FileTree) (p : Path) : Except Failure (List Int) := do
  let text ← t.textAt p
  text.words.mapM fun word => (Numeral.readInteger word).mapError .longNumeral

/-- The chunks in the files of a directory with so many steps. -/
def chunksAt (t : FileTree) (directory : Path) (count : Nat) : Except Failure Chunks := do
  let initial ← elementsAt t (directory ++ [Stream.initial.name])
  let steps ← (List.range' 1 count).mapM fun n =>
    elementsAt t (directory ++ [(Stream.step n).name])
  let final ← elementsAt t (directory ++ [Stream.final.name])
  return { initial, steps, final }

theorem readInteger_of_isFelt {v : Int} (h : IsFelt v) :
    Numeral.readInteger (Numeral.integer v) = .ok v :=
  Numeral.readInteger_integer (Felt.length_decimal_le h)

theorem mapM_readInteger {elements : List Int} (h : Felts elements) :
    (elements.map Numeral.integer).mapM
      (fun word => (Numeral.readInteger word).mapError Failure.longNumeral) = .ok elements := by
  induction elements with
  | nil => rfl
  | cons v elements ih =>
    obtain ⟨hv, helements⟩ := felts_cons.1 h
    rw [List.map_cons, List.mapM_cons, readInteger_of_isFelt hv, mapError_ok, ok_bind,
      ih helements]
    rfl

variable {t' : FileTree} {files : List (Stream × List Int)}

theorem Written.elementsAt_eq (h : Written t t' p files) (hdown : above ∉ p) (hallowed : Allowed p)
    (hshort : pathLength p + 22 < pathBound) {f : Stream × List Int} (hf : f ∈ files)
    (hlength : f.1.name.length ≤ 7) (hfelts : Felts f.2) :
    elementsAt t' (p ++ [f.1.name]) = .ok f.2 := by
  have hname := f.1.isPlain_name
  obtain ⟨content, hcontent, hnode⟩ := h.contents f hf
  have hlook : t'.lookUp (p ++ [f.1.name]) = .ok (.file content) := by
    rw [h.wellFormed.lookUp_eq_ok (f.1.above_not_mem_append hdown), place_append hname]
    exact ⟨allowed_child hallowed hname (by omega) (by omega), hnode⟩
  have htext : t'.textAt (p ++ [f.1.name]) = .ok (Flat.text f.2) := by
    rw [textAt, bytesAt, hlook, ok_bind]
    dsimp only
    rw [ok_bind, Utf8.decode?_of_encode? hcontent]
    dsimp only
    rw [Flat.unifyLineEnds_text]
  rw [elementsAt, htext, ok_bind, Flat.words_text, mapM_readInteger hfelts]

theorem mapM_numbered (read : Stream → Except Failure (List Int)) {n : Nat} {cs : List (List Int)}
    (h : ∀ s ∈ Chunks.numbered n cs, read s.1 = .ok s.2) :
    ((List.range' n cs.length).mapM fun k => read (.step k)) = .ok cs := by
  induction cs generalizing n with
  | nil => rfl
  | cons c cs ih =>
    obtain ⟨hfirst, hrest⟩ := List.forall_mem_cons.1 h
    rw [List.length_cons, List.range'_succ, List.mapM_cons, hfirst, ok_bind, ih hrest]
    rfl

/-- The chunks come back from their files. -/
theorem Written.chunksAt_eq {c : Chunks} (h : Written t t' p c.streams) (hdown : above ∉ p)
    (hallowed : Allowed p) (hshort : pathLength p + 22 < pathBound)
    (hlength : ∀ s ∈ c.streams, s.1.name.length ≤ 7) (hfelts : ∀ s ∈ c.streams, Felts s.2) :
    chunksAt t' p c.steps.length = .ok c := by
  have hfiles : ∀ s ∈ c.streams, elementsAt t' (p ++ [s.1.name]) = .ok s.2 := fun s hs =>
    h.elementsAt_eq hdown hallowed hshort hs (hlength s hs) (hfelts s hs)
  rw [Chunks.streams, List.cons_append, List.forall_mem_cons, List.forall_mem_append,
    List.forall_mem_singleton] at hfiles
  obtain ⟨hinitial, hsteps, hfinal⟩ := hfiles
  have hread := mapM_numbered (fun s => elementsAt t' (p ++ [s.name])) hsteps
  rw [chunksAt, hinitial, ok_bind, hread, ok_bind, hfinal]
  rfl

/-! ## The directory to write into -/

/-- If the directory of a path is there and empty or can be made, it is empty then. -/
theorem makes_prepareDirectory (hw : t.WellFormed) (h : above ∉ p)
    {outcome : Except Failure Unit} (hrun : (prepareDirectory p).run.run t = (outcome, t')) :
    Makes t p outcome t' ∧ (outcome = .ok () → ∀ q ≠ [], t'.node? (place p ++ q) = none) := by
  rw [prepareDirectory, run_bind, run_get] at hrun
  dsimp only at hrun
  split at hrun
  · rw [run_bind, run_lift] at hrun
    rcases hfound : t.childrenAt p with f | found
    · rw [hfound] at hrun
      cases hrun
      exact ⟨⟨hw, .refl t _, nofun, fun _ _ => .inl rfl⟩, nofun⟩
    · obtain ⟨hlook, rfl⟩ := hw.childrenAt_eq_ok h hfound
      rw [hfound] at hrun
      dsimp only at hrun
      split at hrun
      · rename_i hempty
        cases hrun
        refine ⟨⟨hw, .refl t _, fun _ => hlook, nofun⟩, fun _ q hq => ?_⟩
        exact hw.empty_of_children (List.isEmpty_iff.1 hempty) hq
      · cases hrun
        exact ⟨⟨hw, .refl t _, nofun, fun _ _ => .inl rfl⟩, nofun⟩
  · cases hrun
    exact ⟨⟨hw, .refl t _, nofun, fun _ _ => .inl rfl⟩, nofun⟩
  · rename_i hlook
    have hmakes := hw.makes_directories h hrun
    refine ⟨hmakes, fun hok q hq => ?_⟩
    have hthere := (hmakes.wellFormed.lookUp_eq_ok h).1 (hmakes.made hok)
    have hmissing : t.node? (place p) = none := by
      cases hn : t.node? (place p) with
      | none => rfl
      | some n =>
        rw [(hw.lookUp_eq_ok h).2 ⟨hthere.1, hn⟩] at hlook
        cases hlook
    rcases hmakes.adds (place p ++ q) with hsame | ⟨-, -, hle⟩
    · rw [hsame]
      exact hw.nothing_below hmissing q
    · have hlength := hle.length_le
      have hpos := List.length_pos_iff.2 hq
      rw [List.length_append] at hlength
      omega

end Split

end StarkReplay
