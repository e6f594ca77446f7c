import Mathlib.Data.List.GetD
import StarkReplay.FileTree.Write
import StarkReplay.Proofs.Numerals
import StarkReplay.Proofs.Places

/-!
Writing a new file. Its temporary file has a longer name than the file itself, so the only thing
that can keep the file from being written is that the path of the temporary one is too long, and
then nothing is left behind.
-/
namespace StarkReplay.FileTree

open FileName (above IsPlain isEncodable isTooLong)

variable {p : Path} {name : Text}

theorem collapse_eq_self (h : above ∉ p) : collapse p = p := by
  have hfold : ∀ done : Path, p.foldl
      (fun done name => if name = above then done.dropLast else done ++ [name]) done =
        done ++ p := by
    induction p with
    | nil => simp
    | cons name p ih =>
      intro done
      obtain ⟨hname, hp⟩ := not_or.1 (mt List.mem_cons.2 h)
      rw [List.foldl_cons, if_neg (Ne.symm hname), ih hp, List.append_assoc]
      rfl
  exact hfold []

/-! ## Allowed paths -/

theorem place_append (hname : IsPlain name) : place (p ++ [name]) = place p ++ [name] := by
  rw [place, List.map_append, List.map_singleton, hname.stored, place]

theorem pathLength_child (hname : IsPlain name) :
    pathLength (p ++ [name]) = pathLength p + name.length + 1 := by
  rw [pathLength_append]
  simp only [pathLength, List.foldr_cons, List.foldr_nil, hname.length_bytes]
  omega

/-- A plain name in an allowed directory is allowed, unless it makes the path too long. -/
theorem checkPath_child (h : Allowed p) (hname : IsPlain name) : checkPath (p ++ [name]) =
    if pathBound ≤ pathLength p + name.length + 1 then .error .nameTooLong else .ok () := by
  obtain ⟨hencodable, hnul, -⟩ := checkPath_eq_ok.1 h.checked
  rw [checkPath_of_names, pathLength_child hname]
  · exact List.forall_mem_append.2 ⟨hencodable, List.forall_mem_singleton.2 hname.isEncodable⟩
  · exact List.forall_mem_append.2 ⟨hnul, List.forall_mem_singleton.2 hname.zero_not_mem⟩

theorem allowed_child (h : Allowed p) (hname : IsPlain name) (hshort : name.length ≤ 255)
    (hbound : pathLength p + name.length + 1 < pathBound) : Allowed (p ++ [name]) := by
  have hname' : isTooLong name = false := by
    rw [isTooLong, hname.length_bytes, FileName.maxLength, decide_eq_false_iff_not]
    omega
  constructor
  · rw [checkPath_child h hname, if_neg (by omega)]
  · exact List.forall_mem_append.2 ⟨h.short, List.forall_mem_singleton.2 hname'⟩

/-! ## Temporary names -/

theorem isPlain_label (k : Nat) : IsPlain (label k) := by
  have hall : IsPlain labelCharacters := by decide
  intro c hc
  obtain ⟨i, -, rfl⟩ := List.mem_map.1 hc
  have hplace : k / Nat.pow 37 i % 37 < labelCharacters.length := Nat.mod_lt _ (by decide)
  rw [List.getD_eq_getElem _ _ hplace]
  exact hall _ (List.getElem_mem hplace)

theorem length_label (k : Nat) : (label k).length = 8 := by simp [label]

/-- Numbers with the same lowest digits. -/
theorem mod_pow_eq_of_digits {b j k w : Nat} (h : ∀ i < w, j / b ^ i % b = k / b ^ i % b) :
    j % b ^ w = k % b ^ w := by
  induction w with
  | zero => simp [Nat.mod_one]
  | succ w ih =>
    rw [Nat.mod_pow_succ, Nat.mod_pow_succ, ih fun i hi => h i (by omega), h w (by omega)]

theorem label_injOn {j k : Nat} (hj : j < labels) (hk : k < labels) (h : label j = label k) :
    j = k := by
  have hnodup : labelCharacters.Nodup := by decide
  rw [← Nat.mod_eq_of_lt hj, ← Nat.mod_eq_of_lt hk]
  refine mod_pow_eq_of_digits fun i hi => ?_
  have hsame := List.map_inj_left.1 h i (List.mem_range.2 hi)
  have hlt (n : Nat) : n % 37 < labelCharacters.length := Nat.mod_lt _ (by decide)
  rw [List.getD_eq_getElem _ _ (hlt _), List.getD_eq_getElem _ _ (hlt _)] at hsame
  exact (hnodup.getElem_inj_iff).1 hsame

theorem isPlain_temporaryName (hname : IsPlain name) (k : Nat) :
    IsPlain (temporaryName name k) := by
  have hdot : IsPlain (Text.ofString ".") := by decide
  have hend : IsPlain (Text.ofString ".tmp") := by decide
  have hlabel := isPlain_label k
  intro c hc
  simp only [temporaryName, Text.concat, List.flatten_cons, List.flatten_nil, List.mem_append,
    List.not_mem_nil, or_false] at hc
  rcases hc with hc | hc | hc | hc | hc
  · exact hdot c hc
  · exact hname c hc
  · exact hdot c hc
  · exact hlabel c hc
  · exact hend c hc

theorem length_temporaryName (name : Text) (k : Nat) :
    (temporaryName name k).length = name.length + 14 := by
  have hdot : (Text.ofString ".").length = 1 := by decide
  have hend : (Text.ofString ".tmp").length = 4 := by decide
  simp only [temporaryName, Text.concat, List.flatten_cons, List.flatten_nil, List.length_append,
    length_label, hdot, hend, List.length_nil]
  omega

variable {t : FileTree}

/-- A name for a new file, of which neither the file nor a temporary one is in the directory. -/
structure NewFile (t : FileTree) (p : Path) (name : Text) : Prop where
  down : above ∉ p ++ [name]
  allowed : Allowed p
  directory : t.node? (place p) = some .directory
  plain : IsPlain name
  short : name.length ≤ 200
  free : t.node? (place p ++ [name]) = none
  temporaryFree : t.node? (place p ++ [temporaryName name 0]) = none

theorem name_ne_temporary : place p ++ [name] ≠ place p ++ [temporaryName name 0] := by
  intro heq
  have hlength := congrArg List.length (List.singleton_inj.1 (List.append_cancel_left heq))
  rw [length_temporaryName] at hlength
  omega

/-- The tree with a filled temporary file. -/
def filled (t : FileTree) (temporary : Place) (content : List UInt8) : FileTree :=
  (t.put temporary (.file [])).put temporary (.file content)

/-- The tree with a new file, after its temporary file has taken its place. -/
def withFile (t : FileTree) (p : Path) (name : Text) (content : List UInt8) : FileTree :=
  ((t.filled (place p ++ [temporaryName name 0]) content).put (place p ++ [name])
    (.file content)).erase (place p ++ [temporaryName name 0])

theorem node?_filled {temporary : Place} (h : temporary ≠ []) (content : List UInt8) (q : Place) :
    (t.filled temporary content).node? q =
      if temporary = q then some (.file content) else t.node? q := by
  rw [filled, node?_put _ _ _ h, node?_put _ _ _ h]
  split <;> rfl

theorem run_writeText (target : Path) (text : Text) (t : FileTree) :
    (writeText target text).run.run t =
      ((t.writeHistory target text).2, (t.writeHistory target text).1.getLastD t) := rfl

namespace NewFile

variable (h : NewFile t p name)
include h

theorem temporaryPlace_eq :
    t.temporaryPlace (p ++ [name]) = place p ++ [temporaryName name 0] := by
  have hp : above ∉ p := fun hmem => h.down (List.mem_append_left _ hmem)
  have hplace : temporaryAt (p ++ [name]) 0 = place p ++ [temporaryName name 0] := by
    rw [temporaryAt, List.dropLast_concat, List.getLastD_concat, collapse_eq_self hp]
    exact place_append (isPlain_temporaryName h.plain 0)
  have hcount : min (t.entries.length + 1) labels = min t.entries.length (labels - 1) + 1 := by
    have hlabels : 0 < labels := by decide
    omega
  have hfirst : (List.range (min (t.entries.length + 1) labels)).find?
      (fun k => (t.node? (temporaryAt (p ++ [name]) k)).isNone) = some 0 := by
    rw [hcount, List.range_succ_eq_map]
    exact List.find?_cons_of_pos (by rw [hplace, h.temporaryFree]; rfl)
  rw [temporaryPlace, hfirst]
  exact hplace

theorem above_not_mem_temporary : above ∉ place p ++ [temporaryName name 0] := by
  intro hmem
  rcases List.mem_append.1 hmem with hmem | hmem
  · exact above_not_mem_place (fun hp => h.down (List.mem_append_left _ hp)) hmem
  · have hlength := congrArg List.length (List.mem_singleton.1 hmem)
    rw [length_temporaryName] at hlength
    exact absurd hlength (by simp [above, Text.ofString])

/-- Too long a path for the temporary file leaves the tree as it is. -/
theorem writeText_of_long (text : Text)
    (hlong : pathBound ≤ pathLength p + name.length + 15) :
    (writeText (p ++ [name]) text).run.run t = (.error .nameTooLong, t) := by
  have hcheck : checkPath (place p ++ [temporaryName name 0]) = .error .nameTooLong := by
    rw [checkPath_child (allowed_place h.allowed) (isPlain_temporaryName h.plain 0),
      pathLength_place, length_temporaryName, if_pos (by omega)]
  have hcreate : (WriteStep.create (place p ++ [temporaryName name 0])).run t =
      .error .nameTooLong := by
    rw [WriteStep.run, resolve, hcheck]
    rfl
  rw [run_writeText, writeHistory, h.temporaryPlace_eq, hcreate]
  rfl

theorem run_create (hw : t.WellFormed) (hshort : pathLength p + name.length + 15 < pathBound) :
    (WriteStep.create (place p ++ [temporaryName name 0])).run t =
      .ok (t.put (place p ++ [temporaryName name 0]) (.file [])) := by
  have hallowed : Allowed (place p ++ [temporaryName name 0]) := by
    have hlength := h.short
    refine allowed_child (allowed_place h.allowed) (isPlain_temporaryName h.plain 0) ?_ ?_ <;>
      rw [length_temporaryName]
    · omega
    · rw [pathLength_place]
      omega
  have hresolve : t.resolve (place p ++ [temporaryName name 0]) =
      .ok (place (place p ++ [temporaryName name 0])) := by
    rw [hw.resolve_eq_ok h.above_not_mem_temporary, List.dropLast_concat, place_place]
    exact ⟨hallowed, rfl, h.directory⟩
  rw [WriteStep.run, hresolve, ok_bind, h.temporaryFree]

theorem wellFormed_filled (hw : t.WellFormed) (content : List UInt8) :
    (t.filled (place p ++ [temporaryName name 0]) content).WellFormed := by
  refine hw.of_adds h.temporaryFree ?_ (node?_filled (by simp) content)
  rw [List.dropLast_concat, h.directory]

/-- The filled temporary file takes the place of the new one. -/
theorem run_replace (hw : t.WellFormed) (content : List UInt8)
    (hshort : pathLength p + name.length + 15 < pathBound) :
    (WriteStep.replace (place p ++ [temporaryName name 0]) (p ++ [name])).run
        (t.filled (place p ++ [temporaryName name 0]) content) =
      .ok (t.withFile p name content) := by
  have hnode := fun q => node?_filled (t := t) (show place p ++ [temporaryName name 0] ≠ [] by simp)
    content q
  have hallowed : Allowed (p ++ [name]) := by
    have hlength := h.short
    exact allowed_child h.allowed h.plain (by omega) (by omega)
  have hresolve : (t.filled (place p ++ [temporaryName name 0]) content).resolve (p ++ [name]) =
      .ok (place p ++ [name]) := by
    rw [(h.wellFormed_filled hw content).resolve_eq_ok h.down, List.dropLast_concat, hnode,
      if_neg (by simp)]
    exact ⟨hallowed, (place_append h.plain).symm, h.directory⟩
  have hlast : (p ++ [name]).getLast? ≠ some above := by
    rw [List.getLast?_concat]
    intro heq
    exact h.down (List.mem_append_right _ (List.mem_singleton.2 (Option.some.inj heq).symm))
  rw [WriteStep.run, hresolve, ok_bind, if_neg hlast, hnode, hnode, if_pos rfl,
    if_neg name_ne_temporary.symm, h.free]
  rfl

theorem writeText_of_short (hw : t.WellFormed) {text : Text} {content : List UInt8}
    (htext : Utf8.encode? text = some content)
    (hshort : pathLength p + name.length + 15 < pathBound) :
    (writeText (p ++ [name]) text).run.run t = (.ok (), t.withFile p name content) := by
  have hfill : (WriteStep.fill (place p ++ [temporaryName name 0]) text).run
      (t.put (place p ++ [temporaryName name 0]) (.file [])) =
      .ok (t.filled (place p ++ [temporaryName name 0]) content) := by
    rw [WriteStep.run, htext]
    rfl
  rw [run_writeText, writeHistory, h.temporaryPlace_eq, h.run_create hw hshort]
  simp only [runSteps, hfill, h.run_replace hw content hshort]
  rfl

theorem node?_withFile (content : List UInt8) (q : Place) : (t.withFile p name content).node? q =
    if place p ++ [name] = q then some (.file content) else t.node? q := by
  have hne : ∀ n : Text, place p ++ [n] ≠ [] := by simp
  rw [withFile, node?_erase (hne _), node?_put _ _ _ (hne _), node?_filled (hne _)]
  by_cases htemporary : q = place p ++ [temporaryName name 0]
  · subst htemporary
    rw [if_pos rfl, if_neg name_ne_temporary, h.temporaryFree]
  · rw [if_neg htemporary, if_neg (Ne.symm htemporary)]

theorem wellFormed_withFile (hw : t.WellFormed) (content : List UInt8) :
    (t.withFile p name content).WellFormed :=
  hw.of_adds h.free (by rw [List.dropLast_concat, h.directory]) (h.node?_withFile content)

end NewFile

end StarkReplay.FileTree
