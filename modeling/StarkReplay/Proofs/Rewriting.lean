import StarkReplay.Proofs.AtomicFiles

/-!
Files that are written once more. The names for temporary files beside a target are all different,
so if the tree has fewer entries than there are names one of them is free; the first free one is
taken. Replacing the target makes none of them free and takes none; so where a text was written,
another one can be written.
-/
namespace StarkReplay

namespace FileName

theorem IsPlain.eq_of_bytes {name name' : Text} (h : IsPlain name) (h' : IsPlain name')
    (heq : bytes name = bytes name') : name = name' := by
  induction name generalizing name' with
  | nil =>
    have hlength := h'.length_bytes
    rw [← heq] at hlength
    exact (List.length_eq_zero_iff.1 hlength.symm).symm
  | cons c name ih =>
    cases name' with
    | nil =>
      have hlength := h.length_bytes
      rw [heq] at hlength
      cases hlength
    | cons c' name' =>
      obtain ⟨hc, hname⟩ := List.forall_mem_cons.1 h
      obtain ⟨hc', hname'⟩ := List.forall_mem_cons.1 h'
      simp only [bytes, List.flatMap_cons, h.bytesOf_eq List.mem_cons_self,
        h'.bytesOf_eq List.mem_cons_self, List.singleton_append, List.cons.injEq] at heq
      have hval := congrArg UInt8.toNat heq.1
      rw [Utf8.toNat_toUInt8 (by omega), Utf8.toNat_toUInt8 (by omega)] at hval
      rw [ih hname hname' heq.2, ← Utf8.ofNat_eq (c := c) rfl, hval, Utf8.ofNat_eq rfl]

end FileName

namespace FileTree

open FileName (above stored bytes isTooLong)

variable {t u : FileTree} {path target other : Path} {name : Text} {here p q : Place} {k : Nat}
  {text text' : Text} {content content' : List UInt8}

/-! ## Free names -/

theorem temporaryAt_injOn {j k : Nat} (hj : j < labels) (hk : k < labels)
    (h : temporaryAt target j = temporaryAt target k) : j = k := by
  rw [temporaryAt_eq, temporaryAt_eq] at h
  have hbytes := congrArg bytes (List.singleton_inj.1 (List.append_cancel_left h))
  rw [FileName.bytes_stored, FileName.bytes_stored, bytes_temporaryName, bytes_temporaryName]
    at hbytes
  have hlabels := List.append_cancel_left (List.append_cancel_right hbytes)
  exact label_injOn hj hk ((isPlain_label j).eq_of_bytes (isPlain_label k) hlabels)

/-- At none of the places for a temporary file beside the target can one be created. -/
def Crowded (t : FileTree) (target : Path) : Prop :=
  ∀ k < labels, t.node? (temporaryAt target k) ≠ none

/-- The places are not all taken if there are more of them than the tree has entries. -/
theorem exists_free (hfew : t.entries.length < labels) (target : Path) :
    ∃ k ≤ t.entries.length, t.node? (temporaryAt target k) = none := by
  by_contra! hall
  have hsubset : (List.range (t.entries.length + 1)).map (temporaryAt target) ⊆
      t.entries.map Prod.fst := by
    intro q hq
    obtain ⟨k, hk, rfl⟩ := List.mem_map.1 hq
    have htaken := hall k (Nat.le_of_lt_succ (List.mem_range.1 hk))
    obtain ⟨e, he, heq⟩ := (node?_ne_none (temporaryAt_ne_nil target k)).1 htaken
    exact List.mem_map.2 ⟨e, he, heq⟩
  have hnodup : ((List.range (t.entries.length + 1)).map (temporaryAt target)).Nodup := by
    refine List.Nodup.map_on (fun j hj k hk heq => ?_) List.nodup_range
    rw [List.mem_range] at hj hk
    exact temporaryAt_injOn (by omega) (by omega) heq
  have hlength := (List.subperm_of_subset hnodup hsubset).length_le
  simp only [List.length_map, List.length_range] at hlength
  omega

/-- The place with the number `k` is free, and no one with a smaller number is. -/
structure FirstFree (t : FileTree) (target : Path) (k : Nat) : Prop where
  lt : k < labels
  free : t.node? (temporaryAt target k) = none
  taken : ∀ j < k, t.node? (temporaryAt target j) ≠ none

/-- The first free place is taken, or all are taken already and the first one is tried. -/
theorem temporaryPlace_cases (t : FileTree) (target : Path) :
    (∃ k, FirstFree t target k ∧ t.temporaryPlace target = temporaryAt target k) ∨
      Crowded t target ∧ t.temporaryPlace target = temporaryAt target 0 := by
  rw [temporaryPlace]
  cases hfind : (List.range (min (t.entries.length + 1) labels)).find?
      fun k => (t.node? (temporaryAt target k)).isNone with
  | none =>
    have htaken : ∀ k < min (t.entries.length + 1) labels,
        t.node? (temporaryAt target k) ≠ none := by
      simpa [Option.isSome_iff_ne_none] using List.find?_range_eq_none.1 hfind
    refine .inr ⟨fun k hk => htaken k ?_, rfl⟩
    -- a search that ends before the last name has tried more names than there are entries
    by_contra hlast
    obtain ⟨j, hj, hfree⟩ := exists_free (t := t) (by omega) target
    exact htaken j (by omega) hfree
  | some k =>
    obtain ⟨hfree, hk, htaken⟩ := List.find?_range_eq_some.1 hfind
    rw [List.mem_range] at hk
    refine .inl ⟨k, ⟨by omega, by simpa using hfree, ?_⟩, rfl⟩
    simpa [Option.isSome_iff_ne_none] using htaken

/-- Which places are free decides which one is taken. -/
theorem temporaryPlace_congr (h : ∀ k, u.node? (temporaryAt target k) = none ↔
    t.node? (temporaryAt target k) = none) : u.temporaryPlace target = t.temporaryPlace target := by
  obtain ⟨j, hj, hu⟩ | ⟨hu, hplace⟩ := temporaryPlace_cases u target <;>
    obtain ⟨k, hk, ht⟩ | ⟨ht, hplace'⟩ := temporaryPlace_cases t target
  · rcases Nat.lt_trichotomy j k with hlt | heq | hlt
    · exact absurd ((h j).1 hj.free) (hk.taken j hlt)
    · rw [hu, ht, heq]
    · exact absurd ((h k).2 hk.free) (hj.taken k hlt)
  · exact absurd ((h j).1 hj.free) (ht j hj.lt)
  · exact absurd ((h k).2 hk.free) (hu k hk.lt)
  · rw [hplace, hplace']

/-! ## Where a file can be written -/

/-- The path leads to a place, and a temporary file can be created beside it. -/
structure Accessible (t : FileTree) (target : Path) (p : Place) : Prop where
  temporary : ∃ q, t.resolve (t.temporaryPlace target) = .ok q
  free : t.node? (t.temporaryPlace target) = none
  place : t.resolve target = .ok p
  last : target.getLast? ≠ some above

theorem last_of_replace {temporary : Place}
    (h : (WriteStep.replace temporary target).run t = .ok u) : target.getLast? ≠ some above := by
  intro hlast
  obtain ⟨p, -, h⟩ := bind_eq_ok.1 h
  rw [if_pos hlast] at h
  cases h

theorem accessible_of_writeText {a : Unit} (h : (writeText target text).run.run t = (.ok a, u)) :
    ∃ p, Accessible t target p ∧ t.node? p ≠ some .directory := by
  obtain ⟨_, content, -, -, ⟨p, hp, hfile, -⟩⟩ := (writesAt_writeText t target text).done _ _ h
  have houtcome : (t.writeHistory target text).2 = .ok a := congrArg Prod.fst h
  rw [writeHistory] at houtcome
  split at houtcome
  · cases houtcome
  · rename_i created hcreated
    obtain ⟨q, hq, hput⟩ := bind_eq_ok.1 hcreated
    have hfree : t.node? (t.temporaryPlace target) = none := by
      split at hput
      · assumption
      · cases hput
    refine ⟨p, ⟨⟨q, hq⟩, hfree, hp, ?_⟩, hfile⟩
    rcases hfill : (WriteStep.fill (t.temporaryPlace target) text).run created with f | filled
    · simp only [runSteps, hfill] at houtcome
      cases houtcome
    · rcases hreplace : (WriteStep.replace (t.temporaryPlace target) target).run filled with f | u
      · simp only [runSteps, hfill, hreplace] at houtcome
        cases houtcome
      · exact last_of_replace hreplace

namespace Accessible

variable (h : Accessible t target p)
include h

theorem exists_filled (htext : Utf8.encode? text = some content) : ∃ filled,
    Pending t filled target ∧ filled.node? (t.temporaryPlace target) = some (.file content) ∧
      (t.writeHistory target text).2 =
        ((WriteStep.replace (t.temporaryPlace target) target).run filled).map fun _ => () := by
  obtain ⟨q, hq⟩ := h.temporary
  have hcreate : (WriteStep.create (t.temporaryPlace target)).run t =
      .ok (t.put (t.temporaryPlace target) (.file [])) := by
    rw [WriteStep.run, hq, ok_bind, h.free]
  have hfill : (WriteStep.fill (t.temporaryPlace target) text).run
      (t.put (t.temporaryPlace target) (.file [])) =
        .ok (t.filled (t.temporaryPlace target) content) := by
    rw [WriteStep.run, htext]
    rfl
  obtain ⟨hpending, content', hcontent', hfile⟩ := (pending_of_create hcreate).fill hfill
  cases htext.symm.trans hcontent'
  refine ⟨_, hpending, hfile, ?_⟩
  rw [writeHistory, hcreate]
  simp only [runSteps, hfill]
  rcases (WriteStep.replace (t.temporaryPlace target) target).run _ with f | u <;> rfl

theorem run_replace {filled : FileTree} (hpending : Pending t filled target)
    (hfile : filled.node? (t.temporaryPlace target) = some (.file content)) :
    (WriteStep.replace (t.temporaryPlace target) target).run filled =
      if t.node? p = some .directory then .error .isDirectory
      else .ok ((filled.put p (.file content)).erase (t.temporaryPlace target)) := by
  have hplace := hpending.sameDirectories.resolve.2 h.place
  have hnode := hpending.node?_target hplace
  rw [WriteStep.run, hplace, ok_bind, if_neg h.last, hnode, hfile]
  split
  · rename_i hdirectory
    rw [if_pos hdirectory]
  · rename_i hn hother
    cases hn
    rw [if_neg fun hdirectory => hother hdirectory]
  · simp_all

/-- The text is not written over a directory. -/
theorem writeText_directory (htext : Utf8.encode? text = some content)
    (hp : t.node? p = some .directory) :
    (writeText target text).run.run t = (.error .isDirectory, t) := by
  obtain ⟨filled, hpending, hfile, houtcome⟩ := h.exists_filled htext
  rw [h.run_replace hpending hfile, if_pos hp] at houtcome
  have hrun : (writeText target text).run.run t = (.error .isDirectory, _) :=
    Prod.ext houtcome rfl
  rw [hrun, (writesAt_writeText t target text).failed _ _ hrun]

theorem writeText_file (htext : Utf8.encode? text = some content)
    (hp : t.node? p ≠ some .directory) :
    ∃ u, (writeText target text).run.run t = (.ok (), u) ∧ Replaced t u target content := by
  obtain ⟨filled, hpending, hfile, houtcome⟩ := h.exists_filled htext
  rw [h.run_replace hpending hfile, if_neg hp] at houtcome
  have hrun : (writeText target text).run.run t = (.ok (), _) := Prod.ext houtcome rfl
  obtain ⟨_, content', rfl, hcontent', hreplaced⟩ :=
    (writesAt_writeText t target text).done _ _ hrun
  cases htext.symm.trans hcontent'
  exact ⟨_, hrun, hreplaced⟩

/-- A path that leads down by its last name leads to that name. -/
theorem exists_directory (htarget : target = path ++ [name]) :
    ∃ d, t.follow [] path = .ok d ∧ p = d ++ [stored name] := by
  subst htarget
  have hlast : name ≠ above := by
    rintro rfl
    exact h.last (List.getLast?_concat ..)
  obtain ⟨d, hd, -, hp⟩ := exists_directory_of_follow (resolve_eq_ok_iff.1 h.place).2
  exact ⟨d, hd, by rw [hp, if_neg hlast]⟩

theorem bytes_of_eq (htarget : target = path ++ [name]) (hp : p = temporaryAt other k) :
    bytes name = bytes (temporaryName (other.getLastD []) k) := by
  obtain ⟨d, -, hd⟩ := h.exists_directory htarget
  rw [hd, temporaryAt_eq] at hp
  have hname := congrArg bytes (List.singleton_inj.1 (List.append_inj' hp rfl).2)
  rwa [FileName.bytes_stored, FileName.bytes_stored] at hname

theorem ne_temporaryAt (k : Nat) : p ≠ temporaryAt target k := by
  intro hp
  rcases List.eq_nil_or_concat target with rfl | ⟨path, name, rfl⟩
  · cases (resolve_eq_ok_iff.1 h.place).2
    exact temporaryAt_ne_nil [] k hp.symm
  · rw [List.concat_eq_append] at *
    have hbytes := h.bytes_of_eq rfl hp
    have hlength := length_bytes_temporaryName name k
    rw [List.getLastD_concat] at hbytes
    rw [hbytes] at hlength
    omega

end Accessible

/-! ## Writing again -/

theorem bytesAt_eq_ok : t.bytesAt path = .ok content ↔ t.lookUp path = .ok (.file content) := by
  rw [bytesAt, bind_eq_ok]
  constructor
  · rintro ⟨n, hn, h⟩
    cases n with
    | file _ =>
      cases h
      exact hn
    | directory => cases h
  · intro h
    exact ⟨_, h, rfl⟩

theorem Replaced.bytesAt (h : Replaced t u target content) : u.bytesAt target = .ok content :=
  bytesAt_eq_ok.2 h.found

theorem Replaced.temporaryPlace (h : Replaced t u target content) (hp : t.resolve target = .ok p)
    (hne : ∀ k, p ≠ temporaryAt other k) : u.temporaryPlace other = t.temporaryPlace other := by
  obtain ⟨p', hp', -, hnode⟩ := h.only
  cases hp.symm.trans hp'
  apply temporaryPlace_congr
  intro k
  rw [hnode, if_neg (hne k)]

theorem Replaced.crowded (h : Replaced t u other content) (hq : t.resolve other = .ok q)
    (hne : ∀ k, q ≠ temporaryAt target k) (hcrowded : Crowded t target) : Crowded u target := by
  obtain ⟨q', hq', -, hnode⟩ := h.only
  cases hq.symm.trans hq'
  intro k hk
  rw [hnode, if_neg (hne k)]
  exact hcrowded k hk

/-- A file that is no temporary one beside the target does not matter to it. -/
theorem Accessible.of_replaced (h : Accessible t target p) (hreplaced : Replaced t u other content)
    (hq : t.resolve other = .ok q) (hne : ∀ k, q ≠ temporaryAt target k) :
    Accessible u target p := by
  have hplace := hreplaced.temporaryPlace hq hne
  have hsame := hreplaced.sameDirectories
  obtain ⟨k, hk⟩ := exists_temporaryPlace t target
  refine ⟨?_, ?_, hsame.resolve.2 h.place, h.last⟩
  · obtain ⟨r, hr⟩ := h.temporary
    rw [hplace]
    exact ⟨r, hsame.resolve.2 hr⟩
  · obtain ⟨q', hq', -, hnode⟩ := hreplaced.only
    cases hq.symm.trans hq'
    rw [hplace, hnode, hk, if_neg (hne k), ← hk, h.free]

/-- Where a text was written, another one can be written. -/
theorem writeText_again {a : Unit} (h : (writeText target text).run.run t = (.ok a, u))
    (htext' : Utf8.encode? text' = some content') :
    ∃ u', (writeText target text').run.run u = (.ok (), u') ∧ Replaced u u' target content' := by
  obtain ⟨p, hp, -⟩ := accessible_of_writeText h
  obtain ⟨_, content, -, -, hreplaced⟩ := (writesAt_writeText t target text).done _ _ h
  have hp' := hp.of_replaced hreplaced hp.place hp.ne_temporaryAt
  refine hp'.writeText_file htext' fun hdirectory => ?_
  obtain ⟨q, hq, -, hnode⟩ := hreplaced.only
  cases hp.place.symm.trans hq
  rw [hnode, if_pos rfl] at hdirectory
  cases hdirectory

theorem Replaced.node?_again {u' : FileTree} (h : Replaced t u target content)
    (h' : Replaced u u' target content) (q : Place) : u'.node? q = u.node? q := by
  obtain ⟨p, hp, -, hnode⟩ := h.only
  obtain ⟨p', hp', -, hnode'⟩ := h'.only
  cases (h.sameDirectories.resolve.2 hp).symm.trans hp'
  rw [hnode', hnode]
  split <;> rfl

/-! ## Beside a file -/

/-- A name that is no longer than another one can stand in its place at the end of a path. -/
theorem resolve_beside (h : t.resolve (path ++ [name]) = .ok q) (hname : name ≠ above)
    {name' : Text} (hplain : FileName.IsPlain name') (hname' : name' ≠ above)
    (hlength : name'.length ≤ (bytes name).length) :
    ∃ d, t.follow [] path = .ok d ∧ t.resolve (path ++ [name']) = .ok (d ++ [name']) := by
  obtain ⟨hchecked, hfollow⟩ := resolve_eq_ok_iff.1 h
  rw [follow_append] at hfollow
  obtain ⟨d, hd, hlast⟩ := bind_eq_ok.1 hfollow
  obtain ⟨hdirectory, hshort, -⟩ := (follow_cons hname).1 hlast
  refine ⟨d, hd, resolve_eq_ok_iff.2 ⟨?_, ?_⟩⟩
  · obtain ⟨hencodable, hnul, hbound⟩ := checkPath_eq_ok.1 hchecked
    rw [List.forall_mem_append] at hencodable hnul
    refine checkPath_eq_ok.2 ⟨?_, ?_, ?_⟩
    · exact List.forall_mem_append.2
        ⟨hencodable.1, List.forall_mem_singleton.2 hplain.isEncodable⟩
    · exact List.forall_mem_append.2 ⟨hnul.1, List.forall_mem_singleton.2 hplain.zero_not_mem⟩
    · rw [pathLength_child hplain]
      rw [pathLength_append] at hbound
      simp only [pathLength, List.foldr_cons, List.foldr_nil] at hbound ⊢
      omega
  · rw [follow_append, hd, ok_bind, follow_cons hname', hplain.stored]
    refine ⟨hdirectory, ?_, rfl⟩
    rw [isTooLong, decide_eq_false_iff_not] at hshort ⊢
    rw [hplain.length_bytes]
    omega

theorem temporaryName_ne_above (name : Text) (k : Nat) : temporaryName name k ≠ above := by
  intro heq
  have hlength := length_bytes_temporaryName name k
  have habove : (bytes above).length = 2 := by decide
  rw [heq, habove] at hlength
  omega

/-- Where a temporary file can be created, the paths of those beside a file with a name that is no
longer lead to their places too. -/
theorem resolve_temporaryAt (h : Accessible t (path ++ [name]) p) {name' : Text}
    (hplain : FileName.IsPlain name') (hlength : name'.length ≤ (bytes name).length) (j : Nat) :
    ∃ q, t.resolve (temporaryAt (path ++ [name']) j) = .ok q := by
  obtain ⟨q, hq⟩ := h.temporary
  obtain ⟨k, hk⟩ := exists_temporaryPlace t (path ++ [name])
  rw [hk, temporaryAt_eq, List.dropLast_concat, List.getLastD_concat] at hq
  have hne : stored (temporaryName name k) ≠ above :=
    fun heq => temporaryName_ne_above name k (FileName.stored_eq_above.1 heq)
  have hplain' := isPlain_temporaryName hplain j
  have hle : (temporaryName name' j).length ≤ (bytes (stored (temporaryName name k))).length := by
    rw [FileName.bytes_stored, length_bytes_temporaryName, length_temporaryName]
    omega
  obtain ⟨d, -, hd⟩ := resolve_beside hq hne hplain' (temporaryName_ne_above name' j) hle
  rw [temporaryAt_eq, List.dropLast_concat, List.getLastD_concat, hplain'.stored]
  exact ⟨_, hd⟩

/-- Where a file can be written, one with a name that is no longer can be written beside it, unless
all places for its temporary file are taken. -/
theorem Accessible.beside (h : Accessible t (path ++ [name]) p) {name' : Text}
    (hplain : FileName.IsPlain name') (hname' : name' ≠ above)
    (hlength : name'.length ≤ (bytes name).length) (hfree : ¬Crowded t (path ++ [name'])) :
    Accessible t (path ++ [name']) (p.dropLast ++ [name']) := by
  obtain ⟨k, hk, hplace⟩ :=
    (temporaryPlace_cases t (path ++ [name'])).resolve_right fun hall => hfree hall.1
  have hname : name ≠ above := fun heq => h.last (by rw [List.getLast?_concat, heq])
  obtain ⟨d, hd, hp⟩ := h.exists_directory rfl
  obtain ⟨d', hd', hresolve⟩ := resolve_beside h.place hname hplain hname' hlength
  cases hd.symm.trans hd'
  rw [hp, List.dropLast_concat]
  refine ⟨?_, ?_, hresolve, by simpa using hname'⟩
  · rw [hplace]
    exact resolve_temporaryAt h hplain hlength k
  · rw [hplace, hk.free]

/-- Among places that are all taken no file can be written. -/
theorem writeText_of_crowded (hcrowded : Crowded t target)
    (hresolve : ∃ q, t.resolve (temporaryAt target 0) = .ok q) :
    (writeText target text).run.run t = (.error .alreadyThere, t) := by
  obtain ⟨k, hk, -⟩ | ⟨-, hplace⟩ := temporaryPlace_cases t target
  · exact absurd hk.free (hcrowded k hk.lt)
  have htaken := hcrowded 0 (by decide)
  have hcreate : (WriteStep.create (temporaryAt target 0)).run t = .error .alreadyThere := by
    obtain ⟨q, hq⟩ := hresolve
    obtain ⟨n, hn⟩ := Option.ne_none_iff_exists'.1 htaken
    rw [WriteStep.run, hq, ok_bind, hn]
  rw [run_writeText, writeHistory, hplace, hcreate]
  rfl

end FileTree

end StarkReplay
