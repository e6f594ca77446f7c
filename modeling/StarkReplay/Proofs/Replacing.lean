import StarkReplay.Proofs.FileWriting

/-!
Replacing a file. While a text is written, whatever stood somewhere stands there still, but for the
target, which is as it was or holds the whole text; besides it there is at most the temporary file.
A failure at any step ends with the tree from before.
-/
namespace StarkReplay.FileTree

open FileName (above stored isTooLong)

variable {t u : FileTree} {here p q : Place} {path target : Path} {name : Text}

/-! ## Removing what was put -/

theorem erase_put (t : FileTree) (p : Place) (n : Node) : (t.put p n).erase p = t.erase p := by
  have hfilter : ∀ entries : List (Place × Node),
      (putAmong p n entries).filter (fun e => e.1 ≠ p) = entries.filter (fun e => e.1 ≠ p) := by
    intro entries
    induction entries with
    | nil => simp [putAmong]
    | cons e entries ih =>
      obtain ⟨r, m⟩ := e
      by_cases hr : r = p
      · simp [putAmong, hr]
      · rw [putAmong, if_neg hr, List.filter_cons, List.filter_cons, ih]
  exact congrArg FileTree.mk (hfilter t.entries)

theorem erase_eq_self (h : t.node? p = none) : t.erase p = t := by
  have hentries := (node?_eq_none.1 h).2
  exact congrArg FileTree.mk (List.filter_eq_self.2 (by simpa using hentries))

/-! ## Where paths lead -/

theorem follow_above : t.follow here (above :: path) = .ok q ↔
    t.node? here = some .directory ∧ t.follow here.dropLast path = .ok q := by
  rw [follow]
  split <;> simp_all

/-- The directories of both trees are the same. -/
def SameDirectories (t u : FileTree) : Prop :=
  ∀ q, u.node? q = some .directory ↔ t.node? q = some .directory

/-- Only directories decide where a path leads. -/
theorem SameDirectories.follow (h : SameDirectories t u) :
    u.follow here path = .ok q ↔ t.follow here path = .ok q := by
  induction path generalizing here with
  | nil => rfl
  | cons name path ih =>
    by_cases hname : name = above
    · subst hname
      rw [follow_above, follow_above, h here, ih]
    · rw [follow_cons hname, follow_cons hname, h here, ih]

theorem resolve_eq_ok_iff :
    t.resolve path = .ok q ↔ checkPath path = .ok () ∧ t.follow [] path = .ok q := by
  rw [resolve, bind_eq_ok]
  constructor
  · rintro ⟨_, h⟩
    exact h
  · intro h
    exact ⟨⟨⟩, h⟩

theorem SameDirectories.resolve (h : SameDirectories t u) :
    u.resolve path = .ok q ↔ t.resolve path = .ok q := by
  rw [resolve_eq_ok_iff, resolve_eq_ok_iff, h.follow]

theorem lookUp_eq_ok_iff {n : Node} :
    t.lookUp path = .ok n ↔ ∃ q, t.resolve path = .ok q ∧ t.node? q = some n := by
  rw [lookUp, bind_eq_ok]
  refine exists_congr fun q => and_congr_right fun _ => ?_
  split <;> simp_all

/-- The last name of a path leads to a place in a directory, or back from it. -/
theorem exists_directory_of_follow (h : t.follow here (path ++ [name]) = .ok q) :
    ∃ d, t.follow here path = .ok d ∧ t.node? d = some .directory ∧
      q = if name = above then d.dropLast else d ++ [stored name] := by
  rw [follow_append] at h
  obtain ⟨d, hd, h⟩ := bind_eq_ok.1 h
  by_cases hname : name = above
  · subst hname
    obtain ⟨hdirectory, hq⟩ := follow_above.1 h
    cases hq
    exact ⟨d, hd, hdirectory, (if_pos rfl).symm⟩
  · obtain ⟨hdirectory, -, hq⟩ := (follow_cons hname).1 h
    cases hq
    exact ⟨d, hd, hdirectory, (if_neg hname).symm⟩

/-- All that is above the place is a directory. -/
def Reached (t : FileTree) (p : Place) : Prop :=
  ∀ k < p.length, t.node? (p.take k) = some .directory

theorem reached_nil (t : FileTree) : Reached t [] := fun k hk => absurd hk (Nat.not_lt_zero k)

theorem Reached.dropLast (h : Reached t p) : Reached t p.dropLast := by
  intro k hk
  rw [List.length_dropLast] at hk
  have hnode := h k (by omega)
  rwa [List.dropLast_eq_take, List.take_take, Nat.min_eq_left (by omega)]

theorem Reached.concat (h : Reached t p) (hp : t.node? p = some .directory) (name : Text) :
    Reached t (p ++ [name]) := by
  intro k hk
  rw [List.length_append, List.length_singleton] at hk
  by_cases hlast : k = p.length
  · rwa [hlast, List.take_left]
  · rw [List.take_append_of_le_length (by omega)]
    exact h k (by omega)

/-- A path goes down by one name at a time, so all above the place it comes to are directories. -/
theorem Reached.follow (hhere : Reached t here) (h : t.follow here path = .ok q) :
    Reached t q := by
  induction path generalizing here with
  | nil =>
    cases h
    exact hhere
  | cons name path ih =>
    by_cases hname : name = above
    · subst hname
      exact ih hhere.dropLast (follow_above.1 h).2
    · obtain ⟨hdirectory, -, hrest⟩ := (follow_cons hname).1 h
      exact ih (hhere.concat hdirectory _) hrest

theorem Reached.above (h : Reached t p) (hp : t.node? p = some .directory) :
    t.node? p.dropLast = some .directory := by
  by_cases hnil : p = []
  · subst hnil
    rfl
  · have hpos := List.length_pos_iff.2 hnil
    rw [List.dropLast_eq_take]
    exact h _ (by omega)

/-! ## The temporary file -/

theorem bytes_temporaryName (name : Text) (k : Nat) : FileName.bytes (temporaryName name k) =
    FileName.bytes "." ++ FileName.bytes name ++ FileName.bytes "." ++
      FileName.bytes (label k) ++ FileName.bytes ".tmp" := by
  simp [temporaryName, Text.concat, FileName.bytes]

theorem length_bytes_temporaryName (name : Text) (k : Nat) :
    (FileName.bytes (temporaryName name k)).length = (FileName.bytes name).length + 14 := by
  have hends : (FileName.bytes ".").length = 1 ∧ (FileName.bytes ".tmp").length = 4 := by decide
  simp only [bytes_temporaryName, List.length_append, hends, (isPlain_label k).length_bytes,
    length_label]
  omega

theorem temporaryAt_eq (target : Path) (k : Nat) : temporaryAt target k =
    place (collapse target.dropLast) ++ [stored (temporaryName (target.getLastD []) k)] := by
  rw [temporaryAt, List.map_append]
  rfl

theorem temporaryAt_ne_nil (target : Path) (k : Nat) : temporaryAt target k ≠ [] := by
  simp [temporaryAt_eq]

theorem exists_temporaryPlace (t : FileTree) (target : Path) :
    ∃ k, t.temporaryPlace target = temporaryAt target k := ⟨_, rfl⟩

theorem temporaryPlace_ne_nil : t.temporaryPlace target ≠ [] := temporaryAt_ne_nil _ _

/-- Where the temporary file is, the target does not lead to: its last name is longer, and it is
no directory. -/
theorem resolve_ne_temporaryPlace {content : List UInt8}
    (hfile : u.node? (t.temporaryPlace target) = some (.file content))
    (h : u.resolve target = .ok q) : q ≠ t.temporaryPlace target := by
  rintro rfl
  have hfollow := (resolve_eq_ok_iff.1 h).2
  rcases List.eq_nil_or_concat target with rfl | ⟨path, name, rfl⟩
  · exact temporaryPlace_ne_nil (Except.ok.inj hfollow).symm
  rw [List.concat_eq_append] at *
  obtain ⟨d, hd, hdirectory, hplace⟩ := exists_directory_of_follow hfollow
  split at hplace
  · have hreached : Reached u d := (reached_nil u).follow hd
    rw [hplace, hreached.above hdirectory] at hfile
    cases hfile
  · obtain ⟨k, hk⟩ := exists_temporaryPlace t (path ++ [name])
    rw [hk, temporaryAt_eq, List.getLastD_concat] at hplace
    have hname := congrArg FileName.bytes (List.singleton_inj.1 (List.append_inj' hplace rfl).2)
    have hlength := length_bytes_temporaryName name k
    rw [FileName.bytes_stored, FileName.bytes_stored] at hname
    rw [hname] at hlength
    omega

/-! ## Steps -/

/-- The tree `u` is `t` with the temporary file for the target. -/
structure Pending (t u : FileTree) (target : Path) : Prop where
  restored : u.erase (t.temporaryPlace target) = t
  file : ∃ content, u.node? (t.temporaryPlace target) = some (.file content)

/-- Only the file that the path leads to has changed, and it has this content. -/
structure Replaced (t u : FileTree) (target : Path) (content : List UInt8) : Prop where
  only : ∃ p, t.resolve target = .ok p ∧ t.node? p ≠ some .directory ∧
    ∀ q, u.node? q = if p = q then some (.file content) else t.node? q

theorem Replaced.sameDirectories {content : List UInt8} (h : Replaced t u target content) :
    SameDirectories t u := by
  obtain ⟨p, -, hfile, hnode⟩ := h.only
  intro q
  rw [hnode]
  split
  · rename_i hq
    rw [← hq]
    exact iff_of_false nofun hfile
  · rfl

theorem Replaced.found {content : List UInt8} (h : Replaced t u target content) :
    u.lookUp target = .ok (.file content) := by
  obtain ⟨p, hp, -, hnode⟩ := h.only
  exact lookUp_eq_ok_iff.2 ⟨p, h.sameDirectories.resolve.2 hp, by rw [hnode, if_pos rfl]⟩

/-- What another path leads to has not changed. -/
theorem Replaced.lookUp_of_ne {content : List UInt8} (h : Replaced t u target content) {n : Node}
    (hne : t.resolve path ≠ t.resolve target) (hn : t.lookUp path = .ok n) :
    u.lookUp path = .ok n := by
  obtain ⟨p, hp, -, hnode⟩ := h.only
  obtain ⟨q, hq, hnode'⟩ := lookUp_eq_ok_iff.1 hn
  have hpq : p ≠ q := by
    rintro rfl
    exact hne (hq.trans hp.symm)
  refine lookUp_eq_ok_iff.2 ⟨q, h.sameDirectories.resolve.2 hq, ?_⟩
  rw [hnode, if_neg hpq, hnode']

theorem pending_of_create (h : (WriteStep.create (t.temporaryPlace target)).run t = .ok u) :
    Pending t u target := by
  obtain ⟨_, -, h⟩ := bind_eq_ok.1 h
  split at h
  · rename_i hfree
    cases h
    refine ⟨(erase_put _ _ _).trans (erase_eq_self hfree), [], ?_⟩
    rw [node?_put _ _ _ temporaryPlace_ne_nil, if_pos rfl]
  · cases h

namespace Pending

variable {u' : FileTree} {text : Text} {content : List UInt8} (h : Pending t u target)
include h

theorem node?_eq (q : Place) :
    t.node? q = if q = t.temporaryPlace target then none else u.node? q := by
  have hne : t.temporaryPlace target ≠ [] := temporaryPlace_ne_nil
  have hnode := node?_erase (t := u) hne q
  rwa [h.restored] at hnode

theorem node?_of_ne (hq : q ≠ t.temporaryPlace target) : u.node? q = t.node? q := by
  rw [h.node?_eq, if_neg hq]

theorem sameDirectories : SameDirectories t u := by
  intro q
  by_cases hq : q = t.temporaryPlace target
  · obtain ⟨content, hfile⟩ := h.file
    rw [h.node?_eq, if_pos hq, hq, hfile]
    exact iff_of_false nofun nofun
  · rw [h.node?_of_ne hq]

theorem node?_target (hq : u.resolve target = .ok q) : u.node? q = t.node? q := by
  obtain ⟨content, hfile⟩ := h.file
  exact h.node?_of_ne (resolve_ne_temporaryPlace hfile hq)

theorem fill (hrun : (WriteStep.fill (t.temporaryPlace target) text).run u = .ok u') :
    Pending t u' target ∧ ∃ content, Utf8.encode? text = some content ∧
      u'.node? (t.temporaryPlace target) = some (.file content) := by
  rw [WriteStep.run] at hrun
  split at hrun
  · rename_i content hcontent
    cases hrun
    have hnode : (u.put (t.temporaryPlace target) (.file content)).node?
        (t.temporaryPlace target) = some (.file content) := by
      rw [node?_put _ _ _ temporaryPlace_ne_nil, if_pos rfl]
    exact ⟨⟨(erase_put _ _ _).trans h.restored, content, hnode⟩, content, hcontent, hnode⟩
  · cases hrun

theorem replace (hcontent : u.node? (t.temporaryPlace target) = some (.file content))
    (hrun : (WriteStep.replace (t.temporaryPlace target) target).run u = .ok u') :
    Replaced t u' target content := by
  obtain ⟨p, hp, hrun⟩ := bind_eq_ok.1 hrun
  have hne := resolve_ne_temporaryPlace hcontent hp
  split at hrun
  · cases hrun
  split at hrun
  · cases hrun
  · rename_i n hn hnot
    rw [hcontent] at hn
    cases hn
    cases hrun
    have hfile : t.node? p ≠ some .directory := by
      rw [← h.node?_of_ne hne]
      exact fun hdirectory => hnot hdirectory
    have hpne : p ≠ [] := by
      rintro rfl
      exact hfile rfl
    have hnode : ∀ q, ((u.put p (.file content)).erase (t.temporaryPlace target)).node? q =
        if p = q then some (.file content) else t.node? q := by
      intro q
      rw [node?_erase temporaryPlace_ne_nil, node?_put _ _ _ hpne, h.node?_eq q]
      by_cases hq : p = q
      · rw [if_pos hq, if_neg (hq ▸ hne), if_pos hq]
      · rw [if_neg hq, if_neg hq]
    exact ⟨p, h.sameDirectories.resolve.1 hp, hfile, hnode⟩
  · cases hrun

end Pending

/-! ## The trees that writing passes through -/

/-- How writing a text goes: the trees from the first to the last, and the outcome. -/
inductive Writing (t : FileTree) (target : Path) (text : Text) :
    List FileTree × Except Failure Unit → Prop
  | notCreated {f : Failure} : Writing t target text ([t], .error f)
  | notFilled {created : FileTree} {f : Failure} : Pending t created target →
      Writing t target text ([t, created, t], .error f)
  | notReplaced {created filled : FileTree} {f : Failure} : Pending t created target →
      Pending t filled target → Writing t target text ([t, created, filled, t], .error f)
  | replaced {created filled u : FileTree} {content : List UInt8} : Pending t created target →
      Pending t filled target → Utf8.encode? text = some content → Replaced t u target content →
        Writing t target text ([t, created, filled, u], .ok ())

theorem writing_writeHistory (t : FileTree) (target : Path) (text : Text) :
    Writing t target text (t.writeHistory target text) := by
  rw [writeHistory]
  split
  · exact .notCreated
  · rename_i created hcreated
    have hpending := pending_of_create hcreated
    rcases hfill : (WriteStep.fill (t.temporaryPlace target) text).run created with f | filled
    · simp only [runSteps, hfill, List.getLastD_cons, List.getLastD_nil, hpending.restored]
      exact .notFilled hpending
    · obtain ⟨hfilled, content, hcontent, hfile⟩ := hpending.fill hfill
      rcases hreplace : (WriteStep.replace (t.temporaryPlace target) target).run filled with f | u
      · simp only [runSteps, hfill, hreplace, List.getLastD_cons, List.getLastD_nil,
          hfilled.restored]
        exact .notReplaced hpending hfilled
      · simp only [runSteps, hfill, hreplace]
        exact .replaced hpending hfilled hcontent (hfilled.replace hfile hreplace)

/-- A tree on the way: the path leads to what it led to before or to the whole text, every other
path leads to what it led to, nothing but the target and the temporary file is different, and
unless the text has replaced the target, removing the temporary file gives the tree from before. -/
structure Moment (t u : FileTree) (target : Path) (text : Text) : Prop where
  held : (∀ n, u.lookUp target = .ok n ↔ t.lookUp target = .ok n) ∨
    ∃ content, Utf8.encode? text = some content ∧ u.lookUp target = .ok (.file content)
  others : ∀ path n, t.lookUp path = .ok n → t.resolve path ≠ t.resolve target →
    u.lookUp path = .ok n
  added : ∀ q, u.node? q ≠ t.node? q →
    t.resolve target = .ok q ∨ t.node? q = none ∧ q = t.temporaryPlace target
  undone : u = t ∨ u.erase (t.temporaryPlace target) = t ∨
    ∃ content, Utf8.encode? text = some content ∧ Replaced t u target content

theorem Moment.refl (t : FileTree) (target : Path) (text : Text) : Moment t t target text :=
  ⟨.inl fun _ => Iff.rfl, fun _ _ h _ => h, fun _ h => absurd rfl h, .inl rfl⟩

theorem Pending.moment (h : Pending t u target) (text : Text) : Moment t u target text := by
  have hsame := h.sameDirectories
  refine ⟨?_, ?_, ?_, .inr (.inl h.restored)⟩
  · left
    intro n
    rw [lookUp_eq_ok_iff, lookUp_eq_ok_iff]
    refine exists_congr fun q => ?_
    rw [← hsame.resolve]
    exact and_congr_right fun hq => by rw [h.node?_target hq]
  · intro path n hn _
    obtain ⟨q, hq, hnode⟩ := lookUp_eq_ok_iff.1 hn
    refine lookUp_eq_ok_iff.2 ⟨q, hsame.resolve.2 hq, ?_⟩
    rw [h.node?_eq] at hnode
    split at hnode
    · cases hnode
    · exact hnode
  · intro q hne
    right
    by_cases hq : q = t.temporaryPlace target
    · exact ⟨by rw [h.node?_eq, if_pos hq], hq⟩
    · exact absurd (h.node?_of_ne hq) hne

theorem Replaced.moment {content : List UInt8} {text : Text} (h : Replaced t u target content)
    (hcontent : Utf8.encode? text = some content) : Moment t u target text := by
  obtain ⟨p, hp, -, hnode⟩ := h.only
  refine ⟨.inr ⟨content, hcontent, h.found⟩, fun path n hn hother => h.lookUp_of_ne hother hn, ?_,
    .inr (.inr ⟨content, hcontent, h⟩)⟩
  intro q hne
  left
  rw [hnode] at hne
  by_cases hq : p = q
  · rw [hp, hq]
  · exact absurd (if_neg hq) hne

/-- Whenever writing is interrupted, the target is as it was or complete. -/
theorem moment_of_writeHistory (t : FileTree) (target : Path) (text : Text) :
    ∀ u ∈ (t.writeHistory target text).1, Moment t u target text := by
  have hwriting := writing_writeHistory t target text
  have hrefl := Moment.refl t target text
  generalize t.writeHistory target text = history at hwriting
  cases hwriting <;> simp only [List.forall_mem_cons, List.not_mem_nil, false_imp_iff,
    implies_true, and_true]
  case notCreated => exact hrefl
  case notFilled hcreated => exact ⟨hrefl, hcreated.moment text, hrefl⟩
  case notReplaced hcreated hfilled =>
    exact ⟨hrefl, hcreated.moment text, hfilled.moment text, hrefl⟩
  case replaced hcreated hfilled hcontent hreplaced =>
    exact ⟨hrefl, hcreated.moment text, hfilled.moment text, hreplaced.moment hcontent⟩

end StarkReplay.FileTree
