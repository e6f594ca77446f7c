import StarkReplay.Proofs.JsonWriting
import StarkReplay.Proofs.Rewriting
import StarkReplay.Prover.Files

/-!
The files of a prover. Each of the two is replaced as a whole, the parameters first. Where the
parameters can be written, so can the configuration, which has the shorter name, unless a directory
stands in its place or all places for its temporary file are taken. These alone leave new parameters
beside an old configuration; any other failure leaves all as it is.
-/
namespace StarkReplay.Prover

open FileTree (Replaced writeText temporaryAt)

variable {t u t' : FileTree} {steps : Int} {directory : Path} {f : Failure} {q : Place}

def parametersPath (directory : Path) : Path :=
  directory ++ [Text.ofString "prover_parameters.json"]

def configPath (directory : Path) : Path := directory ++ [Text.ofString "prover_config.json"]

/-- The file of the parameters, and nothing else, has been replaced by those for so many steps. -/
def ReplacesParameters (t u : FileTree) (steps : Int) (directory : Path) : Prop :=
  ∃ p content, Fri.parameters (some Fri.maxEntries) steps = .ok p ∧
    Utf8.encode? ((parametersDocument p).write .indented) = some content ∧
      Replaced t u (parametersPath directory) content

/-- Both files hold the documents for so many steps, and nothing else has changed. -/
structure Complete (t u : FileTree) (steps : Int) (directory : Path) : Prop where
  parameters : ∃ p content, Fri.parameters (some Fri.maxEntries) steps = .ok p ∧
    Utf8.encode? ((parametersDocument p).write .indented) = some content ∧
      u.bytesAt (parametersPath directory) = .ok content
  config : ∃ content, Utf8.encode? (configDocument.write .indented) = some content ∧
    u.bytesAt (configPath directory) = .ok content
  others : ∀ q, u.node? q ≠ t.node? q →
    t.resolve (parametersPath directory) = .ok q ∨ t.resolve (configPath directory) = .ok q

/-- What writing the two files comes to. -/
inductive Outcome (t : FileTree) (steps : Int) (directory : Path) :
    Except Failure (List Path) × FileTree → Prop
  | refused {f : Failure} : parametersText steps = .error f →
      Outcome t steps directory (.error f, t)
  | unwritten {f : Failure} {text : Text} : parametersText steps = .ok text →
      (writeText (parametersPath directory) text).run.run t = (.error f, t) →
        Outcome t steps directory (.error f, t)
  | separated {u : FileTree} : ReplacesParameters t u steps directory →
      t.lookUp (configPath directory) = .ok .directory →
        Outcome t steps directory (.error .isDirectory, u)
  | crowded {u : FileTree} : ReplacesParameters t u steps directory →
      t.Crowded (configPath directory) → Outcome t steps directory (.error .alreadyThere, u)
  | complete {u : FileTree} : Complete t u steps directory →
      Outcome t steps directory (.ok [parametersPath directory, configPath directory], u)

theorem parametersText_eq_ok {text : Text} : parametersText steps = .ok text ↔
    ∃ p, Fri.parameters (some Fri.maxEntries) steps = .ok p ∧
      text = (parametersDocument p).write .indented := by
  rw [parametersText, bind_eq_ok]
  refine exists_congr fun p => and_congr_right fun _ => ?_
  rw [pure_eq_ok, eq_comm]

theorem configDocument_integral : configDocument.Integral := by
  refine .obj ?_
  simp only [List.forall_mem_cons, List.not_mem_nil, false_imp_iff, implies_true, and_true]
  exact ⟨.int _, .int _, .int _⟩

theorem exists_encode?_configText : ∃ content, Utf8.encode? configText = some content :=
  Json.Printed.exists_encode? (configDocument_integral.printed_writeAt .indented 0)

/-- The two files are at different places. -/
theorem resolve_parametersPath_ne (h : t.resolve (configPath directory) = .ok q) :
    t.resolve (parametersPath directory) ≠ t.resolve (configPath directory) := by
  intro heq
  rw [h] at heq
  obtain ⟨d, -, -, hd⟩ :=
    FileTree.exists_directory_of_follow (FileTree.resolve_eq_ok_iff.1 h).2
  obtain ⟨d', -, -, hd'⟩ :=
    FileTree.exists_directory_of_follow (FileTree.resolve_eq_ok_iff.1 heq).2
  rw [if_neg (by decide)] at hd hd'
  have hlast := (List.append_inj' (hd.symm.trans hd') (by simp)).2
  have hnames := List.singleton_inj.1 hlast
  revert hnames
  decide

/-- Parameters are not written to a place for the temporary file of the configuration. -/
theorem ne_temporaryAt (h : t.Accessible (parametersPath directory) q) (k : Nat) :
    q ≠ temporaryAt (configPath directory) k := by
  intro hq
  have hbytes := h.bytes_of_eq rfl hq
  rw [configPath, List.getLastD_concat, FileTree.bytes_temporaryName] at hbytes
  have hhead := congrArg List.head? hbytes
  have hdot : FileName.bytes "." = [0x2E] := by decide
  simp only [hdot, List.append_assoc, List.cons_append, List.head?_cons] at hhead
  revert hhead
  decide

/-- Beside parameters that were written, the configuration can be written as well, unless a
directory stands in its place or its temporary file has none. -/
theorem writeText_configPath {a : Unit} {text : Text}
    (hwritten : (writeText (parametersPath directory) text).run.run t = (.ok a, u)) :
    (t.Crowded (configPath directory) ∧
      (writeText (configPath directory) configText).run.run u = (.error .alreadyThere, u)) ∨
    (t.lookUp (configPath directory) = .ok .directory ∧
      (writeText (configPath directory) configText).run.run u = (.error .isDirectory, u)) ∨
    ∃ t' content, Utf8.encode? configText = some content ∧
      (writeText (configPath directory) configText).run.run u = (.ok (), t') ∧
        Replaced u t' (configPath directory) content := by
  obtain ⟨p, hp, -⟩ := FileTree.accessible_of_writeText hwritten
  obtain ⟨_, old, -, -, hreplaced⟩ :=
    (FileTree.writesAt_writeText t (parametersPath directory) text).done _ _ hwritten
  have hshort : (Text.ofString "prover_config.json").length ≤
      (FileName.bytes (Text.ofString "prover_parameters.json")).length := by decide
  by_cases hcrowded : t.Crowded (configPath directory)
  · refine .inl ⟨hcrowded, FileTree.writeText_of_crowded ?_ ?_⟩
    · exact hreplaced.crowded hp.place (ne_temporaryAt hp) hcrowded
    · obtain ⟨q, hq⟩ := FileTree.resolve_temporaryAt hp (by decide) hshort 0
      exact ⟨q, hreplaced.sameDirectories.resolve.2 hq⟩
  · obtain ⟨content, hcontent⟩ := exists_encode?_configText
    have hconfig := hp.beside (by decide) (by decide) hshort hcrowded
    have hconfig' := hconfig.of_replaced hreplaced hp.place (ne_temporaryAt hp)
    by_cases hdirectory : u.node? (p.dropLast ++ [Text.ofString "prover_config.json"]) =
        some .directory
    · exact .inr (.inl ⟨FileTree.lookUp_eq_ok_iff.2 ⟨_, hconfig.place,
        (hreplaced.sameDirectories _).1 hdirectory⟩,
        hconfig'.writeText_directory hcontent hdirectory⟩)
    · obtain ⟨t', hrun, hreplaced'⟩ := hconfig'.writeText_file hcontent hdirectory
      exact .inr (.inr ⟨t', content, hcontent, hrun, hreplaced'⟩)

theorem complete_of_replaced {content : List UInt8}
    (hparameters : ReplacesParameters t u steps directory)
    (hcontent : Utf8.encode? configText = some content)
    (hconfig : Replaced u t' (configPath directory) content) : Complete t t' steps directory := by
  obtain ⟨p, old, hp, hold, hreplaced⟩ := hparameters
  obtain ⟨q, hq, -, hnode⟩ := hreplaced.only
  obtain ⟨r, hr, -, hnode'⟩ := hconfig.only
  refine ⟨⟨p, old, hp, hold, ?_⟩, ⟨content, hcontent, hconfig.bytesAt⟩, fun s hs => ?_⟩
  · exact FileTree.bytesAt_eq_ok.2
      (hconfig.lookUp_of_ne (resolve_parametersPath_ne hr) hreplaced.found)
  · rw [hnode', hnode] at hs
    by_cases hrs : r = s
    · subst hrs
      exact .inr (hreplaced.sameDirectories.resolve.1 hr)
    · rw [if_neg hrs] at hs
      by_cases hqs : q = s
      · subst hqs
        exact .inl hq
      · exact absurd (if_neg hqs) hs

/-- The two files are written one after the other. A failure leaves all as it is, or the second
file is the only one that is not written, over a directory that stands in its place or for want of
a place for its temporary file. -/
theorem writeFiles_outcome (t : FileTree) (steps : Int) (directory : Path) :
    Outcome t steps directory ((writeFiles steps directory).run.run t) := by
  have hfiles : writeFiles steps directory = (do
    let text ← parametersText steps
    writeText (parametersPath directory) text
    writeText (configPath directory) configText
    return [parametersPath directory, configPath directory]) := rfl
  rw [hfiles, run_bind, run_lift]
  cases htext : parametersText steps with
  | error f => exact .refused htext
  | ok text =>
    obtain ⟨p, hp, hdocument⟩ := parametersText_eq_ok.1 htext
    dsimp only
    rw [run_bind]
    have hfirst := FileTree.writesAt_writeText t (parametersPath directory) text
    rcases hrun : (writeText (parametersPath directory) text).run.run t with ⟨f | a, u⟩
    · cases hfirst.failed _ _ hrun
      exact .unwritten htext hrun
    · obtain ⟨_, content, rfl, hcontent, hreplaced⟩ := hfirst.done _ _ hrun
      have hparameters : ReplacesParameters t u steps directory :=
        ⟨p, content, hp, hdocument ▸ hcontent, hreplaced⟩
      dsimp only
      rw [run_bind]
      obtain ⟨hcrowded, hconfig⟩ | ⟨hdirectory, hconfig⟩ | ⟨t', content', hcontent', hconfig,
        hreplaced'⟩ := writeText_configPath hrun
      · rw [hconfig]
        exact .crowded hparameters hcrowded
      · rw [hconfig]
        exact .separated hparameters hdirectory
      · rw [hconfig]
        exact .complete (complete_of_replaced hparameters hcontent' hreplaced')

/-- Parameters are written beside a directory in the place of the configuration. -/
def separatingTree : FileTree :=
  ⟨[(["d"], .directory), (["d", "prover_config.json"], .directory)]⟩

theorem parameters_left_behind :
    ((writeFiles 32768 ["d"]).run.run separatingTree).1 = .error .isDirectory ∧
      separatingTree.node? ["d", "prover_parameters.json"] = none ∧
        ((writeFiles 32768 ["d"]).run.run separatingTree).2.node?
          ["d", "prover_parameters.json"] ≠ none := by
  decide +kernel

end StarkReplay.Prover
