import StarkReplay.Proofs.Format

/-!
Calldata that tells where it ends. The configuration at its front fixes how many layers there are,
and the layers have to be all that stands between the sections and the version tag. So an accepted
proof is not the front part of another one, whatever the layouts of the two are.
-/
namespace StarkReplay

/-- So many openings at the front of as many openings are all of them. -/
theorem Opening.eq_of_flatMap_append_eq {os os' : List Opening} {left : List Int}
    (hlength : os.length = os'.length)
    (h : os.flatMap flat ++ left = os'.flatMap flat) : os = os' ∧ left = [] := by
  induction os generalizing os' with
  | nil =>
    obtain rfl := List.length_eq_zero_iff.1 hlength.symm
    exact ⟨rfl, h⟩
  | cons o os ih =>
    cases os' with
    | nil => cases hlength
    | cons o' os' =>
      rw [List.flatMap_cons, List.flatMap_cons, List.append_assoc] at h
      obtain ⟨rfl, hrest⟩ := Opening.reads.eq_of_append_eq trivial trivial h
      obtain ⟨rfl, hleft⟩ := ih (Nat.succ.inj hlength) hrest
      exact ⟨rfl, hleft⟩

namespace Replay

/-- Parts with as many layers as they are configured for, the body of one in front of that of the
other, are the same. -/
theorem Parts.eq_of_body_prefix {p q : Parts}
    (hp : (p.layers.length : Int) = p.sections.config.layers)
    (hq : (q.layers.length : Int) = q.sections.config.layers) (h : p.body <+: q.body) : p = q := by
  obtain ⟨left, h⟩ := h
  rw [body, body, List.append_assoc] at h
  obtain ⟨hsections, hlayers⟩ := Sections.reads.eq_of_append_eq trivial trivial h
  have hlength : p.layers.length = q.layers.length := by
    rw [hsections, ← hq] at hp
    exact Int.ofNat.inj hp
  obtain ⟨heq, -⟩ := Opening.eq_of_flatMap_append_eq hlength hlayers
  cases p
  cases q
  simp only at hsections heq
  rw [hsections, heq]

/-- Of two accepted proofs neither is the front part of the other, with their version tags or
without them, and none comes from the other by an insertion in front of the tag. -/
theorem verify_prefix_free {H : Hash} {name name' : Text} {calldata calldata' : List Int}
    {t t' : Trace} (h : verify H name calldata = .ok t) (h' : verify H name' calldata' = .ok t')
    (hne : calldata ≠ calldata') :
    ¬calldata.dropLast <+: calldata'.dropLast ∧ ¬calldata <+: calldata' ∧
      ∀ inserted, calldata' ≠ calldata.dropLast ++ inserted ++ [Flat.versionTag] := by
  obtain ⟨_, _, p, -, -, rfl, hp, -⟩ := verify_sound h
  obtain ⟨_, _, q, -, -, rfl, hq, -⟩ := verify_sound h'
  have hbodies : ¬p.body <+: q.body := by
    intro hprefix
    exact hne (congrArg Parts.calldata (Parts.eq_of_body_prefix hp.layers hq.layers hprefix))
  rw [Parts.calldata_eq_body, Parts.calldata_eq_body] at hne ⊢
  simp only [List.dropLast_concat]
  refine ⟨hbodies, ?_, ?_⟩
  · intro hprefix
    rcases List.prefix_concat_iff.1 hprefix with heq | hprefix
    · exact hne heq
    · exact hbodies ((List.prefix_append _ _).trans hprefix)
  · intro inserted heq
    exact hbodies ⟨inserted, (List.append_cancel_right heq).symm⟩

theorem verify_prefix_free_small :
    verify smallHash Layout.recursive.name (Parts.small [9]).calldata = .ok (.small [9]) ∧
      verify smallHash Layout.recursive.name (Parts.small [106]).calldata = .ok (.small [106]) ∧
        (Parts.small [9]).calldata ≠ (Parts.small [106]).calldata ∧
          ¬(Parts.small [9]).calldata.dropLast <+: (Parts.small [106]).calldata.dropLast ∧
            ¬(Parts.small [9]).calldata <+: (Parts.small [106]).calldata ∧
              ∀ inserted, (Parts.small [106]).calldata ≠
                (Parts.small [9]).calldata.dropLast ++ inserted ++ [Flat.versionTag] := by
  have h : verify smallHash Layout.recursive.name (Parts.small [9]).calldata =
      .ok (.small [9]) := by decide +kernel
  have h' : verify smallHash Layout.recursive.name (Parts.small [106]).calldata =
      .ok (.small [106]) := by decide +kernel
  have hne : (Parts.small [9]).calldata ≠ (Parts.small [106]).calldata := by decide +kernel
  exact ⟨h, h', hne, verify_prefix_free h h' hne⟩

end Replay

end StarkReplay
