import AgentDocs.Proofs.Build.Repair

/-!
# Comparing and writing

A comparison foretells what a run that writes does to the same artifact, in whatever state its path
is: both look at the path by the same reading. Behind a run that writes a comparison finds the
artifact up to date, except where the path crosses itself: there the file takes the place of a link
that the path needs, and both stop at it.

* `settle_upToDate_iff`, `settle_unchanged_iff`: both say that the artifact is read at its path.
* `settle_of_error`, `settle_of_drifted`: what comes of the other answers of a comparison.
* `settle_agrees`: all of it, for every artifact.
-/

namespace AgentDocs

open AgentDocs.Files AgentDocs.Files.Workspace

/-! ## One reading -/

section
variable {w v : Workspace} {path : PathName} {a : String} {e : FileError}

theorem compare_eq_upToDate_iff {existing : Option String} :
    compare existing a = .upToDate ↔ existing = some a := by
  cases existing with
  | none => simp [compare]
  | some text =>
    by_cases h : text = a
    · simp [compare, h]
    · simp [compare, h]

theorem settle_upToDate_iff :
    (settle w .validate path a).2 = .ok .upToDate ↔
      w.readNormalized? path = .ok (some a) := by
  cases hr : w.readNormalized? path with
  | error e => simp [settle, hr, Except.map]
  | ok existing => simp [settle, hr, Except.map, compare_eq_upToDate_iff]

theorem settle_unchanged_iff :
    settle w .sync path a = (w, .ok .unchanged) ↔ w.readNormalized? path = .ok (some a) := by
  refine ⟨fun h => ?_, settle_of_read⟩
  cases hr : w.readNormalized? path with
  | error e => simp [settle, hr] at h
  | ok existing =>
    by_cases he : existing = some a
    · rw [he]
    · rcases hw : w.write path a.toUTF8 with ⟨v, e | ⟨⟩⟩
      · simp only [settle, hr, if_neg he, hw] at h
        cases h
      · simp only [settle, hr, if_neg he, hw] at h
        cases h

theorem settle_of_readError (mode : Mode) (hm : mode ≠ .preview)
    (h : w.readNormalized? path = .error e) : settle w mode path a = (w, .error e) := by
  cases mode with
  | preview => exact absurd rfl hm
  | validate => simp only [settle, h, Except.map]
  | sync => simp only [settle, h]

theorem settle_of_error (h : (settle w .validate path a).2 = .error e) :
    settle w .sync path a = (w, .error e) := by
  cases hr : w.readNormalized? path with
  | ok existing => simp [settle, hr, Except.map] at h
  | error e' =>
    simp only [settle, hr, Except.map, Except.error.injEq] at h
    subst h
    exact settle_of_readError .sync (by simp) hr

/-- An artifact `a` that differs is written, and nothing but the writing can fail. -/
theorem settle_of_drifted {drift : Drift}
    (h : (settle w .validate path a).2 = .ok (.drifted drift)) :
    (∃ v, w.write path a.toUTF8 = (v, .ok ()) ∧ settle w .sync path a = (v, .ok .written)) ∨
      ∃ v e, w.write path a.toUTF8 = (v, .error e) ∧ settle w .sync path a = (v, .error e) := by
  cases hr : w.readNormalized? path with
  | error e => simp [settle, hr, Except.map] at h
  | ok existing =>
    have hne : existing ≠ some a := by
      rintro rfl
      simp [settle, hr, Except.map, compare] at h
    rcases hw : w.write path a.toUTF8 with ⟨v, e | ⟨⟩⟩
    · exact .inr ⟨v, e, rfl, by simp only [settle, hr, if_neg hne, hw]⟩
    · exact .inl ⟨v, rfl, by simp only [settle, hr, if_neg hne, hw]⟩

end

/-- Comparing and writing agree on every artifact, in every workspace. A comparison finds it up to
date exactly where a run that writes leaves everything as it is; where the comparison fails, that
run fails in the same way and changes nothing; where the comparison reports a difference, that run
writes the artifact or fails in writing. Behind a run that writes without a failure, the comparison
finds the artifact up to date and the next run leaves it unchanged, if the path does not cross
itself. If it does, both stop at the file that took the place of a link on the way to it. -/
theorem settle_agrees (w : Workspace) (out : PathName) (name : String) (d : AgentDocument) :
    ((settle w .validate (agentPath out name) d.artifact).2 = .ok .upToDate ↔
      settle w .sync (agentPath out name) d.artifact = (w, .ok .unchanged)) ∧
    (∀ e, (settle w .validate (agentPath out name) d.artifact).2 = .error e →
      settle w .sync (agentPath out name) d.artifact = (w, .error e)) ∧
    (∀ drift, (settle w .validate (agentPath out name) d.artifact).2 = .ok (.drifted drift) →
      (∃ v, w.write (agentPath out name) d.artifact.toUTF8 = (v, .ok ()) ∧
        settle w .sync (agentPath out name) d.artifact = (v, .ok .written)) ∨
      ∃ v e, w.write (agentPath out name) d.artifact.toUTF8 = (v, .error e) ∧
        settle w .sync (agentPath out name) d.artifact = (v, .error e)) ∧
    ∀ v action, settle w .sync (agentPath out name) d.artifact = (v, .ok action) →
      (¬ w.CrossesItself (agentPath out name) →
        settle v .validate (agentPath out name) d.artifact = (v, .ok .upToDate) ∧
        settle v .sync (agentPath out name) d.artifact = (v, .ok .unchanged)) ∧
      (w.CrossesItself (agentPath out name) →
        settle v .validate (agentPath out name) d.artifact = (v, .error .notDirectory) ∧
        settle v .sync (agentPath out name) d.artifact = (v, .error .notDirectory)) := by
  refine ⟨settle_upToDate_iff.trans settle_unchanged_iff.symm, fun e => settle_of_error,
    fun drift => settle_of_drifted, fun v action h => ?_⟩
  obtain ⟨q, f, hpath⟩ := exists_join_agentPath out name
  rw [hpath] at h ⊢
  obtain ⟨hread, hstopped⟩ := readNormalized?_of_settle (normalized_artifact d) h
  refine ⟨fun hc => ⟨?_, settle_of_read (hread hc)⟩, fun hc => ⟨?_, ?_⟩⟩
  · exact Prod.ext rfl (settle_upToDate_iff.2 (hread hc))
  · exact settle_of_readError .validate (by simp) (hstopped hc)
  · exact settle_of_readError .sync (by simp) (hstopped hc)

/-! ## A link to nothing -/

/-- A workspace in which the artifact of the one template is a link that leads nowhere. -/
def danglingWorkspace : Workspace := windingWorkspace (some (.link "nowhere"))

theorem not_crossesItself_dangling :
    ¬ danglingWorkspace.CrossesItself (agentPath shallow.outputRoot "pm-a") := by
  rintro ⟨v, l, f, target, rfl, hlast, -, hvisits⟩
  have hplace : (danglingWorkspace.makeDirectories
      (directoriesOf (agentPath shallow.outputRoot "pm-a"))).1.lastStep?
        (agentPath shallow.outputRoot "pm-a") =
          .ok (some (detourDirectory, .child missingFile)) := by decide +kernel
  have hway : missingFile :: detourDirectory ∉
      (danglingWorkspace.makeDirectories
        (directoriesOf (agentPath shallow.outputRoot "pm-a"))).1.visits
          (agentPath shallow.outputRoot "pm-a").moves.dropLast := by decide +kernel
  obtain ⟨rfl, hf⟩ := Prod.mk.inj (Option.some.inj (Except.ok.inj (hplace.symm.trans hlast)))
  obtain rfl := Step.child.inj hf
  exact hway hvisits

theorem settle_agrees_dangling :
    (settle danglingWorkspace .validate (agentPath shallow.outputRoot "pm-a")
        (detourDocument "a").artifact).2 = .ok (.drifted .missing) ∧
      ¬ danglingWorkspace.CrossesItself (agentPath shallow.outputRoot "pm-a") ∧
      ∃ v, settle danglingWorkspace .sync (agentPath shallow.outputRoot "pm-a")
          (detourDocument "a").artifact = (v, .ok .written) ∧
        settle v .validate (agentPath shallow.outputRoot "pm-a") (detourDocument "a").artifact =
          (v, .ok .upToDate) ∧
        settle v .sync (agentPath shallow.outputRoot "pm-a") (detourDocument "a").artifact =
          (v, .ok .unchanged) := by
  have hmissing : (settle danglingWorkspace .validate (agentPath shallow.outputRoot "pm-a")
      (detourDocument "a").artifact).2 = .ok (.drifted .missing) := by decide +kernel
  have hwrite : (danglingWorkspace.write (agentPath shallow.outputRoot "pm-a")
      (detourDocument "a").artifact.toUTF8).2 = .ok () := by decide +kernel
  obtain ⟨-, -, hdrifted, hafter⟩ :=
    settle_agrees danglingWorkspace shallow.outputRoot "pm-a" (detourDocument "a")
  refine ⟨hmissing, not_crossesItself_dangling, ?_⟩
  rcases hdrifted .missing hmissing with ⟨v, -, hv⟩ | ⟨v, e, he, -⟩
  · exact ⟨v, hv, (hafter v .written hv).1 not_crossesItself_dangling⟩
  · rw [he] at hwrite
    cases hwrite

/-! ## A path that crosses itself -/

theorem crossesItself_throughLink :
    linkWorkspace.CrossesItself (agentPath throughLink.outputRoot "pm-a") := by
  have hplace : (linkWorkspace.makeDirectories
      (directoriesOf (agentPath throughLink.outputRoot "pm-a"))).1.lastStep?
        (agentPath throughLink.outputRoot "pm-a") =
          .ok (some (detourDirectory, .child missingFile)) := by decide +kernel
  exact ⟨_, detourDirectory, missingFile, "..", rfl, hplace, by decide +kernel, by decide +kernel⟩

/-- The artifact of a discovered template is written without a failure, and neither a comparison nor
the next run that writes gets to it: the written file took the place of the link on the way. -/
theorem settle_stops_itself :
    throughLink.settings.isAccepted = true ∧
      Discovery.search linkWorkspace throughLink.root throughLink.settings =
        .ok windingDiscovery ∧
      throughLink.compile linkWorkspace (detourTemplate "a") = .ok (detourDocument "a") ∧
      ∃ v, settle linkWorkspace .sync (agentPath throughLink.outputRoot "pm-a")
          (detourDocument "a").artifact = (v, .ok .written) ∧
        (settle v .validate (agentPath throughLink.outputRoot "pm-a")
          (detourDocument "a").artifact).2 ≠ .ok .upToDate ∧
        (settle v .sync (agentPath throughLink.outputRoot "pm-a")
          (detourDocument "a").artifact).2 ≠ .ok .unchanged := by
  have hwritten : (settle linkWorkspace .sync (agentPath throughLink.outputRoot "pm-a")
      (detourDocument "a").artifact).2 = .ok .written := by decide +kernel
  rcases hs : settle linkWorkspace .sync (agentPath throughLink.outputRoot "pm-a")
    (detourDocument "a").artifact with ⟨v, r⟩
  rw [hs] at hwritten
  obtain rfl : r = .ok .written := hwritten
  obtain ⟨q, f, hpath⟩ := exists_join_agentPath throughLink.outputRoot "pm-a"
  have hcross := crossesItself_throughLink
  rw [hpath] at hs hcross ⊢
  have hstopped := (readNormalized?_of_settle (normalized_artifact _) hs).2 hcross
  refine ⟨by decide +kernel, by decide +kernel, compile_winding _ _, v, rfl, ?_, ?_⟩
  · rw [settle_of_readError .validate (by simp) hstopped]
    simp
  · rw [settle_of_readError .sync (by simp) hstopped]
    simp

end AgentDocs
