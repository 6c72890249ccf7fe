import AgentDocs.Proofs.Build.Order
import AgentDocs.Proofs.Files.Place

/-!
# Damaged artifacts

What comes of an artifact whose file is missing, or holds anything at all. Where there is a place
for the file, a comparison tells a missing file from a modified one and the next run that writes
makes it good, except where the bytes of the file are no text: then both stop at reading it.

* `exists_join_agentPath`: the path of an agent is that of a file in a directory.
* `Judged`, `settle_validate_of_hasPlace`: what a comparison says.
* `settle_sync_of_hasPlace`: what the next run that writes leaves.
* `settle_repairs`: both, and what comes of bytes that are no text.
-/

namespace AgentDocs.Files

/-! ## Paths of agents -/

/-- The bytes up to their last separator, and those behind it. -/
theorem exists_split_last (bytes : List UInt8) :
    ∃ before last, bytes = before ++ last ∧ separator ∉ last ∧
      (before = [] ∨ before.getLast? = some separator) := by
  induction bytes with
  | nil => exact ⟨[], [], rfl, by simp, .inl rfl⟩
  | cons c rest ih =>
    obtain ⟨before, last, rfl, hlast, rfl | hbefore⟩ := ih
    · by_cases hc : c = separator
      · exact ⟨[separator], last, by rw [hc]; rfl, hlast, .inr rfl⟩
      · exact ⟨[], c :: last, rfl, by simp [hlast, Ne.symm hc], .inl rfl⟩
    · refine ⟨c :: before, last, rfl, hlast, .inr ?_⟩
      cases before with
      | nil => cases hbefore
      | cons b before => rw [List.getLast?_cons_cons, hbefore]

/-- The path of the agent `name` is the path of a file in some directory, whatever the agent is
called. -/
theorem exists_join_agentPath (out : PathName) (name : String) :
    ∃ (q : PathName) (f : FileName), agentPath out name = q.join f.raw := by
  have hsuffix : ∃ before, (agentPath out name).raw.bytes =
      before ++ (RawText.ofString agentSuffix).bytes := by
    unfold agentPath PathName.join fileName
    rw [RawText.ofString_append]
    split
    · exact ⟨Text.bytes name, rfl⟩
    · split
      · exact ⟨out.raw.bytes ++ Text.bytes name, by simp⟩
      · exact ⟨out.raw.bytes ++ separator :: Text.bytes name, by simp⟩
  obtain ⟨before, hbefore⟩ := hsuffix
  obtain ⟨directory, last, rfl, hlast, hdirectory⟩ := exists_split_last before
  let f : FileName := ⟨⟨last ++ (RawText.ofString agentSuffix).bytes⟩,
    isFileName_of_append rfl hlast (by decide) (by decide)⟩
  have hbytes : (agentPath out name).raw.bytes =
      ((PathName.mk ⟨directory⟩).join f.raw).raw.bytes := by
    rw [PathName.bytes_join, if_pos (by simpa [PathName.isClosed] using hdirectory), hbefore,
      List.append_assoc]
  exact ⟨_, f, congrArg PathName.mk (RawText.ext_bytes hbytes)⟩

end AgentDocs.Files

namespace AgentDocs

open AgentDocs.Files AgentDocs.Files.Workspace

/-! ## Comparisons -/

/-- What a comparison is to say of the file at a path. -/
structure Judged (w : Workspace) (path : PathName) (artifact : String) (action : Action) :
    Prop where
  compared : action = .upToDate ∨ ∃ drift, action = .drifted drift
  missing : action = .drifted .missing ↔ w.entry? path = none
  modified : action = .drifted .modified ↔
    ∃ bytes text, w.contents? path = some bytes ∧ normalizedText? bytes = some text ∧
      text ≠ artifact
  upToDate : action = .upToDate ↔
    ∃ bytes, w.contents? path = some bytes ∧ normalizedText? bytes = some artifact

/-- The file that a path leads to holds bytes that are no text. -/
def Garbled (w : Workspace) (path : PathName) : Prop :=
  ∃ bytes, w.contents? path = some bytes ∧ normalizedText? bytes = none

section
variable {w : Workspace} {path : PathName} {a : String} {bytes : ByteArray}

theorem judged_of_notFound (h : w.resolve path = .error .notFound) :
    Judged w path a (compare none a) := by
  have he : w.entry? path = none := by simp [h, entry?]
  have hc : w.contents? path = none := by simp [contents?, he]
  constructor <;> simp [compare, he, hc]

theorem judged_of_contents? {text : String} (h : w.contents? path = some bytes)
    (ht : normalizedText? bytes = some text) : Judged w path a (compare (some text) a) := by
  have he : w.entry? path ≠ none := by
    intro he
    simp [contents?, he] at h
  by_cases hta : text = a
  · constructor <;> simp [compare, h, ht, hta, he]
  · constructor <;> simp [compare, h, ht, hta, he]

theorem readNormalized?_of_garbled (h : Garbled w path) :
    w.readNormalized? path = .error .invalidEncoding := by
  obtain ⟨bytes, hb, hn⟩ := h
  rw [readNormalized?_of_contents? hb, hn]

/-- Bytes that are no text stop a comparison and a run that writes alike. -/
theorem settle_of_garbled {mode : Mode} (hm : mode ≠ .preview) (h : Garbled w path) :
    settle w mode path a = (w, .error .invalidEncoding) := by
  have hr := readNormalized?_of_garbled h
  cases mode with
  | preview => exact absurd rfl hm
  | validate => simp only [settle, hr, Except.map]
  | sync => simp only [settle, hr]

variable {q : PathName} {f : FileName}

/-- What is read where there is a place for a file that is not `Garbled`, and what a comparison is
to say of it. -/
theorem Files.Workspace.HasPlace.read (h : w.HasPlace (q.join f.raw))
    (hg : ¬ Garbled w (q.join f.raw)) :
    ∃ existing, w.readNormalized? (q.join f.raw) = .ok existing ∧
      Judged w (q.join f.raw) a (compare existing a) := by
  rcases h.resolve with hn | hfile
  · exact ⟨none, readNormalized?_of_notFound hn, judged_of_notFound hn⟩
  · obtain ⟨bytes, hb⟩ := isFile_iff_contents?.1 hfile
    cases ht : normalizedText? bytes with
    | none => exact absurd ⟨bytes, hb, ht⟩ hg
    | some text =>
      refine ⟨some text, ?_, judged_of_contents? hb ht⟩
      rw [readNormalized?_of_contents? hb, ht]

theorem settle_validate_of_hasPlace (h : w.HasPlace (q.join f.raw))
    (hg : ¬ Garbled w (q.join f.raw)) :
    ∃ action, settle w .validate (q.join f.raw) a = (w, .ok action) ∧
      Judged w (q.join f.raw) a action := by
  obtain ⟨existing, hr, hj⟩ := h.read hg
  exact ⟨_, by simp only [settle, hr, Except.map], hj⟩

/-! ## Repairs -/

theorem settle_sync_of_hasPlace (h : w.HasPlace (q.join f.raw))
    (hg : ¬ Garbled w (q.join f.raw)) (ha : Text.normalized a = a) :
    ∃ v action, settle w .sync (q.join f.raw) a = (v, .ok action) ∧
      ∃ bytes, v.contents? (q.join f.raw) = some bytes ∧ normalizedText? bytes = some a := by
  obtain ⟨existing, hr, hj⟩ := h.read (a := a) hg
  by_cases he : existing = some a
  · subst he
    have hupToDate := hj.upToDate.1 (by simp [compare])
    exact ⟨w, .unchanged, settle_of_read hr, hupToDate⟩
  · obtain ⟨v, hw, hv⟩ := h.write a.toUTF8
    refine ⟨v, .written, ?_, a.toUTF8, hv, ?_⟩
    · simp only [settle, hr, if_neg he, hw]
    · rw [normalizedText?, fromUTF8?_toUTF8, Option.map_some, ha]

end

/-- Drift is classified and repaired. Wherever there is a place for the file of an agent, whatever
the agent is called, a comparison with any document says whether the file is missing, modified or up
to date, and settling the document leaves a file that is read as its artifact. The one exception are
files whose bytes are no text: they stop both, and nothing changes. -/
theorem settle_repairs {w : Workspace} {out : PathName} {name : String} (d : AgentDocument)
    (h : w.HasPlace (agentPath out name)) :
    (¬ Garbled w (agentPath out name) →
      (∃ action, settle w .validate (agentPath out name) d.artifact = (w, .ok action) ∧
        Judged w (agentPath out name) d.artifact action) ∧
      ∃ v action, settle w .sync (agentPath out name) d.artifact = (v, .ok action) ∧
        ∃ bytes, v.contents? (agentPath out name) = some bytes ∧
          normalizedText? bytes = some d.artifact) ∧
    (Garbled w (agentPath out name) →
      settle w .validate (agentPath out name) d.artifact = (w, .error .invalidEncoding) ∧
      settle w .sync (agentPath out name) d.artifact = (w, .error .invalidEncoding)) := by
  obtain ⟨q, f, hpath⟩ := exists_join_agentPath out name
  rw [hpath] at h ⊢
  refine ⟨fun hg => ⟨settle_validate_of_hasPlace h hg, ?_⟩, fun hg => ⟨?_, ?_⟩⟩
  · exact settle_sync_of_hasPlace h hg (normalized_artifact d)
  · exact settle_of_garbled (by simp) hg
  · exact settle_of_garbled (by simp) hg

theorem hasPlace_of_missing :
    (windingWorkspace none).HasPlace (agentPath (winding "new/agents").outputRoot "pm-a") := by
  have hdir : ((windingWorkspace none).makeDirectories
      (directoriesOf (agentPath (winding "new/agents").outputRoot "pm-a"))).1.lastStep?
        (agentPath (winding "new/agents").outputRoot "pm-a") =
      .ok (some ([⟨"agents", by decide⟩, ⟨"new", by decide⟩], .child missingFile)) := by
    decide +kernel
  exact hasPlace_of_makeDirectories (by decide +kernel) hdir (by decide +kernel)
    (by decide +kernel)

theorem settle_repairs_missing :
    (windingWorkspace none).HasPlace (agentPath (winding "new/agents").outputRoot "pm-a") ∧
      settle (windingWorkspace none) .validate
        (agentPath (winding "new/agents").outputRoot "pm-a") (detourDocument "a").artifact =
          (windingWorkspace none, .ok (.drifted .missing)) ∧
      ∃ v action, settle (windingWorkspace none) .sync
          (agentPath (winding "new/agents").outputRoot "pm-a") (detourDocument "a").artifact =
            (v, .ok action) ∧
        ∃ bytes, v.contents? (agentPath (winding "new/agents").outputRoot "pm-a") = some bytes ∧
          normalizedText? bytes = some (detourDocument "a").artifact := by
  have hnone : entry? (windingWorkspace none)
      (agentPath (winding "new/agents").outputRoot "pm-a") = none := by decide +kernel
  have hg : ¬ Garbled (windingWorkspace none)
      (agentPath (winding "new/agents").outputRoot "pm-a") := by
    rintro ⟨bytes, hb, -⟩
    simp [contents?, hnone] at hb
  obtain ⟨⟨action, hvalidate, hj⟩, hsync⟩ :=
    (settle_repairs (detourDocument "a") hasPlace_of_missing).1 hg
  rw [hj.missing.2 hnone] at hvalidate
  exact ⟨hasPlace_of_missing, hvalidate, hsync⟩

/-! ## An artifact that is no text -/

/-- A workspace in which the artifact of the one template is a single byte that is no text. -/
def garbledWorkspace : Workspace := windingWorkspace (some (.file ⟨#[255]⟩))

theorem garbled_artifact : Garbled garbledWorkspace (agentPath shallow.outputRoot "pm-a") :=
  ⟨⟨#[255]⟩, by decide +kernel, by decide +kernel⟩

theorem run_garbled {mode : Mode} (hm : mode ≠ .preview) :
    (shallow.run garbledWorkspace windingDiscovery ⟨mode, false, .all⟩).1 = garbledWorkspace ∧
      (shallow.run garbledWorkspace windingDiscovery ⟨mode, false, .all⟩).2.outcomes = [] ∧
      (shallow.run garbledWorkspace windingDiscovery ⟨mode, false, .all⟩).2.failures =
        [⟨"pm-a", .file .invalidEncoding⟩] := by
  have hname : (detourTemplate "a").identity.name = "pm-a" := by decide
  have hsettle : settle garbledWorkspace mode
      (agentPath shallow.outputRoot (detourTemplate "a").identity.name)
        (detourDocument "a").artifact = (garbledWorkspace, .error .invalidEncoding) := by
    rw [hname]
    exact settle_of_garbled hm garbled_artifact
  have hts : windingDiscovery.selectedTemplates .all shallow.registry = [detourTemplate "a"] := rfl
  have hp := processed_of_single (o := ⟨mode, false, .all⟩) hts (compile_first _) hsettle
  refine ⟨?_, ?_, ?_⟩
  · rw [Project.run_fst, Project.swept_eq hm, sweep_of_not_force, hp]
  · rw [Project.run_outcomes, hp]
    rfl
  · rw [Project.run_failures, Project.swept_eq hm, hp,
      sweep_failures_of_not_force (listable_of_unsealed rfl), ← hname]
    rfl

/-- A discovered project with ordinary settings whose one template compiles and whose artifact is a
regular file: a comparison reports no drift but a failure, and a run that writes leaves the file as
it is. -/
theorem run_stops :
    shallow.settings.isAccepted = true ∧
      Discovery.search garbledWorkspace shallow.root shallow.settings = .ok windingDiscovery ∧
      shallow.compile garbledWorkspace (detourTemplate "a") = .ok (detourDocument "a") ∧
      garbledWorkspace.HasPlace (agentPath shallow.outputRoot "pm-a") ∧
      garbledWorkspace.contents? (agentPath shallow.outputRoot "pm-a") = some ⟨#[255]⟩ ∧
      ((shallow.run garbledWorkspace windingDiscovery ⟨.validate, false, .all⟩).2.drifted = [] ∧
        (shallow.run garbledWorkspace windingDiscovery ⟨.validate, false, .all⟩).2.failures =
          [⟨"pm-a", .file .invalidEncoding⟩]) ∧
      (shallow.run garbledWorkspace windingDiscovery ⟨.sync, false, .all⟩).2.failures =
        [⟨"pm-a", .file .invalidEncoding⟩] ∧
      (shallow.run garbledWorkspace windingDiscovery ⟨.sync, false, .all⟩).1.contents?
        (agentPath shallow.outputRoot "pm-a") = some ⟨#[255]⟩ := by
  have hcontents : garbledWorkspace.contents? (agentPath shallow.outputRoot "pm-a") =
      some ⟨#[255]⟩ := by decide +kernel
  have hplace : garbledWorkspace.HasPlace (agentPath shallow.outputRoot "pm-a") :=
    hasPlace_of_makeDirectories (l := detourDirectory) (f := missingFile) (by decide +kernel)
      (by decide +kernel) (by decide +kernel) (by decide +kernel)
  obtain ⟨-, houtcomes, hvalidate⟩ := run_garbled (show Mode.validate ≠ .preview by simp)
  obtain ⟨hsame, -, hsync⟩ := run_garbled (show Mode.sync ≠ .preview by simp)
  refine ⟨by decide +kernel, by decide +kernel, compile_first _, hplace, hcontents,
    ⟨?_, hvalidate⟩, hsync, ?_⟩
  · rw [Project.run_drifted, houtcomes]
    rfl
  · rw [hsame, hcontents]

end AgentDocs
