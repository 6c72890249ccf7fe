import AgentDocs.Proofs.Agent.Enclosed
import AgentDocs.Proofs.Build.Stale

/-!
# Templates with one artifact

Templates whose names are shown alike have one identity, and with it one artifact. A run settles it
for each of them in turn, so the last one stands (`processAll_last`) and the others are found to have
drifted.

* `artifact_eq_iff`: artifacts under one header differ as their bodies do.
* `process_over`: an artifact takes the place of another one.
* `run_lookalike`: a run on two templates that are shown alike.
* `lookalike_drifts`: a comparison after it.
-/

namespace AgentDocs

open AgentDocs.Files AgentDocs.Files.Workspace AgentDocs.Text

/-! ## Templates one over the other -/

/-- The documents `d` and `e` with one header have one artifact exactly where their bodies are
normalized alike. -/
theorem artifact_eq_iff {d e : AgentDocument} (h : d.header = e.header) :
    d.artifact = e.artifact ↔ normalizeBreaks d.body = normalizeBreaks e.body := by
  rw [AgentDocument.artifact, AgentDocument.artifact, AgentDocument.render, AgentDocument.render,
    String.ofList_inj, AgentHeader.normalizeBreaks_render_append,
    AgentHeader.normalizeBreaks_render_append, h, List.append_right_inj]

theorem artifact_ne_empty (d : AgentDocument) : d.artifact ≠ "" := by
  intro h
  have hnil : normalizeBreaks d.render = [] := String.ofList_eq_empty_iff.1 h
  rw [AgentDocument.render, AgentHeader.normalizeBreaks_render_append] at hnil
  cases hnil

theorem compile_plainText (p : Project) (w : Workspace) (t : Template) (h : '{' ∉ t.text.toList) :
    p.compile w t = .ok (.compile p.handoffs p.registry t.identity t.text.toList) := by
  have h : Template.hasUnresolved t.text.toList = false := Template.hasUnresolved_of_notMem h
  rw [Project.compile, Template.expand_of_hasUnresolved h]
  rfl

section
variable {p : Project} {w : Workspace} {f : FileName} {a : String} {t : Template}
  {d : AgentDocument}

/-- A template writes over the artifact `a`, which differs from its own. -/
theorem process_over (hs : w.Stands p.outputRoot f a) (hf : f.raw = fileName t.identity.name)
    (hshort : f.isTooLong = false) (hc : p.compile w t = .ok d) (hne : a ≠ d.artifact) :
    ∃ l, w.directoryAt p.outputRoot.way = .ok l ∧
      p.process .sync w t = (w.put (f :: l) (.file d.artifact.toUTF8),
        ⟨t.identity, d.descriptionDefaulted, .ok (p.outcome .sync t d .written)⟩) := by
  obtain ⟨l, bytes, decoded, hl, he, -⟩ := hs.entry
  have hne' : some a ≠ some d.artifact := fun h => hne (Option.some.inj h)
  refine ⟨l, hl, process_of_settle hc ?_⟩
  rw [agentPath, ← hf]
  exact settle_of_ne hs.readNormalized? hne' hl hshort (by simp [he])

theorem process_validate_over (hs : w.Stands p.outputRoot f a)
    (hf : f.raw = fileName t.identity.name) (hc : p.compile w t = .ok d) (hne : a ≠ d.artifact) :
    p.process .validate w t = (w, ⟨t.identity, d.descriptionDefaulted,
      .ok (p.outcome .validate t d (.drifted .modified))⟩) := by
  refine process_of_settle hc ?_
  rw [agentPath, ← hf]
  exact settle_validate_of_ne hs hne

end

/-! ## Runs on two templates -/

/-- A run that selects the templates `t₁` and `t₂`. -/
theorem run_of_pair {p : Project} {w u v : Workspace} {d : Discovery} {o : Options}
    {t₁ t₂ : Template} {x : Processed} (hts : d.selectedTemplates o.filter p.registry = [t₁, t₂])
    (h₁ : (p.process o.mode w t₁).1 = u) (h₂ : p.process o.mode u t₂ = (v, x)) :
    (p.processed w d o).1 = v ∧ ∀ oc, x.outcome? = some oc → oc ∈ (p.run w d o).2.outcomes := by
  have h : p.processed w d o = (v, [(p.process o.mode w t₁).2, x]) := by
    simp only [Project.processed, hts, Project.processAll, h₁, h₂]
  refine ⟨by rw [h], fun oc hoc => ?_⟩
  rw [Project.run_outcomes, h]
  exact List.mem_filterMap.2 ⟨x, List.mem_cons_of_mem _ List.mem_cons_self, hoc⟩

theorem mem_outcomes_of_first {p : Project} {w : Workspace} {d : Discovery} {o : Options}
    {t : Template} {rest : List Template} {oc : Outcome}
    (hts : d.selectedTemplates o.filter p.registry = t :: rest)
    (h : (p.process o.mode w t).2.outcome? = some oc) : oc ∈ (p.run w d o).2.outcomes := by
  rw [Project.run_outcomes, Project.processed, hts, processAll_cons]
  exact List.mem_filterMap.2 ⟨_, List.mem_cons_self, h⟩

theorem failures_of_pair {p : Project} {w u : Workspace} {s t : Template}
    (hu : (p.process .sync w s).1 = u) (hs : (p.process .sync w s).2.failure? = none)
    (ht : (p.process .sync u t).2.failure? = none) :
    (p.processAll .sync w [s, t]).2.filterMap Processed.failure? = [] := by
  subst hu
  simp only [Project.processAll, List.filterMap_cons, hs, ht, List.filterMap_nil]

theorem mem_drifted {p : Project} {w : Workspace} {d : Discovery} {o : Options} {x : Outcome}
    {drift : Drift} (hx : x ∈ (p.run w d o).2.outcomes) (ha : x.action = .drifted drift) :
    ⟨x.identity, drift⟩ ∈ (p.run w d o).2.drifted := by
  rw [Project.run_drifted]
  refine List.mem_filterMap.2 ⟨x, hx, ?_⟩
  rw [Outcome.drifted?, ha]

/-! ## Two templates that are shown alike -/

/-- The file of their agent. -/
def blurredAgent : FileName := ⟨"pm-a\ufffd.agent.md", by decide⟩

/-- What a template of that agent compiles to. -/
def blurredDocument (text : String) : AgentDocument :=
  .compile .standard .empty ⟨"pm", "a\ufffd"⟩ text.toList

/-- The workspace after a first template with the text `first` is processed. -/
def lookalikeBegun (first : String) : Workspace :=
  (lookalikeWorkspace.grown shelf.outputRoot).put (blurredAgent :: shelfDirectory)
    (.file (blurredDocument first).artifact.toUTF8)

/-- The workspace after a second one with the text `second` is. -/
def lookalikeWritten (first second : String) : Workspace :=
  (lookalikeBegun first).put (blurredAgent :: shelfDirectory)
    (.file (blurredDocument second).artifact.toUTF8)

/-- What is evaluated of them. -/
structure LookalikeFacts : Prop where
  accepted : shelf.settings.isAccepted = true
  name : RawText.ofString (fileName (Identity.name ⟨"pm", "a\ufffd"⟩)) = blurredAgent.raw
  short : blurredAgent.isTooLong = false
  path : (shelf.outputRoot.join blurredAgent.raw).refusal? = none
  header : (blurredDocument "two").header = (blurredDocument "one").header
  bodies : normalizeBreaks (blurredDocument "two").body ≠
    normalizeBreaks (blurredDocument "one").body
  reached : (lookalikeWorkspace.grown shelf.outputRoot).directoryAt shelf.outputRoot.way =
    .ok shelfDirectory
  absent : (lookalikeWorkspace.grown shelf.outputRoot).tree.find?
    (blurredAgent :: shelfDirectory) = none
  missing : ∀ text ∈ ["one", "two"], (settle lookalikeWorkspace .sync
    (shelf.outputRoot.join blurredAgent.raw) (blurredDocument text).artifact).2 = .ok .written
  outputRoot : (lookalikeWritten "two" "one").openDirectory shelf.outputRoot = .ok shelfDirectory
  unknown : (((lookalikeWritten "two" "one").tree.children shelfDirectory).filterMap
    (Sweep.candidate? (lookalikeWritten "two" "one") shelf.settings shelf.registry .all
      shelf.outputRoot shelfDirectory)).filter
        (fun c => !lookalikeDiscovery.names.contains c.name) = []

theorem lookalikeFacts : LookalikeFacts := by
  constructor <;> decide +kernel

theorem artifact_blurred_ne :
    (blurredDocument "two").artifact ≠ (blurredDocument "one").artifact :=
  have hlookalike := lookalikeFacts
  fun h => hlookalike.bodies ((artifact_eq_iff hlookalike.header).1 h)

theorem compile_blurred (w : Workspace) (byte : UInt8) {text : String} (h : '{' ∉ text.toList) :
    shelf.compile w (blurredTemplate byte text) = .ok (blurredDocument text) :=
  compile_plainText shelf w (blurredTemplate byte text) h

theorem identity_of_mem_lookalike {t : Template} (ht : t ∈ lookalikeDiscovery.templates) :
    t.identity = ⟨"pm", "a\ufffd"⟩ := by
  rcases List.mem_pair.1 ht with rfl | rfl <;> rfl

theorem linkFree_lookalike : shelf.LinkFree (lookalikeWorkspace.grown shelf.outputRoot)
    lookalikeDiscovery.templates := by
  have hlookalike := lookalikeFacts
  intro t ht f hf dir hdir target
  rw [hlookalike.reached] at hdir
  cases hdir
  rw [identity_of_mem_lookalike ht] at hf
  obtain rfl : f = blurredAgent := FileName.raw_injective (hf.trans hlookalike.name)
  rw [hlookalike.absent]
  simp

theorem compile_lookalike {t : Template} (ht : t ∈ lookalikeDiscovery.templates)
    (w v : Workspace) : shelf.compile v t = shelf.compile w t := by
  rcases List.mem_pair.1 ht with rfl | rfl <;>
    rw [compile_blurred _ _ (by decide), compile_blurred _ _ (by decide)]

theorem reached_begun (first : String) :
    (lookalikeBegun first).directoryAt shelf.outputRoot.way = .ok shelfDirectory := by
  have hlookalike := lookalikeFacts
  have hput : Worked (· = blurredAgent) (fun _ => False)
      (lookalikeWorkspace.grown shelf.outputRoot) (lookalikeBegun first) shelfDirectory :=
    (Worked.refl _ _).put rfl (by simp [hlookalike.absent])
  refine hput.directoryAt hlookalike.reached ?_
  rintro g rfl
  simp [hlookalike.absent]

theorem find?_begun (first : String) :
    (lookalikeBegun first).tree.find? (blurredAgent :: shelfDirectory) =
      some (.file (blurredDocument first).artifact.toUTF8) :=
  FileTree.find?_insert_self (by simp)

theorem stands_begun (first : String) : (lookalikeBegun first).Stands shelf.outputRoot blurredAgent
    (blurredDocument first).artifact :=
  have hlookalike := lookalikeFacts
  ⟨hlookalike.path, _, _, _, reached_begun first, find?_begun first, fromUTF8?_toUTF8 _,
    normalized_artifact _⟩

theorem stands_written (first second : String) :
    (lookalikeWritten first second).Stands shelf.outputRoot blurredAgent
      (blurredDocument second).artifact := by
  have hlookalike := lookalikeFacts
  refine stands_put hlookalike.path (reached_begun first) ?_ ?_ (normalized_artifact _) <;>
    simp [find?_begun]

theorem read_lookalike (first second : String) :
    (lookalikeWritten first second).readNormalized? (agentPath shelf.outputRoot "pm-a\ufffd") =
      .ok (some (blurredDocument second).artifact) := by
  have hlookalike := lookalikeFacts
  have hpath : agentPath shelf.outputRoot "pm-a\ufffd" =
      shelf.outputRoot.join blurredAgent.raw := congrArg _ hlookalike.name
  rw [hpath]
  exact (stands_written first second).readNormalized?

/-- What comes of a template that is written. -/
def blurredProcessed (byte : UInt8) (text : String) : Processed where
  identity := ⟨"pm", "a\ufffd"⟩
  defaulted := (blurredDocument text).descriptionDefaulted
  result := .ok (shelf.outcome .sync (blurredTemplate byte text) (blurredDocument text) .written)

/-- Two templates that are shown alike, `first` and then `second`, one over the other: both are
written. -/
theorem processAll_lookalike (b c : UInt8) {first second : String}
    (hfirst : first ∈ ["one", "two"]) (hf : '{' ∉ first.toList) (hs : '{' ∉ second.toList)
    (hne : (blurredDocument first).artifact ≠ (blurredDocument second).artifact) :
    shelf.processAll .sync lookalikeWorkspace [blurredTemplate b first, blurredTemplate c second] =
      (lookalikeWritten first second, [blurredProcessed b first, blurredProcessed c second]) := by
  have hlookalike := lookalikeFacts
  have hbegun : shelf.process .sync lookalikeWorkspace (blurredTemplate b first) =
      (lookalikeBegun first, blurredProcessed b first) := by
    have hname : RawText.ofString (fileName (blurredTemplate b first).identity.name) =
        blurredAgent.raw := hlookalike.name
    refine process_of_settle (compile_blurred _ _ hf) ?_
    rw [agentPath, hname]
    exact settle_of_written (hlookalike.missing first hfirst) hlookalike.reached
  obtain ⟨l, hl, hwritten⟩ := process_over (t := blurredTemplate c second) (stands_begun first)
    hlookalike.name.symm hlookalike.short (compile_blurred _ _ hs) hne
  rw [reached_begun] at hl
  cases hl
  simp only [Project.processAll, hbegun, hwritten]
  rfl

theorem processed_lookalike (force : Bool) :
    shelf.processed lookalikeWorkspace lookalikeDiscovery ⟨.sync, force, .all⟩ =
      (lookalikeWritten "two" "one",
        [blurredProcessed 254 "two", blurredProcessed 255 "one"]) := by
  rw [Project.processed, Discovery.selectedTemplates_all]
  exact processAll_lookalike 254 255 (by decide) (by decide) (by decide) artifact_blurred_ne

theorem swept_lookalike (force : Bool) :
    shelf.swept lookalikeWorkspace lookalikeDiscovery ⟨.sync, force, .all⟩ =
      (lookalikeWritten "two" "one", ⟨[], []⟩) := by
  have hlookalike := lookalikeFacts
  rw [Project.swept_eq (by simp), processed_lookalike]
  exact sweep_of_none hlookalike.outputRoot hlookalike.unknown

/-- A run on two templates that are shown alike writes both of them and fails for neither. The
artifact of the second one stands afterwards, and it is not that of the first one. -/
theorem run_lookalike (force : Bool) :
    (shelf.run lookalikeWorkspace lookalikeDiscovery ⟨.sync, force, .all⟩).1 =
        lookalikeWritten "two" "one" ∧
      (shelf.run lookalikeWorkspace lookalikeDiscovery ⟨.sync, force, .all⟩).2.failures = [] ∧
      (shelf.run lookalikeWorkspace lookalikeDiscovery ⟨.sync, force, .all⟩).2.outcomes =
        [shelf.outcome .sync (blurredTemplate 254 "two") (blurredDocument "two") .written,
          shelf.outcome .sync (blurredTemplate 255 "one") (blurredDocument "one") .written] := by
  refine ⟨?_, ?_, ?_⟩
  · rw [Project.run_fst, swept_lookalike]
  · rw [Project.run_failures_eq_nil_iff, processed_lookalike, swept_lookalike]
    exact ⟨rfl, rfl, rfl⟩
  · rw [Project.run_outcomes, processed_lookalike]
    rfl

theorem lookalike_drifts :
    ⟨⟨"pm", "a\ufffd"⟩, .modified⟩ ∈
      (shelf.run (lookalikeWritten "two" "one") lookalikeDiscovery
        ⟨.validate, false, .all⟩).2.drifted := by
  have hlookalike := lookalikeFacts
  have hfirst := process_validate_over (t := blurredTemplate 254 "two") (stands_written "two" "one")
    hlookalike.name.symm (compile_blurred _ _ (by decide)) artifact_blurred_ne.symm
  refine mem_drifted (x := shelf.outcome .validate (blurredTemplate 254 "two")
    (blurredDocument "two") (.drifted .modified)) ?_ rfl
  refine mem_outcomes_of_first (Discovery.selectedTemplates_all _ _) ?_
  rw [hfirst]
  rfl

end AgentDocs
