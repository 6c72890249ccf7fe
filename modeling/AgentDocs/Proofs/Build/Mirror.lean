import AgentDocs.Proofs.Build.Changes

/-!
# The directory of the agents after a clean run

A forced run on all templates that reports no failure leaves an image of the templates behind. Every
template has its artifact, every other agent of a known scope is gone, and nothing else is touched.

* `Project.Mirrors`: what is said about the directory of the agents.
* `stands_of_clean`: the artifacts of templates that do not fail.
* `run_mirrors`: the image after a run.
* `run_blurs`: a link that is out of sight at first can spoil it, and templates shown alike.
-/

namespace AgentDocs

open AgentDocs.Files AgentDocs.Files.Workspace

/-! ## Files named like agents -/

/-- A file in a directory is named like an agent of a known scope. -/
structure Project.HasAgent (p : Project) (w : Workspace) (dir : Location) (f : FileName)
    (i : Identity) : Prop where
  file : ∃ bytes, w.tree.find? (f :: dir) = some (.file bytes)
  name : ∃ name, nameOfFile? f.text = some name ∧ Identity.ofName? name = some i
  scope : ∃ kind, Discovery.scopeKind? p.settings i.scope = some kind

section
variable {p : Project} {w : Workspace} {r : Registry} {dir : Location} {f : FileName}
  {i : Identity} {out : PathName} {c : Sweep.Candidate}

theorem considers_all_iff {s : Settings} :
    Sweep.considers s r .all i = true ↔ ∃ kind, Discovery.scopeKind? s i.scope = some kind := by
  unfold Sweep.considers Discovery.scopeKind?
  cases isOperational i.scope <;> cases s.isNamespace i.scope <;> simp

theorem Project.HasAgent.mem_candidates (h : p.HasAgent w dir f i) :
    ⟨i.name, out.join f.raw⟩ ∈ Sweep.candidates w p.settings r .all out dir := by
  obtain ⟨name, hf, hi⟩ := h.name
  obtain ⟨rfl, hs, h1, h2⟩ := Identity.ofName?_eq_some_iff.1 hi
  exact mem_candidates_iff.2 ⟨f, ⟨h.file, text_eq_of_nameOfFile? hf, i, rfl, hs, h1, h2,
    considers_iff.1 (considers_all_iff.2 h.scope)⟩, rfl⟩

theorem hasAgent_of_considers (hfile : ∃ bytes, w.tree.find? (f :: dir) = some (.file bytes))
    {name : String} (hf : f.text = fileName name) (hi : Identity.ofName? name = some i)
    (hc : Sweep.considers p.settings r .all i = true) : p.HasAgent w dir f i := by
  refine ⟨hfile, ⟨name, ?_, hi⟩, considers_all_iff.1 hc⟩
  rw [hf]
  refine nameOfFile?_fileName ?_
  rw [← (Identity.ofName?_eq_some_iff.1 hi).1]
  exact i.name_ne_empty

end

/-! ## What a sweep looks at -/

section
variable {w : Workspace} {out : PathName} {s : Settings} {r : Registry} {filter : RoleFilter}
  {force : Bool} {known : List String}

theorem exists_of_mem_stale {x : Stale}
    (hx : x ∈ (Sweep.run w s r filter force out known).2.stale) :
    ∃ i, Identity.ofName? x.name = some i ∧ Sweep.considers s r filter i = true := by
  cases hout : w.isDirectory out with
  | false =>
    rw [sweep_of_not_directory hout] at hx
    cases hx
  | true =>
    cases hopen : w.openDirectory out with
    | error e => simp [Sweep.run, hout, hopen] at hx
    | ok dir =>
      rw [sweep_of_directory hopen] at hx
      obtain ⟨f, ⟨-, -, i, hn, hs, h1, h2, hc⟩, -⟩ :=
        mem_candidates_iff.1 (List.mem_filter.1 (mem_of_mem_stale hx)).1
      exact ⟨i, Identity.ofName?_eq_some_iff.2 ⟨hn, hs, h1, h2⟩, considers_iff.2 hc⟩

end

/-! ## Templates that do not fail -/

section
variable {p : Project} {w : Workspace} {ts : List Template}

/-- Where no template of `ts` fails, the artifact of each of them stands as it compiled behind the
templates before it. -/
theorem stands_of_clean (hfree : p.LinkFree (w.grown p.outputRoot) ts)
    (hfiles : ∀ t ∈ ts, ∃ f : FileName, f.raw = fileName t.identity.name)
    (hids : (ts.map (·.identity)).Nodup) (hnames : (ts.map fun t => t.identity.name).Nodup)
    (hclean : (p.processAll .sync w ts).2.filterMap Processed.failure? = []) :
    ∀ t ∈ ts, ∃ before after, ∃ (f : FileName) (doc : AgentDocument), ts = before ++ t :: after ∧
      f.raw = fileName t.identity.name ∧ p.compile (p.processAll .sync w before).1 t = .ok doc ∧
      (p.processAll .sync w ts).1.Stands p.outputRoot f doc.artifact := by
  intro t ht
  have hid : t.identity ∈ ((p.processAll .sync w ts).2.filterMap Processed.outcome?).map
      (·.identity) := by
    rw [outcomes_of_no_failures hclean]
    exact List.mem_map_of_mem ht
  obtain ⟨o, ho, hot⟩ := List.mem_map.1 hid
  have hbegun : Stage (AgentOf ts) (fun _ => False) p.outputRoot w w := .begun
  obtain ⟨before, t', after, f, doc, action, hts, hf, hc, rfl, hs⟩ :=
    processAll_stands hfree hbegun hfiles (fun _ => id) hnames ho
  have ht' : t' ∈ ts := by
    rw [hts]
    exact List.mem_append_cons_self
  obtain rfl : t' = t := List.inj_on_of_nodup_map hids ht' ht hot
  exact ⟨before, after, f, doc, hts, hf, hc, hs⟩

end

/-! ## The image of the templates -/

/-- The directory of the agents is an image of the templates. The path of every artifact reads back
as what its template compiled to in the run. Every file that is named like an agent of a known scope
belongs to a template. All else is as it was before the run, apart from files that were agents of
known scopes without a template, and from missing directories on the path of the agents. -/
structure Project.Mirrors (p : Project) (w v : Workspace) (d : Discovery) : Prop where
  artifacts : ∀ t ∈ d.templates, ∃ before after doc, d.templates = before ++ t :: after ∧
    p.compile (p.processAll .sync w before).1 t = .ok doc ∧
    v.readNormalized? (agentPath p.outputRoot t.identity.name) = .ok (some doc.artifact)
  agents : ∀ dir, v.resolve p.outputRoot = .ok dir → v.tree.isDirectory dir = true →
    ∀ f i, p.HasAgent v dir f i → ∃ t ∈ d.templates, t.identity = i
  others : ∀ l, v.tree.find? l = w.tree.find? l ∨ p.MadeAt w v l ∨
    (∃ t ∈ d.templates, p.PlaceOf w t.identity.name l) ∨
    ∃ dir f i, (w.grown p.outputRoot).directoryAt p.outputRoot.way = .ok dir ∧ l = f :: dir ∧
      p.HasAgent w dir f i ∧ (∀ t ∈ d.templates, t.identity ≠ i) ∧ v.tree.find? l = none

section
variable {p : Project} {w v : Workspace} {d : Discovery} {r : Report}

/-- An agent in a directory where nothing is left to sweep has a template. -/
theorem Project.HasAgent.mem_identities {dir : Location} {f : FileName} {i : Identity}
    (hf : p.HasAgent v dir f i) (ha : p.settings.isAccepted = true)
    (hd : Discovery.search w p.root p.settings = .ok d)
    (hnone : (Sweep.candidates v p.settings p.registry .all p.outputRoot dir).filter
      (fun c => !d.names.contains c.name) = []) : i ∈ d.identities := by
  have hname : i.name ∈ d.names := by
    by_contra hn
    have hleft : ⟨i.name, p.outputRoot.join f.raw⟩ ∈
        (Sweep.candidates v p.settings p.registry .all p.outputRoot dir).filter
          fun c => !d.names.contains c.name :=
      List.mem_filter.2 ⟨hf.mem_candidates, by simpa using hn⟩
    rw [hnone] at hleft
    cases hleft
  obtain ⟨j, hj, hji⟩ := mem_names_iff.1 hname
  obtain ⟨name, -, hi⟩ := hf.name
  have hback := Discovery.ofName?_name_of_mem hd ha hj
  rw [hji, (Identity.ofName?_eq_some_iff.1 hi).1, hi] at hback
  cases hback
  exact hj

/-- After a forced run on all templates without a failure, the directory of the agents is an image
of the templates, if no two of them have one identity and no artifact path is a link once the
missing directories on the path of the agents are made. -/
theorem run_mirrors (ha : p.settings.isAccepted = true)
    (hd : Discovery.search w p.root p.settings = .ok d)
    (hids : (d.templates.map (·.identity)).Nodup)
    (hfree : p.LinkFree (w.grown p.outputRoot) d.templates)
    (h : p.run w d ⟨.sync, true, .all⟩ = (v, r)) (hclean : r.failures = []) :
    p.Mirrors w v d := by
  have hv : v = (p.swept w d ⟨.sync, true, .all⟩).1 := by rw [← Project.run_fst, h]
  have hr : r = (p.run w d ⟨.sync, true, .all⟩).2 := by rw [h]
  obtain ⟨hread, hprocessed, hswept⟩ := (p.run_failures_eq_nil_iff w d _).1 (hr ▸ hclean)
  rw [Discovery.selectedUnreadable_all] at hread
  rw [Project.processed, Discovery.selectedTemplates_all] at hprocessed
  have hfiles := selected_files (p := p) .all hd
  have hselected : ((d.selectedTemplates .all p.registry).map (·.identity)).Nodup := by
    rwa [Discovery.selectedTemplates_all]
  have hnames := nodup_selected_names ha hd hselected
  rw [Discovery.selectedTemplates_all] at hfiles hnames
  have hidentity : ∀ i ∈ d.identities, ∃ t ∈ d.templates, t.identity = i := by
    intro i hi
    rw [Discovery.identities, hread, List.map_nil, List.append_nil] at hi
    exact List.mem_map.1 hi
  rw [Project.swept_eq (by simp)] at hv hswept
  refine ⟨fun t ht => ?_, fun dir hdir hisdir f i hf => ?_, fun l => ?_⟩
  · obtain ⟨before, after, f, doc, hts, hf, hc, hs⟩ :=
      stands_of_clean hfree hfiles hids hnames hprocessed t ht
    refine ⟨before, after, doc, hts, hc, ?_⟩
    rw [agentPath, ← hf]
    refine Stands.readNormalized? ?_
    rw [hv, Project.processed, Discovery.selectedTemplates_all]
    exact hs.sweep hf (name_mem_names ht)
  · have hnone := unknown_candidates_of_sweep hv.symm hswept hdir hisdir
    exact hidentity i (hf.mem_identities ha hd hnone)
  · rcases find?_run ha hd hselected h l with
      he | ⟨-, hmade | ⟨oc, -, -, hwritten⟩⟩ | ⟨x, hx, hremoved⟩
    · exact .inl he
    · exact .inr (.inl hmade)
    · obtain ⟨before, t, after, doc, hts, -, -, hplace, -⟩ := hwritten
      rw [Discovery.selectedTemplates_all] at hts
      refine .inr (.inr (.inl ⟨t, ?_, hplace⟩))
      rw [hts]
      exact List.mem_append_cons_self
    · obtain ⟨-, ⟨f, dir, -, hf, hdir, rfl⟩, hfile, hgone⟩ := hremoved
      rw [hr, Project.run_stale, Project.swept_eq (by simp)] at hx
      obtain ⟨i, hi, hc⟩ := exists_of_mem_stale hx
      refine .inr (.inr (.inr ⟨dir, f, i, hdir, rfl, hasAgent_of_considers hfile hf hi hc,
        fun t ht hti => ?_, hgone⟩))
      refine notMem_known_of_mem_stale hx ?_
      rw [← (Identity.ofName?_eq_some_iff.1 hi).1, ← hti]
      exact name_mem_names ht

end

/-! ## A crowded directory -/

/-- One template, and a directory with its old agent, a stale agent and a foreign file. -/
def crowdedWorkspace : Workspace :=
  ((((plainWorkspace.put (shelfDirectory.drop 1) .directory).put shelfDirectory .directory).put
    (shelfForeign :: shelfDirectory) (.file .empty)).put (shelfFile :: shelfDirectory)
      (.file .empty)).put (shelfStale :: shelfDirectory) (.file .empty)

/-- The workspace after the template is processed. -/
def crowdedWritten : Workspace :=
  crowdedWorkspace.put (shelfFile :: shelfDirectory) (.file plainDocument.artifact.toUTF8)

/-- What is evaluated of the crowded directory. -/
structure CrowdedFacts : Prop where
  accepted : plain.settings.isAccepted = true
  found : Discovery.search crowdedWorkspace plain.root plain.settings = .ok plainDiscovery
  name : RawText.ofString (fileName plainTemplate.identity.name) = shelfFile.raw
  reached : (crowdedWorkspace.grown plain.outputRoot).directoryAt plain.outputRoot.way =
    .ok shelfDirectory
  agent : (crowdedWorkspace.grown plain.outputRoot).tree.find? (shelfFile :: shelfDirectory) =
    some (.file .empty)
  directory : crowdedWorkspace.directoryAt plain.outputRoot.way = .ok shelfDirectory
  read : crowdedWorkspace.readNormalized? (plain.outputRoot.join shelfFile.raw) = .ok (some "")
  short : shelfFile.isTooLong = false
  entry : crowdedWorkspace.tree.find? (shelfFile :: shelfDirectory) ≠ some .directory
  outputRoot : crowdedWritten.openDirectory plain.outputRoot = .ok shelfDirectory
  unknown : ((crowdedWritten.tree.children shelfDirectory).filterMap (Sweep.candidate?
    crowdedWritten plain.settings plain.registry .all plain.outputRoot shelfDirectory)).filter
      (fun c => !plainDiscovery.names.contains c.name) =
        [⟨"pm-old-x", plain.outputRoot.join shelfStale.raw⟩]
  stale : (crowdedWritten.removeFile (plain.outputRoot.join shelfStale.raw)).2 = .ok ()
  foreign : (crowdedWritten.drop (shelfStale :: shelfDirectory)).tree.find?
    (shelfForeign :: shelfDirectory) = some (.file .empty)

theorem crowdedFacts : CrowdedFacts := by
  constructor <;> decide +kernel

theorem linkFree_crowded :
    plain.LinkFree (crowdedWorkspace.grown plain.outputRoot) plainDiscovery.templates := by
  have hcrowded := crowdedFacts
  intro t ht f hf dir hdir target
  rw [hcrowded.reached] at hdir
  cases hdir
  obtain rfl := List.mem_singleton.1 ht
  obtain rfl : f = shelfFile := FileName.raw_injective (hf.trans hcrowded.name)
  rw [hcrowded.agent]
  simp

/-- The run writes the agent of the template and removes the stale one. -/
def crowdedRun : Workspace × Report :=
  plain.run crowdedWorkspace plainDiscovery ⟨.sync, true, .all⟩

theorem processed_crowded :
    plain.processed crowdedWorkspace plainDiscovery ⟨.sync, true, .all⟩ =
      (crowdedWritten, [⟨⟨"pm", "x"⟩, plainDocument.descriptionDefaulted,
        .ok (plain.outcome .sync plainTemplate plainDocument .written)⟩]) := by
  have hcrowded := crowdedFacts
  have hsettle : settle crowdedWorkspace .sync
      (agentPath plain.outputRoot plainTemplate.identity.name) plainDocument.artifact =
        (crowdedWritten, .ok .written) := by
    rw [agentPath, hcrowded.name]
    exact settle_of_ne hcrowded.read (fun h => artifact_ne_empty _ (Option.some.inj h).symm)
      hcrowded.directory hcrowded.short hcrowded.entry
  exact processed_of_single (o := ⟨.sync, true, .all⟩) (Discovery.selectedTemplates_all _ _)
    (compile_plain _) hsettle

theorem swept_crowded :
    plain.swept crowdedWorkspace plainDiscovery ⟨.sync, true, .all⟩ =
      (crowdedWritten.drop (shelfStale :: shelfDirectory),
        ⟨[⟨"pm-old-x", plain.outputRoot.join shelfStale.raw, true⟩], []⟩) := by
  have hcrowded := crowdedFacts
  rw [Project.swept_eq (by simp), processed_crowded]
  exact sweep_of_single hcrowded.outputRoot hcrowded.unknown hcrowded.stale

theorem run_mirrors_crowded :
    plain.settings.isAccepted = true ∧
      Discovery.search crowdedWorkspace plain.root plain.settings = .ok plainDiscovery ∧
      plain.LinkFree (crowdedWorkspace.grown plain.outputRoot) plainDiscovery.templates ∧
      crowdedRun.2.failures = [] ∧ plain.Mirrors crowdedWorkspace crowdedRun.1 plainDiscovery ∧
      crowdedRun.1.tree.find? (shelfStale :: shelfDirectory) = none ∧
      crowdedRun.1.tree.find? (shelfForeign :: shelfDirectory) = some (.file .empty) := by
  have hcrowded := crowdedFacts
  have hclean : crowdedRun.2.failures = [] := by
    rw [crowdedRun, Project.run_failures_eq_nil_iff, processed_crowded, swept_crowded]
    exact ⟨rfl, rfl, rfl⟩
  have hrun : crowdedRun.1 = crowdedWritten.drop (shelfStale :: shelfDirectory) := by
    rw [crowdedRun, Project.run_fst, swept_crowded]
  refine ⟨hcrowded.accepted, hcrowded.found, linkFree_crowded, hclean,
    run_mirrors hcrowded.accepted hcrowded.found (by decide) linkFree_crowded
      (show crowdedRun = _ from (Prod.eta _).symm) hclean, ?_, ?_⟩
  · rw [hrun]
    exact FileTree.find?_erase_self (by simp)
  · rw [hrun]
    exact hcrowded.foreign

/-! ## A missing directory among the agents -/

/-- The path of the agents goes through a missing directory inside their directory. -/
def inward : Project := winding "x/missing/.."

/-- The missing directory. -/
def inwardMade : Location := ⟨"missing", by decide⟩ :: detourDirectory

/-- The workspace after both templates are processed. -/
def inwardWritten : Workspace :=
  (detourWorkspace.grown inward.outputRoot).put (missingFile :: detourDirectory)
    (.file (detourDocument "a").artifact.toUTF8)

/-- The workspace after the sweep. -/
def inwardSwept : Workspace := inwardWritten.drop (staleFile :: detourDirectory)

/-- What is evaluated of it. -/
structure InwardFacts : Prop where
  accepted : inward.settings.isAccepted = true
  commandsRoot : detourWorkspace.isDirectory (inward.settings.commandsRoot inward.root) = true
  scopes : detourWorkspace.list (inward.settings.commandsRoot inward.root) =
    .ok [⟨"pm", by decide⟩]
  found : Discovery.searchScope detourWorkspace inward.settings
    (inward.settings.commandsRoot inward.root) ⟨"pm", by decide⟩ =
      .ok [.template (detourTemplate "a"), .template (detourTemplate "b")]
  unreached : detourWorkspace.directoryAt inward.outputRoot.way = .error .notFound
  reached : (detourWorkspace.grown inward.outputRoot).directoryAt inward.outputRoot.way =
    .ok detourDirectory
  missingName : RawText.ofString (fileName (detourTemplate "a").identity.name) = missingFile.raw
  missing : (settle detourWorkspace .sync (inward.outputRoot.join missingFile.raw)
    (detourDocument "a").artifact).2 = .ok .written
  linked : inwardWritten.resolve (agentPath inward.outputRoot (detourTemplate "b").identity.name) =
    .ok (staleFile :: detourDirectory)
  outputRoot : inwardWritten.openDirectory inward.outputRoot = .ok detourDirectory
  unknown : ((inwardWritten.tree.children detourDirectory).filterMap (Sweep.candidate?
    inwardWritten inward.settings inward.registry .all inward.outputRoot detourDirectory)).filter
      (fun c => !(["pm-a", "pm-b"].contains c.name)) =
        [⟨"pm-z", inward.outputRoot.join staleFile.raw⟩]
  stale : (inwardWritten.removeFile (inward.outputRoot.join staleFile.raw)).2 = .ok ()
  swept : inwardSwept.resolve inward.outputRoot = .ok detourDirectory
  read : inwardSwept.readNormalized?
    (agentPath inward.outputRoot (detourTemplate "b").identity.name) = .ok none
  before : detourWorkspace.tree.find? inwardMade = none
  after : inwardSwept.tree.find? inwardMade = some .directory

theorem inwardFacts : InwardFacts := by
  constructor <;> decide +kernel

theorem search_inward :
    Discovery.search detourWorkspace inward.root inward.settings = .ok detourDiscovery :=
  have hinward := inwardFacts
  have hdetour := detourFacts
  Discovery.search_of_pair hinward.commandsRoot hinward.scopes hinward.found
    hdetour.foundSorted

/-- The first template is written, which makes the missing directory and brings the agent of the
second one into sight. -/
theorem process_inward :
    inward.process .sync detourWorkspace (detourTemplate "a") = (inwardWritten,
      ⟨⟨"pm", "a"⟩, (detourDocument "a").descriptionDefaulted,
        .ok (inward.outcome .sync (detourTemplate "a") (detourDocument "a") .written)⟩) ∧
    inward.process .sync inwardWritten (detourTemplate "b") = (inwardWritten,
      ⟨⟨"pm", "b"⟩, (detourDocument "b").descriptionDefaulted,
        .ok (inward.outcome .sync (detourTemplate "b") (detourDocument "b") .unchanged)⟩) := by
  have hinward := inwardFacts
  constructor
  · refine process_of_settle (compile_winding "x/missing/.." _) ?_
    rw [agentPath, hinward.missingName]
    exact settle_of_written hinward.missing hinward.reached
  · refine process_of_settle
      (compile_plainText inward _ (detourTemplate "b") (by simp [detourTemplate])) ?_
    exact settle_of_read (readNormalized?_of_resolve hinward.linked
      (find?_put_grown find?_staleFile (by decide)))

theorem swept_inward :
    inward.swept detourWorkspace detourDiscovery ⟨.sync, true, .all⟩ =
      (inwardSwept, ⟨[⟨"pm-z", inward.outputRoot.join staleFile.raw, true⟩], []⟩) := by
  have hinward := inwardFacts
  obtain ⟨ha, hb⟩ := process_inward
  have hw : (inward.processed detourWorkspace detourDiscovery ⟨.sync, true, .all⟩).1 =
      inwardWritten := by
    have hfirst : (inward.process .sync detourWorkspace (detourTemplate "a")).1 =
        inwardWritten := by rw [ha]
    exact (run_of_pair (o := ⟨.sync, true, .all⟩) (Discovery.selectedTemplates_all _ _) hfirst hb).1
  rw [Project.swept_eq (by simp), hw, names_detour]
  exact sweep_of_single hinward.outputRoot hinward.unknown hinward.stale

theorem linkFree_inward : inward.LinkFree detourWorkspace detourDiscovery.templates := by
  have hinward := inwardFacts
  intro t _ f _ dir hdir
  rw [hinward.unreached] at hdir
  cases hdir

theorem run_inward :
    (inward.run detourWorkspace detourDiscovery ⟨.sync, true, .all⟩).1 = inwardSwept ∧
      (inward.run detourWorkspace detourDiscovery ⟨.sync, true, .all⟩).2.failures = [] := by
  obtain ⟨ha, hb⟩ := process_inward
  constructor
  · rw [Project.run_fst, swept_inward]
  · rw [Project.run_failures_eq_nil_iff, swept_inward, Project.processed,
      Discovery.selectedTemplates_all]
    refine ⟨rfl, failures_of_pair (congrArg Prod.fst ha) ?_ ?_, rfl⟩
    · rw [ha]
      rfl
    · rw [hb]
      rfl

/-- Ordinary settings, no artifact path is a link, and the run has no failure. Yet the artifact of a
template is missing afterwards, since its path became a link to a stale agent when a missing
directory was made, and that directory is a new entry in the directory of the agents. And where two
templates are shown alike, what the path of both reads back is the artifact of only one. -/
theorem run_blurs :
    (inward.settings.isAccepted = true ∧
      Discovery.search detourWorkspace inward.root inward.settings = .ok detourDiscovery ∧
      (detourDiscovery.templates.map (·.identity)).Nodup ∧
      inward.LinkFree detourWorkspace detourDiscovery.templates ∧
      (inward.run detourWorkspace detourDiscovery ⟨.sync, true, .all⟩).2.failures = [] ∧
      (∃ t ∈ detourDiscovery.templates,
        (inward.run detourWorkspace detourDiscovery ⟨.sync, true, .all⟩).1.readNormalized?
          (agentPath inward.outputRoot t.identity.name) = .ok none) ∧
      ∃ dir f, (inward.run detourWorkspace detourDiscovery ⟨.sync, true, .all⟩).1.resolve
          inward.outputRoot = .ok dir ∧
        detourWorkspace.tree.find? (f :: dir) = none ∧
        (inward.run detourWorkspace detourDiscovery ⟨.sync, true, .all⟩).1.tree.find? (f :: dir) =
          some .directory) ∧
    shelf.settings.isAccepted = true ∧
      Discovery.search lookalikeWorkspace shelf.root shelf.settings = .ok lookalikeDiscovery ∧
      shelf.LinkFree (lookalikeWorkspace.grown shelf.outputRoot) lookalikeDiscovery.templates ∧
      (shelf.run lookalikeWorkspace lookalikeDiscovery ⟨.sync, true, .all⟩).2.failures = [] ∧
      ∃ t ∈ lookalikeDiscovery.templates, ∃ doc a,
        (∀ w, shelf.compile w t = .ok doc) ∧ a ≠ doc.artifact ∧
        (shelf.run lookalikeWorkspace lookalikeDiscovery ⟨.sync, true, .all⟩).1.readNormalized?
          (agentPath shelf.outputRoot t.identity.name) = .ok (some a) := by
  have hinward := inwardFacts
  have hlookalike := lookalikeFacts
  obtain ⟨hrun, hnone⟩ := run_inward
  obtain ⟨hrun', hclean, -⟩ := run_lookalike true
  rw [hrun, hrun']
  refine ⟨⟨hinward.accepted, search_inward, by decide, linkFree_inward, hnone, ?_, ?_⟩,
    hlookalike.accepted, search_lookalike, linkFree_lookalike, hclean, ?_⟩
  · exact ⟨detourTemplate "b", List.mem_cons_of_mem _ List.mem_cons_self, hinward.read⟩
  · exact ⟨detourDirectory, ⟨"missing", by decide⟩, hinward.swept, hinward.before,
      hinward.after⟩
  · exact ⟨blurredTemplate 254 "two", List.mem_cons_self, blurredDocument "two", _,
      fun w => compile_blurred w _ (by decide), artifact_blurred_ne.symm, read_lookalike _ _⟩

end AgentDocs
