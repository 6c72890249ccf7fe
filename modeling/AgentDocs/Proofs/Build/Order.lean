import Mathlib.Data.List.Sort
import AgentDocs.Proofs.Build.Alone

/-!
# The order of templates

Where no template reads what a run does for the others, the order of the templates makes no
difference, and neither does the order in which a directory lists its entries.

* `Same.sweep`: a sweep of workspaces that hold the same entries.
* `run_alone`: every template comes to what it comes to alone.
* `run_perm`: runs on the same templates in another order.
* `run_perm_ne`: templates whose order makes a difference.
-/

namespace AgentDocs

open AgentDocs.Files AgentDocs.Files.Workspace

/-! ## The sweep -/

section
variable {w v : Workspace} {out : PathName} {s : Settings} {r : Registry} {filter : RoleFilter}
  {force : Bool} {known known' : List String} {dir : Location} {cs : List Sweep.Candidate}

theorem Files.Workspace.Same.isCandidate_iff (h : Same w v) {f : FileName} {name : String} :
    IsCandidate v s r filter dir f name ↔ IsCandidate w s r filter dir f name := by
  constructor
  · rintro ⟨⟨bytes, hb⟩, hname, hid⟩
    exact ⟨⟨bytes, (h.entries _).symm.trans hb⟩, hname, hid⟩
  · rintro ⟨⟨bytes, hb⟩, hname, hid⟩
    exact ⟨⟨bytes, (h.entries _).trans hb⟩, hname, hid⟩

theorem Files.Workspace.Same.candidates (h : Same w v) :
    Sweep.candidates v s r filter out dir = Sweep.candidates w s r filter out dir := by
  refine (pairwise_candidates v s r filter out dir).eq_of_mem_iff
    (pairwise_candidates w s r filter out dir) fun c => ?_
  simp only [mem_candidates_iff, h.isCandidate_iff]

theorem Files.Workspace.Same.remove (h : Same w v) :
    Same (Sweep.remove force w cs).1 (Sweep.remove force v cs).1 ∧
      (Sweep.remove force v cs).2 = (Sweep.remove force w cs).2 := by
  cases force with
  | false =>
    rw [Sweep.remove_of_not_force, Sweep.remove_of_not_force]
    exact ⟨h, rfl⟩
  | true =>
    induction cs generalizing w v with
    | nil => exact ⟨h, rfl⟩
    | cons c rest ih =>
      obtain ⟨hsame, hresult⟩ := h.removeFile c.path
      rcases hw : w.removeFile c.path with ⟨w', rw'⟩
      rcases hv : v.removeFile c.path with ⟨v', rv'⟩
      rw [hw, hv] at hsame hresult
      dsimp only at hsame hresult
      subst hresult
      obtain ⟨hrest, hmore⟩ := ih hsame
      simp only [Sweep.remove, if_true, hw, hv]
      cases rv' with
      | error e =>
        refine ⟨hrest, ?_⟩
        dsimp only
        rw [hmore]
      | ok u =>
        refine ⟨hrest, ?_⟩
        dsimp only
        rw [hmore]

theorem Files.Workspace.Same.sweep (h : Same w v) (hknown : ∀ name, name ∈ known' ↔ name ∈ known) :
    Same (Sweep.run w s r filter force out known).1 (Sweep.run v s r filter force out known').1 ∧
      (Sweep.run v s r filter force out known').2 = (Sweep.run w s r filter force out known).2 := by
  have hcontains : ∀ name, known'.contains name = known.contains name := by
    intro name
    rw [Bool.eq_iff_iff, List.contains_iff_mem, List.contains_iff_mem]
    exact hknown name
  simp only [Sweep.run, h.isDirectory, h.openDirectory, h.candidates, hcontains]
  split
  · exact ⟨h, rfl⟩
  · split
    · exact ⟨h, rfl⟩
    · exact h.remove

end

/-! ## Runs -/

section
variable {p : Project} {w v v' : Workspace} {d : Discovery} {ts' : List Template} {force : Bool}
  {filter : RoleFilter} {r r' : Report} {t : Template}

theorem process_identity (p : Project) (mode : Mode) (w : Workspace) (t : Template) :
    (p.process mode w t).2.identity = t.identity := by
  cases hc : p.compile w t with
  | error e => rw [process_of_error hc]
  | ok d => rw [process_of_ok hc]

/-- No sweep takes away what a known template `t` changes alone. -/
theorem find?_sweep_of_changes {u : Workspace} {known : List String} {l : Location}
    (hu : u.tree.find? l = (p.process .sync w t).1.tree.find? l)
    (hfile : ∃ f : FileName, f.raw = fileName t.identity.name) (ht : t.identity.name ∈ known)
    (hl : (p.process .sync w t).1.tree.find? l ≠ w.tree.find? l) :
    (Sweep.run u p.settings p.registry filter force p.outputRoot known).1.tree.find? l =
      u.tree.find? l := by
  rcases find?_sweep l with he | ⟨f, dir, ⟨x, hx, hr, hpath, hf⟩, hdir, rfl⟩
  · exact he
  · obtain ⟨g, dir', bytes, hg, -, -, hdir', hb, -⟩ := exists_of_mem_removed hx hr
    rw [hdir] at hdir'
    cases hdir'
    obtain rfl : f = g := PathName.join_injective (hpath.symm.trans hg)
    rcases process_changes hfile hl with ⟨hd, -⟩ | ⟨⟨g, dir', hg, -, he⟩, -⟩
    · rw [hu, hd] at hb
      cases hb
    · cases he
      exact absurd hg (raw_ne_of_mem_stale hx hf ht)

theorem mem_names_of_perm (hts : ts'.Perm d.templates) (name : String) :
    name ∈ { d with templates := ts' }.names ↔ name ∈ d.names := by
  have hid : { d with templates := ts' }.identities.Perm d.identities :=
    (hts.map _).append_right _
  rw [mem_names_iff, mem_names_iff]
  simp only [hid.mem_iff]

theorem swept_of_same {o : Options} (hm : o.mode ≠ .preview) (hts : ts'.Perm d.templates)
    (h : Same (p.processed w d o).1 (p.processed w { d with templates := ts' } o).1) :
    Same (p.swept w d o).1 (p.swept w { d with templates := ts' } o).1 ∧
      (p.swept w { d with templates := ts' } o).2 = (p.swept w d o).2 := by
  rw [Project.swept_eq hm, Project.swept_eq hm]
  exact h.sweep (mem_names_of_perm hts)

/-- Behind the templates of a run stands what each of them does alone. -/
theorem processed_alone {d' : Discovery} (force : Bool)
    (hi : Independent p w (d.selectedTemplates filter p.registry))
    (hfiles : ∀ t ∈ d.selectedTemplates filter p.registry,
      ∃ f : FileName, f.raw = fileName t.identity.name)
    (hsub : ∀ t ∈ d'.selectedTemplates filter p.registry, t ∈ d.selectedTemplates filter p.registry)
    (hnodup : ((d'.selectedTemplates filter p.registry).map (·.path)).Nodup) :
    (p.processed w d' ⟨.sync, force, filter⟩).2 =
        (d'.selectedTemplates filter p.registry).map (fun t => (p.process .sync w t).2) ∧
      p.Combines w (d'.selectedTemplates filter p.registry)
        (p.processed w d' ⟨.sync, force, filter⟩).1 := by
  have hbegun : Stage (AgentOf []) (fun _ => False) p.outputRoot w w := .begun
  exact processAll_alone hi hfiles hsub hnodup hbegun (.nil p w)

section
variable (hd : Discovery.search w p.root p.settings = .ok d)
  (hi : Independent p w (d.selectedTemplates filter p.registry))
  (h : p.run w d ⟨.sync, force, filter⟩ = (v, r))
include hd hi h

/-- Where no template reads what a run does for the others, `t` comes to what it comes to alone. -/
theorem run_alone (ht : t ∈ d.selectedTemplates filter p.registry) :
    (∀ oc, (p.process .sync w t).2.result = .ok oc → oc ∈ r.outcomes) ∧
      (∀ e, (p.process .sync w t).2.result = .error e → ⟨t.identity.name, e⟩ ∈ r.failures) ∧
      ∀ l, (p.process .sync w t).1.tree.find? l ≠ w.tree.find? l →
        v.tree.find? l = (p.process .sync w t).1.tree.find? l := by
  have hfiles := selected_files filter hd
  obtain ⟨hresults, hcombines⟩ :=
    processed_alone force hi hfiles (fun _ => id) (nodup_selected_paths filter hd)
  obtain rfl : v = (p.swept w d ⟨.sync, force, filter⟩).1 := by rw [← Project.run_fst, h]
  obtain rfl : r = (p.run w d ⟨.sync, force, filter⟩).2 := by rw [h]
  refine ⟨fun oc hoc => ?_, fun e he => ?_, fun l hl => ?_⟩
  · rw [Project.run_outcomes, hresults]
    refine List.mem_filterMap.2 ⟨_, List.mem_map_of_mem ht, ?_⟩
    rw [Processed.outcome?, hoc]
    rfl
  · rw [Project.run_failures, hresults]
    refine List.mem_append_left _ (List.mem_append_right _ ?_)
    refine List.mem_filterMap.2 ⟨_, List.mem_map_of_mem ht, ?_⟩
    rw [Processed.failure?, he, process_identity]
  · have hu := hcombines.made l t ht hl
    rw [← hu, Project.swept_eq (by simp)]
    exact find?_sweep_of_changes hu (hfiles t ht) (name_mem_names (List.mem_filter.1 ht).1) hl

/-- The order of the templates makes no difference to a run, where none of them reads what the run
does for the others: the workspace in the end, the outcomes, the failures and the stale agents are
the same, and every template comes to what it comes to alone. -/
theorem run_perm (hts : ts'.Perm d.templates)
    (h' : p.run w { d with templates := ts' } ⟨.sync, force, filter⟩ = (v', r')) :
    Same v v' ∧
      (r'.outcomes.Perm r.outcomes ∧ r'.failures.Perm r.failures ∧
        r'.missingDescriptions.Perm r.missingDescriptions ∧ r'.stale = r.stale) ∧
      ∀ t ∈ d.selectedTemplates filter p.registry,
        (∀ oc, (p.process .sync w t).2.result = .ok oc → oc ∈ r.outcomes) ∧
        (∀ e, (p.process .sync w t).2.result = .error e → ⟨t.identity.name, e⟩ ∈ r.failures) ∧
        ∀ l, (p.process .sync w t).1.tree.find? l ≠ w.tree.find? l →
          v.tree.find? l = (p.process .sync w t).1.tree.find? l := by
  have halone := fun t => run_alone (t := t) hd hi h
  have hfiles := selected_files filter hd
  have hnodup := nodup_selected_paths filter hd
  have hselected : ({ d with templates := ts' }.selectedTemplates filter p.registry).Perm
      (d.selectedTemplates filter p.registry) := hts.filter _
  obtain ⟨hresults, hcombines⟩ := processed_alone force hi hfiles (fun _ => id) hnodup
  obtain ⟨hresults', hcombines'⟩ := processed_alone force hi hfiles
    (fun t => hselected.mem_iff.1) ((hselected.map _).nodup_iff.2 hnodup)
  have hperm := hselected.map fun t => (p.process .sync w t).2
  rw [← hresults, ← hresults'] at hperm
  obtain ⟨hsame, hswept⟩ :=
    swept_of_same (by simp) hts (hcombines.same hcombines' fun t => hselected.mem_iff)
  obtain rfl : v = (p.swept w d ⟨.sync, force, filter⟩).1 := by rw [← Project.run_fst, h]
  obtain rfl : v' = (p.swept w { d with templates := ts' } ⟨.sync, force, filter⟩).1 := by
    rw [← Project.run_fst, h']
  obtain rfl : r = (p.run w d ⟨.sync, force, filter⟩).2 := by rw [h]
  obtain rfl : r' = (p.run w { d with templates := ts' } ⟨.sync, force, filter⟩).2 := by rw [h']
  refine ⟨hsame, ⟨?_, ?_, ?_, ?_⟩, halone⟩
  · rw [Project.run_outcomes, Project.run_outcomes]
    exact hperm.filterMap _
  · rw [Project.run_failures, Project.run_failures, hswept]
    exact ((hperm.filterMap _).append_left _).append_right _
  · show (((p.processed w _ _).2.filter _).map _).Perm (((p.processed w _ _).2.filter _).map _)
    exact (hperm.filter _).map _
  · rw [Project.run_stale, Project.run_stale, hswept]

end

end

/-! ## Two templates -/

/-- A project with its agents in one directory below the root. -/
def shallow : Project := winding "x"

/-- The second of two templates. -/
def secondTemplate (text : String) : Template :=
  ⟨⟨"pm", "b"⟩, .role, ⟨"./templates/commands/pm/b.md"⟩, text⟩

/-- The discovery of both. -/
def pairDiscovery (text : String) : Discovery where
  templates := [detourTemplate "a", secondTemplate text]
  unreadable := []
  partials := []

/-- Their workspace, with an empty directory for the agents. -/
def pairWorkspace (text : String) : Workspace :=
  ((workspaceWith secondFile text).put (firstFile :: roleDirectory)
    (.file "text".toUTF8)).put detourDirectory .directory

theorem search_of_pairDiscovery {p : Project} {w : Workspace} {text : String}
    (h : w.isDirectory (p.settings.commandsRoot p.root) = true ∧
      w.list (p.settings.commandsRoot p.root) = .ok [⟨"pm", by decide⟩] ∧
      Discovery.searchScope w p.settings (p.settings.commandsRoot p.root) ⟨"pm", by decide⟩ =
        .ok [.template (detourTemplate "a"), .template (secondTemplate text)]) :
    Discovery.search w p.root p.settings = .ok (pairDiscovery text) := by
  obtain ⟨hroot, hscopes, hfound⟩ := h
  have hsorted : Discovery.identityLE ⟨"pm", "a"⟩ ⟨"pm", "b"⟩ = true := by decide +kernel
  exact Discovery.search_of_pair hroot hscopes hfound (List.pairwise_pair.2 hsorted)

theorem search_pairWorkspace :
    Discovery.search (pairWorkspace "text") shallow.root shallow.settings =
      .ok (pairDiscovery "text") := search_of_pairDiscovery (by decide +kernel)

theorem compile_first (w : Workspace) :
    shallow.compile w (detourTemplate "a") = .ok (detourDocument "a") := compile_winding "x" w

theorem compile_second (w : Workspace) :
    shallow.compile w (secondTemplate "text") = .ok (detourDocument "b") :=
  compile_plainText shallow w (secondTemplate "text") (by simp [secondTemplate])

theorem independent_shallow :
    Independent shallow (pairWorkspace "text")
      ((pairDiscovery "text").selectedTemplates .all shallow.registry) := by
  have ha : shallow.settings.isAccepted = true := by decide +kernel
  have hdir : (pairWorkspace "text").directoryAt shallow.outputRoot.way = .ok detourDirectory := by
    decide +kernel
  have hnone : (pairWorkspace "text").tree.find? (missingFile :: detourDirectory) = none ∧
      (pairWorkspace "text").tree.find? (linkedFile :: detourDirectory) = none := by
    decide +kernel
  have hnames : RawText.ofString (fileName (detourTemplate "a").identity.name) =
        missingFile.raw ∧
      RawText.ofString (fileName (secondTemplate "text").identity.name) = linkedFile.raw := by
    decide +kernel
  refine .of_linkFree hdir ?_ (selected_files .all search_pairWorkspace)
    (nodup_selected_names ha search_pairWorkspace (by decide)) ?_
  · intro t ht f hf dir hdir' target
    rw [hdir] at hdir'
    cases hdir'
    rcases List.mem_pair.1 ht with rfl | rfl
    · obtain rfl : f = missingFile := FileName.raw_injective (hf.trans hnames.1)
      rw [hnone.1]
      simp
    · obtain rfl : f = linkedFile := FileName.raw_injective (hf.trans hnames.2)
      rw [hnone.2]
      simp
  · intro t ht v _
    rcases List.mem_pair.1 ht with rfl | rfl
    · rw [compile_first, compile_first]
    · rw [compile_second, compile_second]

/-- Nothing is read at the path of an agent, and it can be written. -/
structure Project.IsVacant (p : Project) (w : Workspace) (f : FileName) (l : Location) : Prop where
  read : w.readNormalized? (p.outputRoot.join f.raw) = .ok none
  directory : w.directoryAt p.outputRoot.way = .ok l
  short : f.isTooLong = false
  entry : w.tree.find? (f :: l) ≠ some .directory

theorem process_of_isVacant {p : Project} {w : Workspace} {t : Template} {d : AgentDocument}
    {f : FileName} {l : Location} (hc : p.compile w t = .ok d)
    (hf : RawText.ofString (fileName t.identity.name) = f.raw) (h : p.IsVacant w f l) :
    p.process .sync w t = (w.put (f :: l) (.file d.artifact.toUTF8),
      ⟨t.identity, d.descriptionDefaulted, .ok (p.outcome .sync t d .written)⟩) := by
  refine process_of_settle hc ?_
  rw [agentPath, hf]
  exact settle_of_ne h.read (by simp) h.directory h.short h.entry

theorem process_shallow : ∀ t ∈ (pairDiscovery "text").templates, ∃ oc,
    (shallow.process .sync (pairWorkspace "text") t).2.result = .ok oc ∧
      oc.identity = t.identity ∧ oc.action = .written := by
  have ha : shallow.IsVacant (pairWorkspace "text") missingFile detourDirectory := by
    constructor <;> decide +kernel
  have hb : shallow.IsVacant (pairWorkspace "text") linkedFile detourDirectory := by
    constructor <;> decide +kernel
  intro t ht
  rcases List.mem_pair.1 ht with rfl | rfl
  · rw [process_of_isVacant (compile_first _) (by decide +kernel) ha]
    exact ⟨_, rfl, rfl, rfl⟩
  · rw [process_of_isVacant (compile_second _) (by decide +kernel) hb]
    exact ⟨_, rfl, rfl, rfl⟩

/-- The discovery in the other order. -/
def swappedDiscovery (text : String) : Discovery :=
  { pairDiscovery text with templates := [secondTemplate text, detourTemplate "a"] }

/-- The run on the templates in their order. -/
def shallowRun : Workspace × Report :=
  shallow.run (pairWorkspace "text") (pairDiscovery "text") ⟨.sync, true, .all⟩

/-- The run on them in the other order. -/
def swappedRun : Workspace × Report :=
  shallow.run (pairWorkspace "text") (swappedDiscovery "text") ⟨.sync, true, .all⟩

theorem run_perm_shallow :
    Discovery.search (pairWorkspace "text") shallow.root shallow.settings =
        .ok (pairDiscovery "text") ∧
      Independent shallow (pairWorkspace "text")
        ((pairDiscovery "text").selectedTemplates .all shallow.registry) ∧
      (swappedDiscovery "text").templates.Perm (pairDiscovery "text").templates ∧
      Same shallowRun.1 swappedRun.1 ∧
      ∀ t ∈ (pairDiscovery "text").templates, ∃ oc ∈ swappedRun.2.outcomes,
        oc.identity = t.identity ∧ oc.action = .written := by
  have hts : (swappedDiscovery "text").templates.Perm (pairDiscovery "text").templates :=
    List.Perm.swap _ _ _
  obtain ⟨hsame, ⟨houtcomes, -⟩, halone⟩ := run_perm search_pairWorkspace
    independent_shallow (show shallowRun = _ from (Prod.eta _).symm) hts
    (show swappedRun = _ from (Prod.eta _).symm)
  refine ⟨search_pairWorkspace, independent_shallow, hts, hsame, fun t ht => ?_⟩
  obtain ⟨oc, hoc, hwritten⟩ := process_shallow t ht
  exact ⟨oc, houtcomes.mem_iff.2 ((halone t ht).1 oc hoc), hwritten⟩

/-! ## Templates that read each other's agents -/

/-- A text that includes the agent of the first template. -/
def includingText : String := "\x7b\x7bINCLUDE:x/pm-a.agent.md\x7d\x7d"

/-- The workspace after the first template is processed. -/
def includedWorkspace : Workspace :=
  (pairWorkspace includingText).put (missingFile :: detourDirectory)
    (.file (detourDocument "a").artifact.toUTF8)

/-- A workspace in which the agent of the second template is no text. -/
def undecodableWorkspace : Workspace :=
  (pairWorkspace "text").put (linkedFile :: detourDirectory) (.file ⟨#[255]⟩)

theorem search_including :
    Discovery.search (pairWorkspace includingText) shallow.root shallow.settings =
      .ok (pairDiscovery includingText) := search_of_pairDiscovery (by decide +kernel)

theorem search_undecodable :
    Discovery.search undecodableWorkspace detour.root detour.settings =
      .ok (pairDiscovery "text") := search_of_pairDiscovery (by decide +kernel)

/-- What fails in a run without force, where all templates can be read and no directory is `sealed`.
-/
theorem failures_of_not_force {p : Project} {w : Workspace} {d : Discovery} {filter : RoleFilter}
    (hs : w.sealed = []) (hu : d.unreadable = [])
    (hfiles : ∀ t ∈ d.templates, ∃ f : FileName, f.raw = fileName t.identity.name) :
    (p.run w d ⟨.sync, false, filter⟩).2.failures =
      (p.processAll .sync w (d.selectedTemplates filter p.registry)).2.filterMap
        Processed.failure? := by
  have hsealed : (p.processed w d ⟨.sync, false, filter⟩).1.sealed = [] :=
    (processed_stage p w d _ hfiles).sealed.trans hs
  rw [Project.run_failures, Project.swept_eq (by simp),
    sweep_failures_of_not_force (listable_of_unsealed hsealed), List.append_nil,
    Discovery.selectedUnreadable, hu]
  rfl

theorem exists_file_pair {text : String} {t : Template}
    (ht : t = detourTemplate "a" ∨ t = secondTemplate text) :
    ∃ f : FileName, f.raw = fileName t.identity.name := by
  have hnames : missingFile.raw = RawText.ofString (fileName (Identity.name ⟨"pm", "a"⟩)) ∧
      linkedFile.raw = RawText.ofString (fileName (Identity.name ⟨"pm", "b"⟩)) := by
    decide +kernel
  rcases ht with rfl | rfl
  · exact ⟨missingFile, hnames.1⟩
  · exact ⟨linkedFile, hnames.2⟩

theorem failures_pair {p : Project} {w : Workspace} (hs : w.sealed = []) (text : String) :
    (p.run w (pairDiscovery text) ⟨.sync, false, .all⟩).2.failures =
      (p.processAll .sync w [detourTemplate "a", secondTemplate text]).2.filterMap
        Processed.failure? :=
  failures_of_not_force hs rfl fun _ ht => exists_file_pair (List.mem_pair.1 ht)

theorem failures_swapped {p : Project} {w : Workspace} (hs : w.sealed = []) (text : String) :
    (p.run w (swappedDiscovery text) ⟨.sync, false, .all⟩).2.failures =
      (p.processAll .sync w [secondTemplate text, detourTemplate "a"]).2.filterMap
        Processed.failure? :=
  failures_of_not_force hs rfl fun _ ht => exists_file_pair (List.mem_pair.1 ht).symm

/-- The second template can be compiled behind the first. -/
theorem compile_including : ∃ d, shallow.compile includedWorkspace (secondTemplate includingText) =
    .ok d := by
  have hl : Template.locate includedWorkspace shallow.root
      (Text.trim "x/pm-a.agent.md".toList) = .ok (missingFile :: detourDirectory) := by
    decide +kernel
  have ht : includedWorkspace.textAt (missingFile :: detourDirectory) =
      .ok (detourDocument "a").artifact :=
    textAt_of_find? (FileTree.find?_insert_self (by simp))
  have hbare : '\x7b' ∉ (detourDocument "a").artifact.toList := by
    have hheader : '\x7b' ∉ (detourDocument "a").header.render := by decide +kernel
    have hbody : '\x7b' ∉ Text.normalizeBreaks (detourDocument "a").body := by decide +kernel
    rw [AgentDocument.artifact, String.toList_ofList, AgentDocument.render,
      AgentHeader.normalizeBreaks_render_append, List.mem_append]
    exact fun h => h.elim hheader hbody
  have hexpand : Template.expand includedWorkspace shallow.root (9 + 1) includingText.toList =
      .ok (detourDocument "a").artifact.toList :=
    Template.expand_of_directive (by decide +kernel) (by decide +kernel) (by decide +kernel) hl ht
      (Template.hasUnresolved_of_notMem hbare) 9
  have htext : (secondTemplate includingText).text = includingText := rfl
  have hdepth : shallow.settings.depthLimit = 9 + 1 := rfl
  rw [Project.compile, htext, hdepth, hexpand]
  exact ⟨_, rfl⟩

theorem failures_including :
    (shallow.processAll .sync (pairWorkspace includingText)
      [detourTemplate "a", secondTemplate includingText]).2.filterMap Processed.failure? = [] := by
  have hfirst : shallow.IsVacant (pairWorkspace includingText) missingFile detourDirectory := by
    constructor <;> decide +kernel
  have hsecond : shallow.IsVacant includedWorkspace linkedFile detourDirectory := by
    constructor <;> decide +kernel
  have ha : (shallow.process .sync (pairWorkspace includingText) (detourTemplate "a")).1 =
        includedWorkspace ∧ (shallow.process .sync (pairWorkspace includingText)
          (detourTemplate "a")).2.failure? = none := by
    rw [process_of_isVacant (compile_first _) (by decide +kernel) hfirst]
    exact ⟨rfl, rfl⟩
  have hb : (shallow.process .sync includedWorkspace (secondTemplate includingText)).2.failure? =
      none := by
    obtain ⟨d, hc⟩ := compile_including
    rw [process_of_isVacant hc (by decide +kernel) hsecond]
    rfl
  exact failures_of_pair ha.1 ha.2 hb

/-- Two templates that are shown alike, in the other order. -/
def swappedLookalike : Discovery :=
  { lookalikeDiscovery with templates := [blurredTemplate 255 "one", blurredTemplate 254 "two"] }

/-- The artifact of the template that comes last in this order stands in the end. -/
theorem run_swappedLookalike :
    (shelf.run lookalikeWorkspace swappedLookalike ⟨.sync, false, .all⟩).1 =
      lookalikeWritten "one" "two" := by
  rw [Project.run_fst, Project.swept_eq (by simp), sweep_of_not_force, Project.processed,
    Discovery.selectedTemplates_all]
  exact congrArg Prod.fst
    (processAll_lookalike 255 254 (by decide) (by decide) (by decide) artifact_blurred_ne.symm)

/-- Three discovered projects with ordinary settings, in which the order of the templates makes a
difference. In the first two a template fails in one order and not in the other: it includes the
agent of the other template; or its own agent cannot be decoded and stands behind a missing
directory, which is made for the other template. In the third the templates are shown alike and
neither includes anything, and the agent that both of them write is that of the last one. -/
theorem run_perm_ne :
    (shallow.settings.isAccepted = true ∧
      Discovery.search (pairWorkspace includingText) shallow.root shallow.settings =
        .ok (pairDiscovery includingText) ∧
      (swappedDiscovery includingText).templates.Perm (pairDiscovery includingText).templates ∧
      (shallow.run (pairWorkspace includingText) (pairDiscovery includingText)
        ⟨.sync, false, .all⟩).2.failures = [] ∧
      (shallow.run (pairWorkspace includingText) (swappedDiscovery includingText)
        ⟨.sync, false, .all⟩).2.failures.map (·.subject) = ["pm-b"]) ∧
    (detour.settings.isAccepted = true ∧
      Discovery.search undecodableWorkspace detour.root detour.settings =
        .ok (pairDiscovery "text") ∧
      (swappedDiscovery "text").templates.Perm (pairDiscovery "text").templates ∧
      (detour.run undecodableWorkspace (pairDiscovery "text")
        ⟨.sync, false, .all⟩).2.failures.map (·.subject) = ["pm-b"] ∧
      (detour.run undecodableWorkspace (swappedDiscovery "text")
        ⟨.sync, false, .all⟩).2.failures = []) ∧
    shelf.settings.isAccepted = true ∧
      Discovery.search lookalikeWorkspace shelf.root shelf.settings = .ok lookalikeDiscovery ∧
      swappedLookalike.templates.Perm lookalikeDiscovery.templates ∧
      (∀ t ∈ lookalikeDiscovery.templates, ∀ w,
        shelf.compile w t = shelf.compile lookalikeWorkspace t) ∧
      ¬ Same (shelf.run lookalikeWorkspace lookalikeDiscovery ⟨.sync, false, .all⟩).1
        (shelf.run lookalikeWorkspace swappedLookalike ⟨.sync, false, .all⟩).1 := by
  have hdetour := detourFacts
  have hlookalike := lookalikeFacts
  refine ⟨⟨by decide +kernel, search_including, List.Perm.swap _ _ _, ?_, ?_⟩,
    ⟨hdetour.accepted, search_undecodable, List.Perm.swap _ _ _, ?_, ?_⟩,
    hlookalike.accepted, search_lookalike, List.Perm.swap _ _ _,
    fun t ht w => compile_lookalike ht _ _, fun hsame => ?_⟩
  · rw [failures_pair rfl]
    exact failures_including
  · rw [failures_swapped rfl]
    decide +kernel
  · rw [failures_pair rfl]
    decide +kernel
  · rw [failures_swapped rfl]
    decide +kernel
  · have hread := hsame.readNormalized? (agentPath shelf.outputRoot "pm-a\ufffd")
    rw [(run_lookalike false).1, run_swappedLookalike, read_lookalike, read_lookalike] at hread
    exact artifact_blurred_ne (Option.some.inj (Except.ok.inj hread))

end AgentDocs
