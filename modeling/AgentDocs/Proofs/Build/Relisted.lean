import AgentDocs.Proofs.Build.Order
import AgentDocs.Proofs.Template.Confinement
import AgentDocs.Proofs.Template.Sorted

/-!
# The order of listings

Directories may list their entries in any order. A discovery sorts what it finds, templates read
their files by paths, and a sweep sorts what it looks at, so the order shows only where templates
are shown alike: they have one identity, and sorting leaves them in the order they were listed in.

* `Same.compile`, `Same.settle`: templates and artifacts, without a look at any listing.
* `Same.process`, `Same.processAll`: templates one after the other.
* `Same.run`: a whole run.
* `search_eq_iff`: the discoveries that come out alike in all orders.
* `run_relisted`: discoveries and runs where all directories list their entries in other orders.
* `run_relisted_ne`: a project whose agent is decided by the order of a listing.
-/

namespace AgentDocs

open AgentDocs.Files AgentDocs.Files.Workspace

namespace Files.Workspace

section
variable {w v : Workspace} {p : Project} {mode : Mode}

theorem Same.agreeWithin (h : Same w v) (root : PathName) : Template.AgreeWithin root v w where
  start := h.start
  outline := h.outline
  within _ l _ _ _ := by rw [h.entries l]

theorem Same.compile (h : Same w v) (p : Project) (t : Template) :
    p.compile v t = p.compile w t := by
  rw [Project.compile, Project.compile, Template.expand, Template.expand,
    (h.agreeWithin p.root).expandAt]

theorem Same.settle (h : Same w v) (mode : Mode) (path : PathName) (artifact : String) :
    Same (settle w mode path artifact).1 (settle v mode path artifact).1 ∧
      (settle v mode path artifact).2 = (settle w mode path artifact).2 := by
  cases mode with
  | preview => exact ⟨h, rfl⟩
  | validate =>
    refine ⟨h, ?_⟩
    simp only [AgentDocs.settle, h.readNormalized?]
  | sync =>
    simp only [AgentDocs.settle, h.readNormalized?]
    cases w.readNormalized? path with
    | error e => exact ⟨h, rfl⟩
    | ok existing =>
      dsimp only
      split
      · exact ⟨h, rfl⟩
      · obtain ⟨w', v', r, hw, hv, h'⟩ := exists_of_same (h.write path artifact.toUTF8)
        simp only [hw, hv]
        cases r with
        | error e => exact ⟨h', rfl⟩
        | ok u => exact ⟨h', rfl⟩

theorem Same.process (h : Same w v) (p : Project) (mode : Mode) (t : Template) :
    Same (p.process mode w t).1 (p.process mode v t).1 ∧
      (p.process mode v t).2 = (p.process mode w t).2 := by
  cases hc : p.compile w t with
  | error e =>
    rw [process_of_error hc, process_of_error ((h.compile p t).trans hc)]
    exact ⟨h, rfl⟩
  | ok d =>
    obtain ⟨w', v', r, hw, hv, h'⟩ := exists_of_same
      (h.settle mode (agentPath p.outputRoot t.identity.name) d.artifact)
    rw [process_of_ok hc, process_of_ok ((h.compile p t).trans hc), hw, hv]
    cases r with
    | error e => exact ⟨h', rfl⟩
    | ok action => exact ⟨h', rfl⟩

theorem Same.processAll (h : Same w v) (p : Project) (mode : Mode) (ts : List Template) :
    Same (p.processAll mode w ts).1 (p.processAll mode v ts).1 ∧
      (p.processAll mode v ts).2 = (p.processAll mode w ts).2 := by
  induction ts generalizing w v with
  | nil => exact ⟨h, rfl⟩
  | cons t rest ih =>
    obtain ⟨hfirst, hresult⟩ := h.process p mode t
    obtain ⟨hrest, hresults⟩ := ih hfirst
    rw [processAll_cons, processAll_cons]
    refine ⟨hrest, ?_⟩
    dsimp only
    rw [hresult, hresults]

theorem Same.sweepOf (h : Same w v) (p : Project) (filter : RoleFilter) (force : Bool)
    (known : List String) :
    Same (Sweep.run w p.settings p.registry filter force p.outputRoot known).1
        (Sweep.run v p.settings p.registry filter force p.outputRoot known).1 ∧
      (Sweep.run v p.settings p.registry filter force p.outputRoot known).2 =
        (Sweep.run w p.settings p.registry filter force p.outputRoot known).2 :=
  h.sweep fun _ => Iff.rfl

/-- A run does not depend on the order in which directories list their entries. -/
theorem Same.run (h : Same w v) (p : Project) (d : Discovery) (o : Options) :
    Same (p.run w d o).1 (p.run v d o).1 ∧ (p.run v d o).2 = (p.run w d o).2 := by
  obtain ⟨w', v', xs, hw, hv, h'⟩ := exists_of_same
    (h.processAll p o.mode (d.selectedTemplates o.filter p.registry))
  by_cases hm : o.mode = .preview
  · simp only [Project.run, hw, hv, if_pos hm]
    exact ⟨h', trivial⟩
  · obtain ⟨w'', v'', s, hw', hv', h''⟩ :=
      exists_of_same (h'.sweepOf p o.filter o.force d.names)
    simp only [Project.run, hw, hv, if_neg hm, hw', hv']
    exact ⟨h'', trivial⟩

end

end Files.Workspace

/-- A discovery comes out alike in all orders `b` of listing exactly where no two templates have one
identity, neither among those that can be read nor among the others. -/
theorem Discovery.search_eq_iff {w : Workspace} {root : PathName} {s : Settings} {d : Discovery}
    {a : w.tree.Listing} (hd : search (w.relisted a) root s = .ok d) :
    (∀ b : w.tree.Listing, search (w.relisted b) root s = .ok d) ↔
      (d.templates.map (·.identity)).Nodup ∧ (d.unreadable.map (·.identity)).Nodup := by
  constructor
  · intro hall
    obtain ⟨found, rfl, hapart, hreversed⟩ := search_reversed hd
    rw [hall] at hreversed
    exact nodup_of_ofFound_reverse hapart (Except.ok.inj hreversed).symm
  · rintro ⟨ht, hu⟩ b
    obtain ⟨⟨templates, unreadable, partials⟩, hd', -, htemplates, hunreadable, hpartials⟩ :=
      (w.same_relistings a b).discovery hd
    obtain rfl := htemplates ht
    obtain rfl := hunreadable hu
    obtain rfl := hpartials
    exact hd'

/-- However directories list their entries, a discovery fails alike or records the same: partial
files in the same order, and templates in the same order exactly where no two of them have one
identity. A run on what is discovered makes the same report and leaves the same entries behind, and
a sweep does so by itself, so this holds too where the directory of the agents is listed in yet
another order after the artifacts are written. -/
theorem run_relisted (p : Project) (w : Workspace) :
    (∀ (a : w.tree.Listing) dir, (w.relisted a).tree.children dir = a.order dir) ∧
    (∀ (a b : w.tree.Listing) e, Discovery.search (w.relisted a) p.root p.settings = .error e →
      ∃ e', Discovery.search (w.relisted b) p.root p.settings = .error e') ∧
    (∀ (a b : w.tree.Listing) d, Discovery.search (w.relisted a) p.root p.settings = .ok d →
      ∃ d', Discovery.search (w.relisted b) p.root p.settings = .ok d' ∧
        d'.templates.Perm d.templates ∧ d'.unreadable.Perm d.unreadable ∧
        d'.partials = d.partials) ∧
    (∀ (a : w.tree.Listing) d, Discovery.search (w.relisted a) p.root p.settings = .ok d →
      ((∀ b : w.tree.Listing, Discovery.search (w.relisted b) p.root p.settings = .ok d) ↔
        (d.templates.map (·.identity)).Nodup ∧ (d.unreadable.map (·.identity)).Nodup)) ∧
    (∀ (a b : w.tree.Listing) d o, Same (p.run (w.relisted a) d o).1 (p.run (w.relisted b) d o).1 ∧
      (p.run (w.relisted a) d o).2 = (p.run (w.relisted b) d o).2) ∧
    ∀ (a b : w.tree.Listing) filter force known,
      Same (Sweep.run (w.relisted a) p.settings p.registry filter force p.outputRoot known).1
          (Sweep.run (w.relisted b) p.settings p.registry filter force p.outputRoot known).1 ∧
        (Sweep.run (w.relisted a) p.settings p.registry filter force p.outputRoot known).2 =
          (Sweep.run (w.relisted b) p.settings p.registry filter force p.outputRoot known).2 := by
  refine ⟨FileTree.children_relisted, fun a b e he => ?_, fun a b d hd => ?_,
    fun a d => Discovery.search_eq_iff, fun a b d o => ?_, fun a b filter force known => ?_⟩
  · rcases (w.same_relistings a b).search p.root p.settings with ⟨e', -, he'⟩ | ⟨_, _, hd, -⟩
    · exact ⟨e', he'⟩
    · cases hd.symm.trans he
  · obtain ⟨d', hd', ⟨ht, hu⟩, -, -, hpartials⟩ := (w.same_relistings a b).discovery hd
    exact ⟨d', hd', ht, hu, hpartials⟩
  · obtain ⟨hsame, hreport⟩ := (w.same_relistings a b).run p d o
    exact ⟨hsame, hreport.symm⟩
  · obtain ⟨hsame, hresult⟩ := (w.same_relistings a b).sweepOf p filter force known
    exact ⟨hsame, hresult.symm⟩

/-- A workspace with two templates that are listed the other way round. -/
def reversedWorkspace : Workspace :=
  (pairWorkspace "text").relisted (FileTree.Listing.given _).reversed

theorem run_relisted_reversed :
    reversedWorkspace.tree.children roleDirectory = [secondFile, firstFile] ∧
      Discovery.search reversedWorkspace shallow.root shallow.settings =
        .ok (pairDiscovery "text") ∧
      (shallow.run reversedWorkspace (pairDiscovery "text") ⟨.sync, true, .all⟩).2 =
        (shallow.run ((pairWorkspace "text").relisted (.given _)) (pairDiscovery "text")
          ⟨.sync, true, .all⟩).2 := by
  obtain ⟨hlisted, -, -, hsearch, hrun, -⟩ := run_relisted shallow (pairWorkspace "text")
  have hgiven : Discovery.search ((pairWorkspace "text").relisted (.given _)) shallow.root
      shallow.settings = .ok (pairDiscovery "text") :=
    search_of_pairDiscovery (by decide +kernel)
  exact ⟨(hlisted _ roleDirectory).trans (by decide +kernel),
    (hsearch (.given _) _ hgiven).2 ⟨by decide, by decide⟩ _, (hrun _ _ _ _).2⟩

/-! ## Templates that are shown alike -/

/-- The workspace of two templates that are shown alike, as it is listed from the other end. -/
def turnedWorkspace : Workspace :=
  lookalikeWorkspace.relisted (FileTree.Listing.given _).reversed

theorem search_turned :
    Discovery.search turnedWorkspace shelf.root shelf.settings = .ok swappedLookalike := by
  have hfound : turnedWorkspace.isDirectory (shelf.settings.commandsRoot shelf.root) = true ∧
      turnedWorkspace.list (shelf.settings.commandsRoot shelf.root) = .ok [⟨"pm", by decide⟩] ∧
      Discovery.searchScope turnedWorkspace shelf.settings
        (shelf.settings.commandsRoot shelf.root) ⟨"pm", by decide⟩ =
          .ok [.template (blurredTemplate 255 "one"), .template (blurredTemplate 254 "two")] := by
    decide +kernel
  obtain ⟨hroot, hscopes, hscope⟩ := hfound
  exact Discovery.search_of_pair hroot hscopes hscope (List.pairwise_pair.2 (by decide +kernel))

/-- Two workspaces with ordinary settings that hold the same entries and list them in different
orders: the templates are discovered in different orders, and a run on them leaves different agents
behind. -/
theorem run_relisted_ne :
    shelf.settings.isAccepted = true ∧ Same lookalikeWorkspace turnedWorkspace ∧
      Discovery.search lookalikeWorkspace shelf.root shelf.settings = .ok lookalikeDiscovery ∧
      Discovery.search turnedWorkspace shelf.root shelf.settings = .ok swappedLookalike ∧
      swappedLookalike ≠ lookalikeDiscovery ∧
      ¬ Same (shelf.run lookalikeWorkspace lookalikeDiscovery ⟨.sync, false, .all⟩).1
        (shelf.run turnedWorkspace swappedLookalike ⟨.sync, false, .all⟩).1 := by
  have hlookalike := lookalikeFacts
  have hturned : Same lookalikeWorkspace turnedWorkspace := lookalikeWorkspace.same_relisted _
  refine ⟨hlookalike.accepted, hturned, search_lookalike, search_turned, by decide,
    fun hsame => ?_⟩
  have hread := (hsame.trans (hturned.run shelf swappedLookalike _).1.symm).readNormalized?
    (agentPath shelf.outputRoot "pm-a\ufffd")
  rw [(run_lookalike false).1, run_swappedLookalike, read_lookalike, read_lookalike] at hread
  exact artifact_blurred_ne (Option.some.inj (Except.ok.inj hread))

end AgentDocs
