import AgentDocs.Proofs.Build.Footprint
import AgentDocs.Proofs.Template.Found

/-!
# Sources after a run

A run leaves every source as it was, except where the project keeps a source among its agents: the
output directory may hold templates, and one whose name is the name of an agent is written over or
swept away like one. Such a run says so in its report.

* `run_keeps_sources`: what becomes of every source that discovery recorded.
-/

namespace AgentDocs

open AgentDocs.Files AgentDocs.Files.Workspace

/-- `path` still leads to the file at `l` with the same `bytes` after a run that changed nothing of
what it looks at. -/
theorem Stage.resolve_eq {W R : FileName → Prop} {out path : PathName} {w v : Workspace}
    {l : Location} {bytes : ByteArray} (h : Stage W R out w v) (hl : w.resolve path = .ok l)
    (hb : w.tree.find? l = some (.file bytes))
    (hn : ∀ f dir, (w.grown out).directoryAt out.way = .ok dir →
      f :: dir ∈ l :: w.tree.visited linkLimit w.start path.moves → ¬ (W f ∨ R f)) :
    v.resolve path = .ok l ∧ v.bytesAt l = .ok bytes := by
  unfold resolve at hl ⊢
  cases hr : path.refusal? with
  | some e => rw [hr] at hl; cases hl
  | none =>
    rw [hr] at hl
    have hleads := FileTree.leads_of_walk hl
    have hkept : ∀ m ∈ l :: w.tree.visited linkLimit w.start path.moves,
        v.tree.find? m = w.tree.find? m := by
      intro m hm
      rcases h.entries m with he | ⟨hnone, -⟩ | ⟨f, dir, hdir, rfl, hf⟩
      · exact he
      · -- all that a path looks at is there
        rcases List.mem_cons.1 hm with rfl | hm
        · rw [hb] at hnone
          cases hnone
        · have := hleads.isSome_of_mem_visited m hm
          rw [hnone] at this
          cases this
      · exact absurd hf (hn f dir hdir hm)
    constructor
    · unfold follow
      rw [h.start]
      exact (hleads.walk_of_kept (fun m hm => h.isDirectory hm) fun m hm =>
        hkept m (List.mem_cons_of_mem _ hm)).walk
    · rw [bytesAt, hkept l List.mem_cons_self, hb]

/-- Every source `path` that discovery recorded still stands with its bytes after a run, unless it
leads to or through an entry directly in the output directory that the run reports to have written
or removed as the file of an agent. -/
theorem run_keeps_sources {p : Project} {w : Workspace} {d : Discovery} {path : PathName}
    (hd : Discovery.search w p.root p.settings = .ok d) (hp : path ∈ d.sources) (o : Options) :
    ∃ l bytes, w.resolve path = .ok l ∧ w.bytesAt l = .ok bytes ∧
      (((p.run w d o).1.resolve path = .ok l ∧ (p.run w d o).1.bytesAt l = .ok bytes) ∨
        ∃ f dir, (w.grown p.outputRoot).directoryAt p.outputRoot.way = .ok dir ∧
          f :: dir ∈ l :: w.tree.visited linkLimit w.start path.moves ∧
          (Written (p.run w d o).2.outcomes f ∨ Removed p.outputRoot (p.run w d o).2.stale f)) := by
  have hfile := Discovery.isFile_of_mem_sources hd hp
  obtain ⟨l, bytes, hl, hb⟩ : ∃ l bytes, w.resolve path = .ok l ∧
      w.tree.find? l = some (.file bytes) := by
    unfold Workspace.isFile at hfile
    split at hfile
    · next bytes he =>
      obtain ⟨l, hl, hb⟩ := resolve_isSome_of_entry? he
      exact ⟨l, bytes, hl, hb⟩
    · cases hfile
  refine ⟨l, bytes, hl, by rw [bytesAt, hb], ?_⟩
  have hstage := run_stage p w d o fun t ht =>
    Discovery.exists_fileName hd (List.mem_append_left _ (List.mem_map_of_mem ht))
  by_cases hx : ∃ f dir, (w.grown p.outputRoot).directoryAt p.outputRoot.way = .ok dir ∧
      f :: dir ∈ l :: w.tree.visited linkLimit w.start path.moves ∧
      (Written (p.run w d o).2.outcomes f ∨ Removed p.outputRoot (p.run w d o).2.stale f)
  · exact .inr hx
  · exact .inl (hstage.resolve_eq hl hb fun f dir hdir hm hf => hx ⟨f, dir, hdir, hm, hf⟩)

/-! ## A source among the agents -/

/-- The agents stand in the directory of the templates of a role. -/
def overlappingSettings : Settings :=
  { Settings.standard with outputDir := ⟨"templates/commands/pm"⟩ }

/-- The project with these settings. -/
def overlapping : Project where
  root := ⟨"."⟩
  settings := overlappingSettings
  registry := .empty
  handoffs := .standard

/-- A workspace with one template, which is named like an agent of another role. -/
def overlappingWorkspace : Workspace := workspaceWith ⟨"arch-x.agent.md", by decide⟩ "text"

/-- The path of the template. -/
def overlappingPath : PathName := ⟨"./templates/commands/pm/arch-x.agent.md"⟩

/-- The discovery of the template. -/
def overlappingDiscovery : Discovery where
  templates := [⟨⟨"pm", "arch-x.agent"⟩, .role, overlappingPath, "text"⟩]
  unreadable := []
  partials := []

/-- A run that removes the stale agents of the other role. -/
def overlappingOptions : Options := ⟨.sync, true, .role "arch"⟩

theorem run_keeps_sources_overlapping :
    Discovery.search overlappingWorkspace overlapping.root overlapping.settings =
        .ok overlappingDiscovery ∧
      ∃ l bytes, overlappingWorkspace.resolve overlappingPath = .ok l ∧
        overlappingWorkspace.bytesAt l = .ok bytes ∧
        (((overlapping.run overlappingWorkspace overlappingDiscovery overlappingOptions).1.resolve
              overlappingPath = .ok l ∧
            (overlapping.run overlappingWorkspace overlappingDiscovery overlappingOptions).1.bytesAt
              l = .ok bytes) ∨
          ∃ f dir, (overlappingWorkspace.grown overlapping.outputRoot).directoryAt
              overlapping.outputRoot.way = .ok dir ∧
            f :: dir ∈ l :: overlappingWorkspace.tree.visited linkLimit overlappingWorkspace.start
              overlappingPath.moves ∧
            (Written (overlapping.run overlappingWorkspace overlappingDiscovery
                overlappingOptions).2.outcomes f ∨
              Removed overlapping.outputRoot (overlapping.run overlappingWorkspace overlappingDiscovery
                overlappingOptions).2.stale f)) :=
  have hd : Discovery.search overlappingWorkspace overlapping.root overlapping.settings =
      .ok overlappingDiscovery := by decide +kernel
  ⟨hd, run_keeps_sources hd (List.mem_singleton.2 rfl) overlappingOptions⟩

/-- The template is a source, and the run removes it as a stale agent. -/
theorem run_removes_source :
    overlappingSettings.isAccepted = true ∧
      Discovery.search overlappingWorkspace overlapping.root overlapping.settings =
        .ok overlappingDiscovery ∧
      overlappingPath ∈ overlappingDiscovery.sources ∧
      overlappingWorkspace.isFile overlappingPath = true ∧
      (overlapping.run overlappingWorkspace overlappingDiscovery overlappingOptions).1.leads
        overlappingPath = false := by
  refine ⟨?_, ?_, List.mem_singleton.2 rfl, ?_, ?_⟩ <;> decide +kernel

end AgentDocs
