import AgentDocs.Proofs.Build.Stale
import AgentDocs.Proofs.Template.Inventory

/-!
# Chosen agents

A run that is limited to a role compiles the templates that the choice selects, and sweeps away the
agents that the choice is about. A sweep has no more than the name of a file to decide by. With
accepted settings that is enough: the name is read back as the identity of the template, and its
scope has the kind that the discovery gave it.

* `considers_iff_selects`: an identity of a known scope is chosen by the sweep and by the run alike.
* `mem_candidates_iff_selected`: so is the file of an agent and its template.
-/

namespace AgentDocs

open AgentDocs.Files AgentDocs.Files.Workspace

section
variable {w v : Workspace} {s : Settings} {r : Registry} {filter : RoleFilter} {i : Identity}
  {kind : ScopeKind} {out : PathName} {dir : Location} {f : FileName} {bytes : ByteArray}

/-- `Sweep.considers` and `RoleFilter.selects` choose by different tests, one for each kind of
scope. -/
theorem considers_iff_selects (hk : Discovery.scopeKind? s i.scope = some kind) :
    Sweep.considers s r filter i = true ↔ filter.selects r kind i = true := by
  obtain ⟨hknown, rfl⟩ := Discovery.scopeKind?_eq_some_iff.1 hk
  rw [considers_iff, and_iff_right hknown]
  unfold RoleFilter.Accepts
  cases filter with
  | all => simp [RoleFilter.selects]
  | role name =>
    cases ho : isOperational i.scope with
    | true => simp [RoleFilter.selects]
    | false => simp [RoleFilter.selects]

theorem mem_candidates_iff_selects (ha : s.isAccepted = true)
    (hk : Discovery.scopeKind? s i.scope = some kind) (hc : i.command ≠ "")
    (hf : f.text = fileName i.name) (hb : w.tree.find? (f :: dir) = some (.file bytes)) :
    ⟨i.name, out.join f.raw⟩ ∈ Sweep.candidates w s r filter out dir ↔
      filter.selects r kind i = true := by
  have hname := Discovery.ofName?_name_of_scopeKind? ha hk hc
  rw [← considers_iff_selects hk, considers_iff, mem_candidates_iff]
  constructor
  · rintro ⟨-, ⟨-, -, j, hj, hj'⟩, -⟩
    change j.name = i.name at hj
    obtain rfl : j = i := by
      rw [← hj, Identity.ofName?_eq_some_iff.2 ⟨rfl, hj'.1, hj'.2.1, hj'.2.2.1⟩] at hname
      exact Option.some.inj hname
    exact hj'.2.2.2
  · intro hchosen
    obtain ⟨-, hhyphen, hscope, -⟩ := Identity.ofName?_eq_some_iff.1 hname
    exact ⟨f, ⟨⟨bytes, hb⟩, hf, i, rfl, hhyphen, hscope, hc, hchosen⟩, rfl⟩

/-- For every choice of roles `filter`, a sweep looks at the file `f` of an agent if and only if a
run compiles the template of the agent, wherever that was discovered and whether or not it can be
read. -/
theorem mem_candidates_iff_selected (ha : s.isAccepted = true)
    (hknown : isOperational i.scope = true ∨ s.isNamespace i.scope = true) (hc : i.command ≠ "")
    (hf : f.text = fileName i.name) (hb : w.tree.find? (f :: dir) = some (.file bytes)) :
    (∃ kind, Discovery.scopeKind? s i.scope = some kind ∧
      (⟨i.name, out.join f.raw⟩ ∈ Sweep.candidates w s r filter out dir ↔
        filter.selects r kind i = true)) ∧
    ∀ v root d, Discovery.search v root s = .ok d →
      (∀ t ∈ d.templates, t.identity = i →
        (⟨i.name, out.join f.raw⟩ ∈ Sweep.candidates w s r filter out dir ↔
          t ∈ d.selectedTemplates filter r)) ∧
      ∀ u ∈ d.unreadable, u.identity = i →
        (⟨i.name, out.join f.raw⟩ ∈ Sweep.candidates w s r filter out dir ↔
          u ∈ d.selectedUnreadable filter r) := by
  refine ⟨⟨_, Discovery.scopeKind?_eq_some_iff.2 ⟨hknown, rfl⟩, ?_⟩, fun v root d hd => ⟨?_, ?_⟩⟩
  · exact mem_candidates_iff_selects ha (Discovery.scopeKind?_eq_some_iff.2 ⟨hknown, rfl⟩) hc hf hb
  · rintro t ht rfl
    rw [mem_candidates_iff_selects ha (Discovery.kind_of_mem_templates hd ht) hc hf hb,
      Discovery.selectedTemplates, List.mem_filter, and_iff_right ht]
  · rintro u hu rfl
    rw [mem_candidates_iff_selects ha (Discovery.kind_of_mem_unreadable hd hu) hc hf hb,
      Discovery.selectedUnreadable, List.mem_filter, and_iff_right hu]

end

/-! ## A command of a namespace -/

/-- A registry in which a role owns a command with a hyphen. -/
def hyphenRegistry : Registry := .ofDefinitions [⟨"dev", ["a-b"], []⟩]

/-- The file of the agent of that command in a namespace. -/
def hyphenFile : FileName := ⟨"flow-a-b.agent.md", by decide⟩

/-- Its template. -/
def hyphenTemplate : Template :=
  ⟨⟨"flow", "a-b"⟩, .namespaced, ⟨"./templates/commands/flow/a-b.md"⟩, "text"⟩

/-- The discovery of the template. -/
def hyphenDiscovery : Discovery where
  templates := [hyphenTemplate]
  unreadable := []
  partials := []

/-- The workspace of the template and the agent. -/
def hyphenWorkspace : Workspace where
  tree := ((((((FileTree.empty.insert (roleDirectory.drop 2) .directory).insert
    (roleDirectory.drop 1) .directory).insert Discovery.namespaceDirectory .directory).insert
    (⟨"a-b.md", by decide⟩ :: Discovery.namespaceDirectory) (.file "text".toUTF8)).insert
    (shelfDirectory.drop 1) .directory).insert shelfDirectory .directory).insert
    (hyphenFile :: shelfDirectory) (.file .empty)
  start := []
  sealed := []

theorem mem_candidates_iff_selected_hyphen :
    Settings.standard.isAccepted = true ∧
      Discovery.search hyphenWorkspace ⟨"."⟩ .standard = .ok hyphenDiscovery ∧
      hyphenWorkspace.tree.find? (hyphenFile :: shelfDirectory) = some (.file .empty) ∧
      ⟨"flow-a-b", shelf.outputRoot.join hyphenFile.raw⟩ ∈ Sweep.candidates hyphenWorkspace
        .standard hyphenRegistry (.role "dev") shelf.outputRoot shelfDirectory ∧
      ⟨"flow-a-b", shelf.outputRoot.join hyphenFile.raw⟩ ∉ Sweep.candidates hyphenWorkspace
        .standard hyphenRegistry (.role "qa") shelf.outputRoot shelfDirectory := by
  have ha : Settings.standard.isAccepted = true := by decide +kernel
  have hd : Discovery.search hyphenWorkspace ⟨"."⟩ .standard = .ok hyphenDiscovery := by
    decide +kernel
  have hb : hyphenWorkspace.tree.find? (hyphenFile :: shelfDirectory) = some (.file .empty) := by
    decide +kernel
  have hagree : ∀ filter, ⟨"flow-a-b", shelf.outputRoot.join hyphenFile.raw⟩ ∈
      Sweep.candidates hyphenWorkspace .standard hyphenRegistry filter shelf.outputRoot
        shelfDirectory ↔ hyphenTemplate ∈ hyphenDiscovery.selectedTemplates filter hyphenRegistry :=
    fun filter => ((mem_candidates_iff_selected (i := ⟨"flow", "a-b"⟩) ha (.inr (by decide))
      (by decide) (by decide +kernel) hb).2 _ _ _ hd).1 _ (List.mem_singleton.2 rfl) rfl
  refine ⟨ha, hd, hb, (hagree _).2 ?_, fun hm => ?_⟩
  · decide +kernel
  · exact absurd ((hagree _).1 hm) (by decide +kernel)

end AgentDocs
