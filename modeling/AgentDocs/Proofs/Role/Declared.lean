import AgentDocs.Proofs.Template.Inventory
import AgentDocs.Role.Configuration

/-!
# Declared commands

The checks of a registry look for the template of a declared command at the path that its name
spells. Discovery lists the directories of the scopes, so it has a template at that path exactly
where a file stands there, unless it passes the path over. It may have another template that is only
shown like the command; the checks do not come to that one.

* `PassedOver`: the paths that discovery never comes to, or takes for those of partial files.
* `Offers`: a template is discovered at the path that its scope and its command spell.
* `offers_iff_isFile`: for all paths that are not passed over, this is what stands there.
* `missingTemplate_mem_check_iff`: the commands that are reported.
-/

namespace AgentDocs

open AgentDocs.Files AgentDocs.Files.Workspace

/-! ## Names of scopes and templates -/

theorem isFileName_of_scopeKind? {s : Settings} {scope : String} {kind : ScopeKind}
    (ha : s.isAccepted = true) (hk : Discovery.scopeKind? s scope = some kind)
    (hhere : scope ≠ ".") (hup : scope ≠ "..") : isFileName scope = true := by
  have hname := Discovery.isNamespaceName_of_scopeKind? ha hk
  simp only [Settings.isNamespaceName, Bool.and_eq_true] at hname
  have hne : scope ≠ "" := by simpa using hname.1.1
  have hslash : '/' ∉ scope.toList := by simpa using hname.2
  have hspelled : ∀ {t : String}, scope ≠ t → Text.bytes scope ≠ Text.bytes t :=
    fun h hb => h (RawText.ofString_injective (RawText.ext_bytes hb))
  simp only [isFileName, RawText.bytes_ofString, Bool.and_eq_true, Bool.not_eq_true']
  refine ⟨⟨⟨decide_eq_true (hspelled hne), decide_eq_true (hspelled hhere)⟩,
    decide_eq_true (hspelled hup)⟩, ?_⟩
  simpa using RawText.separator_notMem_bytes hslash

namespace Registry

/-- Where the checks look for the template of a command in a scope. -/
def templatePath (commandsRoot : PathName) (scope command : String) : PathName :=
  (commandsRoot.join scope).join (templateFile command)

/-- A file at that path is no template for a discovery: no file in the directory of the scope has
such a name, it is that of a partial file, or no listed directory is spelled like the scope. -/
def PassedOver (s : Settings) (commandsRoot : PathName) (scope command : String) : Prop :=
  command = "" ∨ '/' ∈ command.toList ∨ Discovery.isPartial s command = true ∨
    scope = "." ∨ scope = ".." ∨ commandsRoot.raw.bytes = []

section
variable {w : Workspace} {s : Settings} {root commandsRoot : PathName} {d : Discovery}
  {r : Registry} {scope role command : String} {kind : ScopeKind}

theorem ofString_templateFile (command : String) :
    RawText.ofString (templateFile command) = command ++ "." ++ templateExtension := by
  rw [← RawText.ofString_append, ← RawText.ofString_append, templateFile, String.append_assoc]
  rfl

/-- The source at the path of a template, unless discovery passes it over. -/
theorem exists_source_of_isFile (ha : s.isAccepted = true)
    (hk : Discovery.scopeKind? s scope = some kind) (hp : ¬ PassedOver s commandsRoot scope command)
    (hf : w.isFile (templatePath commandsRoot scope command) = true) :
    ∃ x : Discovery.Source w s commandsRoot, ¬ x.IsPartial ∧ x.identity = ⟨scope, command⟩ ∧
      x.path = templatePath commandsRoot scope command := by
  simp only [PassedOver, not_or] at hp
  obtain ⟨hempty, hslash, hpartial, hhere, hup, hroot⟩ := hp
  let directory : FileName := ⟨scope, isFileName_of_scopeKind? ha hk hhere hup⟩
  have hfile : isFileName (templateFile command) = true :=
    isFileName_of_append (congrArg RawText.bytes (RawText.ofString_append _ _))
      (RawText.separator_notMem_bytes hslash) (by decide) (by decide)
  let file : FileName := ⟨templateFile command, hfile⟩
  obtain ⟨bytes, hb⟩ := isFile_iff_contents?.1 hf
  obtain ⟨l, hl, -⟩ := contents?_eq_some_iff.1 hb
  obtain ⟨dir, hdir, hd⟩ : w.Lists (commandsRoot.join directory.raw) file :=
    lists_of_resolve_join (PathName.join_bytes_ne_nil commandsRoot directory) hl
  have hcommand : (RawText.ofString command).text = command := RawText.text_ofString command
  have hscope : directory.text = scope := RawText.text_ofString scope
  have hknown : isOperational directory.text = true ∨ s.isNamespace directory.text = true := by
    rw [hscope]
    exact (Discovery.scopeKind?_eq_some_iff.1 hk).1
  refine ⟨⟨directory, file, command, bytes, hknown, ?_, ?_, lists_of_resolve_join hroot hdir,
    ⟨dir, hdir, hd⟩, hb⟩, ?_, ?_, rfl⟩
  · exact mt RawText.text_eq_empty_iff.2 (by rwa [hcommand])
  · exact ofString_templateFile command
  · intro hx
    refine hpartial (Discovery.isPartial_iff.2 ?_)
    rw [← hcommand]
    exact hx
  · exact Identity.mk.injEq .. ▸ ⟨hscope, hcommand⟩

/-- A source `x` whose names are texts stands at the path that they spell. -/
theorem path_of_isShown (x : Discovery.Source w s commandsRoot) (hx : x.IsShown) :
    x.path = templatePath commandsRoot x.identity.scope x.identity.command := by
  rw [templatePath, ofString_templateFile, Discovery.Source.identity, FileName.text,
    ← RawText.eq_ofString_text hx.1, ← RawText.eq_ofString_text hx.2, ← x.named]
  rfl

/-- A template is discovered at the path that its scope and its command spell, readable or not. -/
def Offers (d : Discovery) (commandsRoot : PathName) (scope command : String) : Prop :=
  (∃ t ∈ d.templates, t.identity = ⟨scope, command⟩ ∧
    t.path = templatePath commandsRoot scope command) ∨
  ∃ u ∈ d.unreadable, u.identity = ⟨scope, command⟩ ∧
    u.path = templatePath commandsRoot scope command

theorem offers_iff (hd : Discovery.search w root s = .ok d) :
    Offers d (s.commandsRoot root) scope command ↔
      ∃ x : Discovery.Source w s (s.commandsRoot root), ¬ x.IsPartial ∧
        x.identity = ⟨scope, command⟩ ∧
        x.path = templatePath (s.commandsRoot root) scope command := by
  constructor
  · rintro (⟨t, ht, hi, hp⟩ | ⟨u, hu, hi, hp⟩)
    · obtain ⟨x, hx, text, -, rfl⟩ := (Discovery.mem_templates_iff hd).1 ht
      exact ⟨x, hx, hi, hp⟩
    · obtain ⟨x, hx, -, rfl⟩ := (Discovery.mem_unreadable_iff hd).1 hu
      exact ⟨x, hx, hi, hp⟩
  · rintro ⟨x, hx, hi, hp⟩
    cases htext : String.fromUTF8? x.bytes with
    | some text =>
      exact .inl ⟨_, (Discovery.mem_templates_iff hd).2 ⟨x, hx, text, htext, rfl⟩, hi, hp⟩
    | none => exact .inr ⟨_, (Discovery.mem_unreadable_iff hd).2 ⟨x, hx, htext, rfl⟩, hi, hp⟩

theorem isFile_of_offers (hd : Discovery.search w root s = .ok d)
    (h : Offers d (s.commandsRoot root) scope command) :
    w.isFile (templatePath (s.commandsRoot root) scope command) = true := by
  obtain ⟨x, -, -, hp⟩ := (offers_iff hd).1 h
  exact isFile_iff_contents?.2 ⟨x.bytes, hp ▸ x.contents⟩

theorem offers_iff_isFile (ha : s.isAccepted = true)
    (hd : Discovery.search w root s = .ok d) (hk : Discovery.scopeKind? s scope = some kind)
    (hp : ¬ PassedOver s (s.commandsRoot root) scope command) :
    Offers d (s.commandsRoot root) scope command ↔
      w.isFile (templatePath (s.commandsRoot root) scope command) = true :=
  ⟨isFile_of_offers hd, fun hf => (offers_iff hd).2 (exists_source_of_isFile ha hk hp hf)⟩

/-! ## Reports -/

theorem hasTemplate_eq_false_iff :
    hasTemplate w root s role command = false ↔ ∀ scope ∈ role :: s.namespaces,
      w.isFile (templatePath (s.commandsRoot root) scope command) = false := by
  simp [hasTemplate, templatePath]

theorem mem_checkCommands_iff {definition : RoleDefinition} {path : PathName} :
    .missingTemplate role command path ∈ checkCommands w root s definition ↔
      definition.owns = true ∧ definition.role = role ∧ command ∈ definition.commands ∧
        hasTemplate w root s role command = false ∧
        (s.commandsDir.join role).join (templateFile command) = path := by
  unfold checkCommands
  cases definition.owns with
  | false => simp
  | true =>
    simp only [Bool.not_true, Bool.false_eq_true, if_false, List.mem_map, List.mem_filter,
      Bool.not_eq_true', Finding.missingTemplate.injEq, true_and]
    constructor
    · rintro ⟨c, ⟨hc, hnone⟩, rfl, rfl, rfl⟩
      exact ⟨rfl, hc, hnone, rfl⟩
    · rintro ⟨rfl, hc, hnone, rfl⟩
      exact ⟨command, ⟨hc, hnone⟩, rfl, rfl, rfl⟩

/-- A declared `command` is reported where no file stands at any path of its template. -/
theorem missingTemplate_mem_check {definition : RoleDefinition} (hdef : definition ∈ r.byRole)
    (hrole : definition.role = role) (hshared : role ≠ sharedScope)
    (hc : command ∈ definition.commands) :
    .missingTemplate role command ((s.commandsDir.join role).join (templateFile command)) ∈
        r.check w root s ↔
      hasTemplate w root s role command = false := by
  have howns : definition.owns = true := by simpa [RoleDefinition.owns, hrole] using hshared
  have hcheck : .missingTemplate role command
        ((s.commandsDir.join role).join (templateFile command)) ∈ r.check w root s ↔
      ∃ definition ∈ r.byRole, .missingTemplate role command
        ((s.commandsDir.join role).join (templateFile command)) ∈
          checkCommands w root s definition := by
    simp [check]
  rw [hcheck]
  constructor
  · rintro ⟨other, -, h⟩
    exact (mem_checkCommands_iff.1 h).2.2.2.1
  · intro hnone
    exact ⟨definition, hdef, mem_checkCommands_iff.2 ⟨howns, hrole, hc, hnone, rfl⟩⟩

/-- For every command that an operational role declares, the check reports that its template is
missing if and only if nothing is discovered for it at the path that it spells under the role or in
a namespace, and no file stands at such a path that discovery passes over. A source whose names are
texts stands at the path that its identity spells. -/
theorem missingTemplate_mem_check_iff {definition : RoleDefinition} (ha : s.isAccepted = true)
    (hd : Discovery.search w root s = .ok d) (hr : isOperational role = true)
    (hdef : definition ∈ r.byRole) (hrole : definition.role = role)
    (hc : command ∈ definition.commands) :
    (.missingTemplate role command ((s.commandsDir.join role).join (templateFile command)) ∈
        r.check w root s ↔
      (∀ scope ∈ role :: s.namespaces, ¬ Offers d (s.commandsRoot root) scope command) ∧
        ∀ scope ∈ role :: s.namespaces, PassedOver s (s.commandsRoot root) scope command →
          w.isFile (templatePath (s.commandsRoot root) scope command) = false) ∧
    ∀ x : Discovery.Source w s (s.commandsRoot root), x.IsShown →
      x.path = templatePath (s.commandsRoot root) x.identity.scope x.identity.command := by
  have hshared : role ≠ sharedScope := by
    rintro rfl
    exact absurd hr (by decide)
  have hknown : ∀ scope ∈ role :: s.namespaces, ∃ kind,
      Discovery.scopeKind? s scope = some kind := by
    intro scope hscope
    refine ⟨_, Discovery.scopeKind?_eq_some_iff.2 ⟨?_, rfl⟩⟩
    rcases List.mem_cons.1 hscope with rfl | hscope
    · exact .inl hr
    · exact .inr (by simpa [Settings.isNamespace] using hscope)
  refine ⟨?_, path_of_isShown⟩
  rw [missingTemplate_mem_check hdef hrole hshared hc, hasTemplate_eq_false_iff]
  constructor
  · intro hnone
    refine ⟨fun scope hscope hi => ?_, fun scope hscope _ => hnone scope hscope⟩
    have hf := isFile_of_offers hd hi
    rw [hnone scope hscope] at hf
    cases hf
  · rintro ⟨hnone, hover⟩ scope hscope
    obtain ⟨kind, hk⟩ := hknown scope hscope
    by_cases hp : PassedOver s (s.commandsRoot root) scope command
    · exact hover scope hscope hp
    · rw [← Bool.not_eq_true, ← offers_iff_isFile ha hd hk hp]
      exact hnone scope hscope

end

/-! ## Declared and missing -/

/-- A registry in which a role declares two commands. -/
def declaringRegistry : Registry := .ofDefinitions [⟨"pm", ["plan", "ship"], []⟩]

/-- One of them has a template. -/
def declaredWorkspace : Workspace := workspaceWith ⟨"plan.md", by decide⟩ "text"

/-- The discovery of the template. -/
def declaredDiscovery : Discovery where
  templates := [⟨⟨"pm", "plan"⟩, .role, ⟨"./templates/commands/pm/plan.md"⟩, "text"⟩]
  unreadable := []
  partials := []

theorem missingTemplate_mem_check_iff_declared :
    Settings.standard.isAccepted = true ∧
      Discovery.search declaredWorkspace ⟨"."⟩ .standard = .ok declaredDiscovery ∧
      .missingTemplate "pm" "plan" ((Settings.standard.commandsDir.join "pm").join
        (templateFile "plan")) ∉ declaringRegistry.check declaredWorkspace ⟨"."⟩ .standard ∧
      .missingTemplate "pm" "ship" ((Settings.standard.commandsDir.join "pm").join
        (templateFile "ship")) ∈ declaringRegistry.check declaredWorkspace ⟨"."⟩ .standard := by
  have ha : Settings.standard.isAccepted = true := by decide +kernel
  have hd : Discovery.search declaredWorkspace ⟨"."⟩ .standard = .ok declaredDiscovery := by
    decide +kernel
  have hdef : ⟨"pm", ["plan", "ship"], []⟩ ∈ declaringRegistry.byRole := List.mem_singleton.2 rfl
  refine ⟨ha, hd, fun hx => ?_, ?_⟩
  · have hnone := ((missingTemplate_mem_check_iff ha hd (by decide) hdef rfl (by decide)).1.1 hx).1
    refine hnone "pm" (by decide) (.inl ⟨_, List.mem_singleton.2 rfl, rfl, ?_⟩)
    decide +kernel
  · refine (missingTemplate_mem_check_iff ha hd (by decide) hdef rfl (by decide)).1.2 ⟨?_, ?_⟩
    · rintro scope - (⟨t, ht, hi, -⟩ | ⟨u, hu, -⟩)
      · cases List.mem_singleton.1 ht
        exact absurd (Identity.mk.inj hi).2 (show "plan" ≠ "ship" by decide)
      · cases hu
    · have hnone : ∀ scope ∈ "pm" :: Settings.standard.namespaces, declaredWorkspace.isFile
          (templatePath (Settings.standard.commandsRoot ⟨"."⟩) scope "ship") = false := by
        decide +kernel
      exact fun scope hscope _ => hnone scope hscope

/-! ## Declared and passed over -/

/-- A registry in which a role declares a command with a separator and one with the mark of partial
files in front. -/
def overlookingRegistry : Registry := .ofDefinitions [⟨"pm", ["plan/ship", "_plan"], []⟩]

/-- Files stand where the checks look for their templates. -/
def overlookedWorkspace : Workspace :=
  ((workspaceWith ⟨"_plan.md", by decide⟩ "text").put
    (⟨"plan", by decide⟩ :: roleDirectory) .directory).put
    (⟨"ship.md", by decide⟩ :: ⟨"plan", by decide⟩ :: roleDirectory) (.file "text".toUTF8)

/-- A registry in which a role declares a command that is spelled as two other names are shown. -/
def blurredRegistry : Registry := .ofDefinitions [⟨"pm", ["a\ufffd"], []⟩]

/-- No template of either command is discovered, and neither is reported. Two templates of a third
one are discovered, and it is reported. -/
theorem check_overlooks :
    Settings.standard.isAccepted = true ∧
      Discovery.search overlookedWorkspace ⟨"."⟩ .standard =
        .ok ⟨[], [], [⟨"./templates/commands/pm/_plan.md"⟩]⟩ ∧
      Discovery.search lookalikeWorkspace ⟨"."⟩ .standard = .ok lookalikeDiscovery ∧
      isOperational "pm" = true ∧
      (∃ definition ∈ overlookingRegistry.byRole, definition.role = "pm" ∧
        definition.commands = ["plan/ship", "_plan"]) ∧
      (∀ command ∈ ["plan/ship", "_plan"], .missingTemplate "pm" command
        ((Settings.standard.commandsDir.join "pm").join (templateFile command)) ∉
          overlookingRegistry.check overlookedWorkspace ⟨"."⟩ .standard) ∧
      (∃ definition ∈ blurredRegistry.byRole, definition.role = "pm" ∧
        definition.commands = ["a\ufffd"]) ∧
      ⟨"pm", "a\ufffd"⟩ ∈ lookalikeDiscovery.identities ∧
      .missingTemplate "pm" "a\ufffd"
        ((Settings.standard.commandsDir.join "pm").join (templateFile "a\ufffd")) ∈
          blurredRegistry.check lookalikeWorkspace ⟨"."⟩ .standard := by
  have hcheck : overlookingRegistry.check overlookedWorkspace ⟨"."⟩ .standard = [] := by
    decide +kernel
  refine ⟨by decide +kernel, by decide +kernel, search_lookalike, by decide,
    ⟨_, List.mem_singleton.2 rfl, rfl, rfl⟩, fun command _ => ?_,
    ⟨_, List.mem_singleton.2 rfl, rfl, rfl⟩, List.mem_cons_self, by decide +kernel⟩
  rw [hcheck]
  exact List.not_mem_nil

end Registry

end AgentDocs
