import AgentDocs.CommandLine.Run
import AgentDocs.Proofs.Build.Changes

/-!
# Exit codes

A command line that asks for `sync` is refused as a whole or carried out as a whole. Where it is
refused the exit code is 1, nothing is written and no output is made. Where it is carried out the
exit code says whether something failed or differs, and nothing else that a report tells, unless the
report cannot be printed.

* `Refused`, `Loaded`: what keeps a project from being read, and what is read otherwise.
* `prepareSync_cases`: one of the two is the case.
* `failures_ne_nil_iff`: what counts as a failure of a run.
* `reportOutput?_eq_none_iff`: the reports that cannot be printed.
* `exitCode_run`, `run_sync_exitCode`: the exit codes of runs and of command lines.
* `run_sync_surprises`: settings that count as missing, and a comparison that cannot be printed.
-/

namespace AgentDocs

open AgentDocs.Files AgentDocs.Yaml

/-! ## Configuration files -/

/-- There is a file at a path, and it cannot be read or what it says cannot be understood. -/
def Files.Workspace.Unusable {α : Type} (w : Workspace) (path : PathName)
    (parse : String → Except Fault α) : Prop :=
  w.leads path = true ∧ ∀ text, w.readText path = .ok text → ∃ fault, parse text = .error fault

/-- A file that may be missing is read without success only where it is `Unusable`. -/
theorem Files.Workspace.unusable_iff {α : Type} {w : Workspace} {path : PathName}
    {parse : String → Except Fault α} {default : α} {blame : Fault → Error} :
    (∃ e, (if !w.leads path then Except.ok default
      else match w.readText path with
        | .error e => .error (Error.file e)
        | .ok text => (parse text).mapError blame) = .error e) ↔ w.Unusable path parse := by
  unfold Unusable
  cases w.leads path with
  | false => simp
  | true =>
    cases w.readText path with
    | error e => simp
    | ok text => cases hp : parse text <;> simp [Except.mapError, hp]

theorem Settings.load_eq_error_iff {w : Workspace} {root : PathName} :
    (∃ e, Settings.load w root = .error e) ↔
      w.Unusable (root.join Settings.settingsFile) Settings.ofText :=
  Workspace.unusable_iff

theorem Registry.load_eq_error_iff {w : Workspace} {path : PathName} :
    (∃ e, Registry.load w path = .error e) ↔ w.Unusable path Registry.ofText :=
  Workspace.unusable_iff

theorem Settings.isAccepted_eq_false_iff {s : Settings} :
    s.isAccepted = false ↔ ∃ f ∈ s.check, f.level = .error := by
  simp [Settings.isAccepted]

/-! ## What counts as a failure -/

/-- A run fails where a selected template cannot be read, where one cannot be compiled or settled,
and where the sweep fails, and only there. -/
theorem failures_ne_nil_iff {p : Project} {w : Workspace} {d : Discovery} {o : Options} :
    (p.run w d o).2.failures ≠ [] ↔
      d.selectedUnreadable o.filter p.registry ≠ [] ∨
        (∃ x ∈ (p.processed w d o).2, ∃ e, x.result = .error e) ∨
        (p.swept w d o).2.failures ≠ [] := by
  have hnone : ∀ x : Processed, x.failure? = none ↔ ∀ e, x.result ≠ .error e := by
    intro x
    unfold Processed.failure?
    cases x.result <;> simp
  have hprocessed : (p.processed w d o).2.filterMap Processed.failure? ≠ [] ↔
      ∃ x ∈ (p.processed w d o).2, ∃ e, x.result = .error e := by
    simp [List.filterMap_eq_nil_iff, hnone]
  rw [Ne, Project.run_failures_eq_nil_iff, ← hprocessed]
  tauto

namespace CommandLine

/-! ## Reading a project -/

/-- What keeps the project at a root from being compiled: an unknown role, a configuration file that
is there and of no use, a finding that is an error, or templates that cannot be looked for. -/
inductive Refused (w : Workspace) (root : PathName) (a : SyncArguments) : Prop
  | role : a.role ≠ sharedScope → isOperational a.role = false → Refused w root a
  | settings : w.Unusable (root.join Settings.settingsFile) Settings.ofText → Refused w root a
  | finding {s : Settings} {f : Finding} : Settings.load w root = .ok s → f ∈ s.check →
      f.level = .error → Refused w root a
  | registry {s : Settings} : Settings.load w root = .ok s →
      w.Unusable (s.rolePath root) Registry.ofText → Refused w root a
  | templates {s : Settings} {e : Error} : Settings.load w root = .ok s →
      Discovery.search w root s = .error e → Refused w root a

/-- The project at a root is read, and the choice of roles is known. -/
structure Loaded (w : Workspace) (a : SyncArguments) (filter : RoleFilter) (p : Project)
    (d : Discovery) : Prop where
  role : RoleFilter.parse? a.role = some filter
  settings : Settings.load w p.root = .ok p.settings
  accepted : p.settings.isAccepted = true
  registry : Registry.load w (p.settings.rolePath p.root) = .ok p.registry
  handoffs : p.handoffs = .standard
  templates : Discovery.search w p.root p.settings = .ok d

section
variable {w : Workspace} {root : PathName} {a : SyncArguments} {filter : RoleFilter} {p : Project}
  {d : Discovery}

theorem Loaded.not_refused (h : Loaded w a filter p d) : ¬ Refused w p.root a := by
  have hsettings : ∀ {s : Settings}, Settings.load w p.root = .ok s → s = p.settings := by
    intro s hs
    rw [h.settings] at hs
    cases hs
    rfl
  intro hr
  cases hr with
  | role h1 h2 =>
    have := RoleFilter.parse?_eq_none_iff.2 ⟨h1, h2⟩
    rw [h.role] at this
    cases this
  | settings hu =>
    obtain ⟨e, he⟩ := Settings.load_eq_error_iff.2 hu
    rw [h.settings] at he
    cases he
  | finding hs hmem hlevel =>
    have := Settings.isAccepted_eq_false_iff.2 ⟨_, hmem, hlevel⟩
    rw [hsettings hs, h.accepted] at this
    cases this
  | registry hs hu =>
    obtain ⟨e, he⟩ := Registry.load_eq_error_iff.2 hu
    rw [hsettings hs, h.registry] at he
    cases he
  | templates hs he =>
    rw [hsettings hs, h.templates] at he
    cases he

/-- The parts of the project at `root` are read in their order up to the first one that fails. -/
theorem prepareSync_cases (w : Workspace) (root : PathName) (a : SyncArguments) :
    (Refused w root a ∧ ∃ notices, prepareSync w root a = .error notices) ∨
      ∃ filter p d notices, p.root = root ∧ Loaded w a filter p d ∧
        prepareSync w root a = .ok (filter, p, d, notices) := by
  simp only [prepareSync]
  cases hf : RoleFilter.parse? a.role with
  | none =>
    obtain ⟨h1, h2⟩ := RoleFilter.parse?_eq_none_iff.1 hf
    exact .inl ⟨.role h1 h2, _, rfl⟩
  | some filter =>
    simp only [prepare, loadSettings, loadRegistry, searchTemplates, orNotice]
    cases hs : Settings.load w root with
    | error e => exact .inl ⟨.settings (Settings.load_eq_error_iff.1 ⟨e, hs⟩), _, rfl⟩
    | ok s =>
      cases ha : s.isAccepted with
      | false =>
        obtain ⟨f, hmem, hlevel⟩ := Settings.isAccepted_eq_false_iff.1 ha
        refine .inl ⟨.finding hs hmem hlevel, ?_⟩
        simp [ha, Except.mapError, Except.map, bind, Except.bind, throw, throwThe,
          MonadExceptOf.throw]
      | true =>
        cases hr : Registry.load w (s.rolePath root) with
        | error e =>
          refine .inl ⟨.registry hs (Registry.load_eq_error_iff.1 ⟨e, hr⟩), ?_⟩
          simp [ha, hr, Except.mapError, Except.map, bind, Except.bind]
        | ok r =>
          cases hd : Discovery.search w root s with
          | error e =>
            refine .inl ⟨.templates hs hd, ?_⟩
            simp [ha, hr, hd, Except.mapError, Except.map, bind, Except.bind]
          | ok d =>
            simp only [ha, hr, hd, Except.mapError, Except.map, bind, Except.bind, pure,
              Except.pure, Bool.not_true, Bool.false_eq_true, if_false]
            exact .inr ⟨filter, ⟨root, s, r, .standard⟩, d, _, rfl, ⟨hf, hs, ha, hr, rfl, hd⟩, rfl⟩

theorem Refused.prepareSync (h : Refused w root a) :
    ∃ notices, prepareSync w root a = .error notices := by
  rcases prepareSync_cases w root a with ⟨-, hn⟩ | ⟨filter, p, d, -, rfl, hl, -⟩
  · exact hn
  · exact absurd h hl.not_refused

end

/-! ## Command lines -/

/-- The exit code of a run: 2 where a comparison found a failure or a difference, 1 where another
run failed, and 0 otherwise. -/
theorem exitCode_run (p : Project) (w : Workspace) (d : Discovery) (o : Options) :
    ((p.run w d o).2.exitCode = 2 ↔
      o.mode = .validate ∧ ((p.run w d o).2.failures ≠ [] ∨ (p.run w d o).2.drifted ≠ [])) ∧
    ((p.run w d o).2.exitCode = 1 ↔ o.mode ≠ .validate ∧ (p.run w d o).2.failures ≠ []) ∧
    ((p.run w d o).2.exitCode = 0 ↔
      (p.run w d o).2.failures = [] ∧ (o.mode = .validate → (p.run w d o).2.drifted = [])) := by
  have hmode : (p.run w d o).2.mode = o.mode := rfl
  generalize (p.run w d o).2 = r at hmode
  rw [← hmode, Report.exitCode]
  cases r.mode <;> cases r.failures <;> cases r.drifted <;> simp

/-- A report is asked for in JSON, and one of the paths in it is no text. -/
def Unprintable (json : Bool) (r : Report) : Prop :=
  json = true ∧ ∃ path ∈ reportPaths r, path.raw.text? = none

theorem reportOutput?_eq_none_iff (root : PathName) (json verbose : Bool) (r : Report) :
    reportOutput? root json verbose r = none ↔ Unprintable json r := by
  cases json with
  | false => simp [reportOutput?, Unprintable]
  | true => simp [reportOutput?, Unprintable]

section
variable {w : Workspace} {environment : Option RawText} {words : List RawText} {args : Arguments}
  {a : SyncArguments} {filter : RoleFilter} {p : Project} {d : Discovery}

theorem run_of_sync (h : Request.ofWords environment words = .ok (.run args))
    (hc : args.command = .sync a) :
    run w environment words = sync w (rootFor w args) args.json args.verbose a := by
  simp only [run, h, runArguments, hc]

theorem Loaded.unique {filter' : RoleFilter} {p' : Project} {d' : Discovery}
    (h : Loaded w a filter p d) (h' : Loaded w a filter' p' d') (hroot : p'.root = p.root) :
    filter' = filter ∧ p' = p ∧ d' = d := by
  obtain ⟨root, s, r, handoffs⟩ := p
  obtain ⟨root', s', r', handoffs'⟩ := p'
  obtain ⟨hf, hs, -, hr, rfl, hd⟩ := h
  obtain ⟨hf', hs', -, hr', rfl, hd'⟩ := h'
  dsimp only at hroot hs hs' hr hr' hd hd'
  subst hroot
  rw [hf] at hf'
  rw [hs] at hs'
  cases hf'
  cases hs'
  rw [hr] at hr'
  rw [hd] at hd'
  cases hr'
  cases hd'
  exact ⟨rfl, rfl, rfl⟩

/-- A project that is read is run, and then its report is printed or is not. -/
theorem sync_of_loaded (hl : Loaded w a filter p d) (json verbose : Bool) :
    (sync w p.root json verbose a).1 = (p.run w d ⟨a.mode, a.force, filter⟩).1 ∧
      (Unprintable json (p.run w d ⟨a.mode, a.force, filter⟩).2 →
        ∃ notices, (sync w p.root json verbose a).2 = ⟨1, "", notices⟩) ∧
      (¬ Unprintable json (p.run w d ⟨a.mode, a.force, filter⟩).2 →
        (sync w p.root json verbose a).2.exitCode =
          (p.run w d ⟨a.mode, a.force, filter⟩).2.exitCode) := by
  rcases prepareSync_cases w p.root a with
    ⟨hrefused, -⟩ | ⟨filter', p', d', notices, hroot, hl', hn⟩
  · exact absurd hrefused hl.not_refused
  · obtain ⟨rfl, rfl, rfl⟩ := hl.unique hl' hroot
    have hnone := reportOutput?_eq_none_iff p'.root json verbose
      (p'.run w d' ⟨a.mode, a.force, filter'⟩).2
    rw [← hnone, sync, hn]
    dsimp only
    cases reportOutput? p'.root json verbose (p'.run w d' ⟨a.mode, a.force, filter'⟩).2 with
    | none => exact ⟨rfl, fun _ => ⟨_, rfl⟩, fun h => absurd rfl h⟩
    | some output => exact ⟨rfl, by simp, fun _ => rfl⟩

/-- A command line with `sync` is refused as a whole or carried out as a whole. Where the role is
unknown, a configuration file is of no use, the settings have an error, or the templates cannot be
looked for, the exit code is 1, there is no output, and the workspace is as it was. Otherwise the
project is run. Where its report is to be printed in JSON and a path in it is no text, the exit code
is 1 and there is no output. In all other cases the exit code is 2 exactly where a comparison found
a failure or a difference, 1 exactly where another run failed, and 0 otherwise. A run fails where a
selected template cannot be read, compiled or settled and where the sweep fails, and only there. -/
theorem run_sync_exitCode (h : Request.ofWords environment words = .ok (.run args))
    (hc : args.command = .sync a) :
    (Refused w (rootFor w args) a →
      ∃ notices, run w environment words = (w, ⟨1, "", notices⟩)) ∧
    (¬ Refused w (rootFor w args) a →
      ∃ filter p d v r, p.root = rootFor w args ∧ Loaded w a filter p d ∧
        p.run w d ⟨a.mode, a.force, filter⟩ = (v, r) ∧ (run w environment words).1 = v ∧
        (Unprintable args.json r →
          ∃ notices, (run w environment words).2 = ⟨1, "", notices⟩) ∧
        (¬ Unprintable args.json r →
          ((run w environment words).2.exitCode = 2 ↔
            a.mode = .validate ∧ (r.failures ≠ [] ∨ r.drifted ≠ [])) ∧
          ((run w environment words).2.exitCode = 1 ↔ a.mode ≠ .validate ∧ r.failures ≠ []) ∧
          ((run w environment words).2.exitCode = 0 ↔
            r.failures = [] ∧ (a.mode = .validate → r.drifted = []))) ∧
        (r.failures ≠ [] ↔ d.selectedUnreadable filter p.registry ≠ [] ∨
          (∃ x ∈ (p.processed w d ⟨a.mode, a.force, filter⟩).2, ∃ e, x.result = .error e) ∨
          (p.swept w d ⟨a.mode, a.force, filter⟩).2.failures ≠ [])) := by
  rw [run_of_sync h hc]
  constructor
  · intro hr
    obtain ⟨notices, hn⟩ := hr.prepareSync
    exact ⟨notices, sync_of_refused hn⟩
  · intro hr
    rcases prepareSync_cases w (rootFor w args) a with ⟨hrefused, -⟩ |
      ⟨filter, p, d, -, hroot, hl, -⟩
    · exact absurd hrefused hr
    · obtain ⟨htree, hunprintable, hprinted⟩ := sync_of_loaded hl args.json args.verbose
      rw [hroot] at htree hunprintable hprinted
      refine ⟨filter, p, d, _, _, hroot, hl, rfl, htree, hunprintable, fun hp => ?_,
        failures_ne_nil_iff⟩
      rw [hprinted hp]
      exact exitCode_run p w d ⟨a.mode, a.force, filter⟩

end

/-! ## A comparison that finds a difference -/

/-- The arguments of a comparison. -/
def comparison : SyncArguments := ⟨.validate, false, "all"⟩

/-- Where `w` has no configuration files the settings are the standard ones, and no role is
declared. -/
theorem loaded_of_missing {w : Workspace} {a : SyncArguments} {d : Discovery}
    (ha : a.role = sharedScope)
    (h : w.leads (plain.root.join Settings.settingsFile) = false ∧
      w.leads (plain.settings.rolePath plain.root) = false ∧
      Discovery.search w plain.root plain.settings = .ok d) :
    Loaded w a .all plain d where
  role := by rw [ha]; rfl
  settings := Settings.load_of_absent h.1
  accepted := by decide +kernel
  registry := Registry.load_of_absent h.2.1
  handoffs := rfl
  templates := h.2.2

theorem loaded_plain : Loaded plainWorkspace comparison .all plain plainDiscovery :=
  loaded_of_missing rfl (by decide +kernel)

theorem drifted_plain :
    (plain.run plainWorkspace plainDiscovery ⟨.validate, false, .all⟩).2.drifted ≠ [] := by
  have hread : plainWorkspace.readNormalized?
      (agentPath plain.outputRoot plainTemplate.identity.name) = .ok none := by decide +kernel
  have hsettle : settle plainWorkspace .validate
      (agentPath plain.outputRoot plainTemplate.identity.name) plainDocument.artifact =
        (plainWorkspace, .ok (.drifted .missing)) := by
    rw [settle, hread]
    rfl
  have ho : plain.outcome .validate plainTemplate plainDocument (.drifted .missing) ∈
      (plain.run plainWorkspace plainDiscovery ⟨.validate, false, .all⟩).2.outcomes := by
    refine mem_outcomes_of_first (t := plainTemplate) (Discovery.selectedTemplates_all _ _) ?_
    rw [show Options.mode ⟨.validate, false, .all⟩ = .validate from rfl,
      process_of_settle (compile_plain _) hsettle]
    rfl
  exact List.ne_nil_of_mem (mem_drifted ho rfl)

/-- The plain workspace with a directory of templates that may not be listed. -/
def sealedWorkspace : Workspace := { plainWorkspace with sealed := [roleDirectory.drop 1] }

theorem run_sync_exitCode_plain :
    (∃ args, Request.ofWords none ["sync", "--role", "cook"] = .ok (.run args) ∧
      ∃ notices, run plainWorkspace none ["sync", "--role", "cook"] =
        (plainWorkspace, ⟨1, "", notices⟩)) ∧
    (∃ args, Request.ofWords none ["sync", "--validate", "--root", "."] = .ok (.run args) ∧
      (∃ notices, run sealedWorkspace none ["sync", "--validate", "--root", "."] =
        (sealedWorkspace, ⟨1, "", notices⟩)) ∧
      (run plainWorkspace none ["sync", "--validate", "--root", "."]).2.exitCode = 2) := by
  have hrefused : Request.ofWords none ["sync", "--role", "cook"] =
      .ok (.run ⟨none, false, false, .sync ⟨.sync, false, "cook"⟩⟩) := by decide +kernel
  have hwords : Request.ofWords none ["sync", "--validate", "--root", "."] =
      .ok (.run ⟨some ".", false, false, .sync comparison⟩) := by decide +kernel
  have hsealed : Refused sealedWorkspace ⟨"."⟩ comparison :=
    .templates (s := .standard) (e := .file .permissionDenied) (by decide +kernel)
      (by decide +kernel)
  refine ⟨⟨_, hrefused, (run_sync_exitCode hrefused rfl).1 (.role (by decide) (by decide))⟩,
    _, hwords, (run_sync_exitCode hwords rfl).1 hsealed, ?_⟩
  obtain ⟨filter, p, d, v, r, hroot, hl, hr, -, -, hcode, -⟩ :=
    (run_sync_exitCode hwords rfl).2 loaded_plain.not_refused
  obtain ⟨rfl, rfl, rfl⟩ := loaded_plain.unique hl hroot
  refine (hcode fun h => nomatch h.1).1.2 ⟨rfl, .inr ?_⟩
  have hdrifted := drifted_plain
  rwa [show plain.run plainWorkspace plainDiscovery ⟨.validate, false, .all⟩ = (v, r) from hr]
    at hdrifted

/-! ## Runs that a caller may not expect -/

/-- The discovery where there are no templates. -/
def emptyDiscovery : Discovery := ⟨[], [], []⟩

/-- A workspace whose settings are a link to themselves. -/
def knottedWorkspace : Workspace where
  tree := FileTree.empty.insert [⟨"agentgen.yaml", by decide⟩] (.link "agentgen.yaml")
  start := []
  sealed := []

/-- The file of an agent without a template, in the name of which a byte is no text. -/
def strayFile : FileName := ⟨"pm-" ++ ⟨[255]⟩ ++ ".agent.md", by decide⟩

/-- A workspace with nothing but this file in the directory of the agents. -/
def strayWorkspace : Workspace where
  tree := ((FileTree.empty.insert (shelfDirectory.drop 1) .directory).insert
    shelfDirectory .directory).insert (strayFile :: shelfDirectory) (.file .empty)
  start := []
  sealed := []

theorem swept_stray :
    plain.swept strayWorkspace emptyDiscovery ⟨.validate, false, .all⟩ =
      (strayWorkspace, ⟨[⟨"pm-\ufffd", plain.outputRoot.join strayFile.raw, false⟩], []⟩) := by
  have hprocessed : (plain.processed strayWorkspace emptyDiscovery
      ⟨.validate, false, .all⟩).1 = strayWorkspace := rfl
  have hdir : strayWorkspace.openDirectory plain.outputRoot = .ok shelfDirectory := by
    decide +kernel
  rw [Project.swept_eq (by simp), hprocessed, sweep_of_candidate
    (c := ⟨"pm-\ufffd", plain.outputRoot.join strayFile.raw⟩) hdir (by decide +kernel)]
  rfl

/-- Settings that cannot be read, since they are a link to themselves, count as missing, and the
exit code is 0. A comparison that finds a stale agent whose file name is no text, and neither a
failure nor a difference, cannot be printed in JSON, and the exit code is 1. -/
theorem run_sync_surprises :
    (knottedWorkspace.readText ((PathName.mk ".").join Settings.settingsFile) =
        .error .tooManyLinks ∧
      Request.ofWords none ["sync", "--root", "."] =
        .ok (.run ⟨some ".", false, false, .sync ⟨.sync, false, "all"⟩⟩) ∧
      (run knottedWorkspace none ["sync", "--root", "."]).2.exitCode = 0) ∧
    Request.ofWords none ["--json", "sync", "--validate", "--root", "."] =
        .ok (.run ⟨some ".", true, false, .sync comparison⟩) ∧
      Loaded strayWorkspace comparison .all plain emptyDiscovery ∧
      (plain.run strayWorkspace emptyDiscovery ⟨.validate, false, .all⟩).2.failures = [] ∧
      (plain.run strayWorkspace emptyDiscovery ⟨.validate, false, .all⟩).2.drifted = [] ∧
      ∃ notices, (run strayWorkspace none ["--json", "sync", "--validate", "--root", "."]).2 =
        ⟨1, "", notices⟩ := by
  have hsync : Request.ofWords none ["sync", "--root", "."] =
      .ok (.run ⟨some ".", false, false, .sync ⟨.sync, false, "all"⟩⟩) := by decide +kernel
  have hcompare : Request.ofWords none ["--json", "sync", "--validate", "--root", "."] =
      .ok (.run ⟨some ".", true, false, .sync comparison⟩) := by decide +kernel
  have hl : Loaded strayWorkspace comparison .all plain emptyDiscovery :=
    loaded_of_missing rfl (by decide +kernel)
  refine ⟨⟨by decide +kernel, hsync, ?_⟩, hcompare, hl, ?_, rfl, ?_⟩
  · rw [run_of_sync hsync rfl]
    have hl' : Loaded knottedWorkspace ⟨.sync, false, "all"⟩ .all plain emptyDiscovery :=
      loaded_of_missing rfl (by decide +kernel)
    refine ((sync_of_loaded hl' false false).2.2 fun h => nomatch h.1).trans ?_
    decide +kernel
  · rw [Project.run_failures, swept_stray]
    rfl
  · rw [run_of_sync hcompare rfl]
    refine (sync_of_loaded hl true false).2.1
      ⟨rfl, plain.outputRoot.join strayFile.raw, List.mem_append_right _ ?_, by decide +kernel⟩
    show _ ∈ (plain.run strayWorkspace emptyDiscovery ⟨.validate, false, .all⟩).2.stale.map _
    rw [Project.run_stale, swept_stray]
    exact List.mem_cons_self

end CommandLine

end AgentDocs
