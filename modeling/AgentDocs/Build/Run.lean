import AgentDocs.Agent.Handoff.Standard
import AgentDocs.Build.Artifact
import AgentDocs.Build.Sweep
import AgentDocs.Role.Configuration
import AgentDocs.Template.Expansion

/-!
# Runs

A run takes the discovered templates that its choice of roles selects, one after the other: it
expands and compiles each and settles its artifact, so that a template sees the files that the
templates before it have written. One that fails does not stop the others. Then the sweep follows,
except in previews.
-/

namespace AgentDocs

open AgentDocs.Files AgentDocs.Template

/-- What a run is asked to do. -/
structure Options where
  mode : Mode
  force : Bool
  filter : RoleFilter
  deriving Repr, DecidableEq

/-- A project as a run sees it: its root, its settings, its roles and the handoffs. -/
structure Project where
  root : PathName
  settings : Settings
  registry : Registry
  handoffs : HandoffTable
  deriving Repr, DecidableEq

namespace Project

/-- The directory of the agents. -/
def outputRoot (p : Project) : PathName := p.settings.outputRoot p.root

/-- The document of a template. -/
def compile (p : Project) (w : Workspace) (t : Template) : Except Error AgentDocument :=
  (expand w p.root p.settings.depthLimit t.text.toList).map
    (AgentDocument.compile p.handoffs p.registry t.identity)

end Project

/-- What came of a template: whether it compiled without a description, and its outcome. -/
structure Processed where
  identity : Identity
  defaulted : Bool
  result : Except Error Outcome

namespace Processed

/-- The outcome for a template, if it did not fail. -/
def outcome? (p : Processed) : Option Outcome := p.result.toOption

/-- The failure of a template, if it failed. -/
def failure? (p : Processed) : Option Failure :=
  match p.result with
  | .ok _ => none
  | .error e => some ⟨p.identity.name, e⟩

end Processed

/-- The difference that an outcome reports, if any. -/
def Outcome.drifted? (o : Outcome) : Option Drifted :=
  match o.action with
  | .drifted drift => some ⟨o.identity, drift⟩
  | _ => none

/-- Compiles a template and settles its artifact. -/
def Project.process (p : Project) (mode : Mode) (w : Workspace) (t : Template) :
    Workspace × Processed :=
  match p.compile w t with
  | .error e => (w, ⟨t.identity, false, .error e⟩)
  | .ok d =>
    let path := agentPath p.outputRoot t.identity.name
    let preview := if mode = .preview then some d.header.render else none
    match settle w mode path d.artifact with
    | (w, .error e) => (w, ⟨t.identity, d.descriptionDefaulted, .error (.file e)⟩)
    | (w, .ok action) =>
      (w, ⟨t.identity, d.descriptionDefaulted, .ok ⟨t.identity, path, action, preview⟩⟩)

/-- Processes templates one after the other. -/
def Project.processAll (p : Project) (mode : Mode) :
    Workspace → List Template → Workspace × List Processed
  | w, [] => (w, [])
  | w, t :: rest =>
    let (w, processed) := p.process mode w t
    let (w, more) := p.processAll mode w rest
    (w, processed :: more)

namespace Discovery

/-- The templates that a choice of roles selects. -/
def selectedTemplates (d : Discovery) (f : RoleFilter) (r : Registry) : List Template :=
  d.templates.filter fun t => f.selects r t.kind t.identity

/-- The unreadable templates that a choice of roles selects. -/
def selectedUnreadable (d : Discovery) (f : RoleFilter) (r : Registry) : List Unreadable :=
  d.unreadable.filter fun u => f.selects r u.kind u.identity

@[simp] theorem selectedTemplates_all (d : Discovery) (r : Registry) :
    d.selectedTemplates .all r = d.templates :=
  List.filter_eq_self.2 fun _ _ => rfl

@[simp] theorem selectedUnreadable_all (d : Discovery) (r : Registry) :
    d.selectedUnreadable .all r = d.unreadable :=
  List.filter_eq_self.2 fun _ _ => rfl

end Discovery

/-- Runs a project on what was discovered. -/
def Project.run (p : Project) (w : Workspace) (d : Discovery) (o : Options) :
    Workspace × Report :=
  let unreadable := d.selectedUnreadable o.filter p.registry
  let templates := d.selectedTemplates o.filter p.registry
  let (w, processed) := p.processAll o.mode w templates
  let (w, swept) :=
    if o.mode = .preview then (w, ⟨[], []⟩)
    else Sweep.run w p.settings p.registry o.filter o.force p.outputRoot d.names
  let outcomes := processed.filterMap Processed.outcome?
  let report : Report := {
    mode := o.mode
    scanned := unreadable.length + templates.length
    processed := outcomes.length
    partialsSkipped := d.partials.length
    outcomes
    failures := unreadable.map (fun u => ⟨u.identity.name, u.error⟩) ++
      processed.filterMap Processed.failure? ++ swept.failures
    drifted := outcomes.filterMap Outcome.drifted?
    missingDescriptions := (processed.filter (·.defaulted)).map (·.identity)
    stale := swept.stale }
  (w, report)

/-- Reads the settings, the roles and the templates of the project at a root. -/
def Project.load (w : Workspace) (root : PathName) : Except Error (Project × Discovery) := do
  let settings ← Settings.load w root
  let registry ← Registry.load w (settings.rolePath root)
  let discovery ← Discovery.search w root settings
  return (⟨root, settings, registry, .standard⟩, discovery)

end AgentDocs
