import AgentDocs.Build.Report
import AgentDocs.Files.Edit
import AgentDocs.Template.Discovery

/-!
# The sweep

An agent whose template is gone is stale. The sweep looks at the files directly in the directory of
agents, takes those whose names, as they are shown, belong to a known scope and to the chosen roles,
and leaves out all that have a template. Stale agents are removed only where that is asked for.

* `remove_of_not_force`: a sweep without force leaves the workspace as it is.
-/

namespace AgentDocs

open AgentDocs.Files

namespace Sweep

/-- The scope of a name and the choice of roles decide whether the sweep looks at it. A choice is
about the agents of the role itself, and about those in namespaces whose commands the role owns. -/
def considers (s : Settings) (r : Registry) (filter : RoleFilter) (i : Identity) : Bool :=
  (isOperational i.scope || s.isNamespace i.scope) &&
    match filter with
    | .all => true
    | .role name =>
      if isOperational i.scope then i.scope = name else r.commandRole? i.command = some name

/-- The file of an agent, under the name that it is shown to have. -/
structure Candidate where
  name : String
  path : PathName
  deriving Repr, DecidableEq

/-- Agents are ordered by name, then by path. -/
def Candidate.le (a b : Candidate) : Bool :=
  decide (a.name < b.name) || a.name == b.name && a.path.le b.path

/-- The agent whose file is the entry `file` of the directory, if the sweep looks at it. -/
def candidate? (w : Workspace) (s : Settings) (r : Registry) (filter : RoleFilter)
    (outputRoot : PathName) (directory : Location) (file : FileName) : Option Candidate :=
  match w.tree.find? (file :: directory) with
  | some (.file _) => do
    let name ← nameOfFile? file.text
    let identity ← Identity.ofName? name
    if considers s r filter identity then some ⟨name, outputRoot.join file.raw⟩ else none
  | _ => none

/-- The agents that the sweep looks at, in increasing order. -/
def candidates (w : Workspace) (s : Settings) (r : Registry) (filter : RoleFilter)
    (outputRoot : PathName) (directory : Location) : List Candidate :=
  ((w.tree.children directory).filterMap
    (candidate? w s r filter outputRoot directory)).mergeSort Candidate.le

/-- What a sweep found and what it failed to remove. -/
structure Result where
  stale : List Stale
  failures : List Failure
  deriving Repr, DecidableEq

/-- Deals with stale agents one after the other. -/
def remove (force : Bool) : Workspace → List Candidate → Workspace × Result
  | w, [] => (w, ⟨[], []⟩)
  | w, c :: rest =>
    if force then
      match w.removeFile c.path with
      | (w, .ok ()) =>
        let (w, result) := remove force w rest
        (w, { result with stale := ⟨c.name, c.path, true⟩ :: result.stale })
      | (w, .error e) =>
        let (w, result) := remove force w rest
        (w, { result with failures := ⟨c.name, .file e⟩ :: result.failures })
    else
      let (w, result) := remove force w rest
      (w, { result with stale := ⟨c.name, c.path, false⟩ :: result.stale })

/-- Without `force` the candidates are reported and `w` is left as it is. -/
theorem remove_of_not_force (w : Workspace) (cs : List Candidate) :
    remove false w cs = (w, ⟨cs.map fun c => ⟨c.name, c.path, false⟩, []⟩) := by
  induction cs with
  | nil => rfl
  | cons c rest ih => simp [remove, ih]

/-- Sweeps the directory of agents. Where there is none, nothing is stale. -/
def run (w : Workspace) (s : Settings) (r : Registry) (filter : RoleFilter) (force : Bool)
    (outputRoot : PathName) (known : List String) : Workspace × Result :=
  if !w.isDirectory outputRoot then (w, ⟨[], []⟩)
  else
    match w.openDirectory outputRoot with
    | .error e => (w, ⟨[], [⟨outputRoot.text, .file e⟩]⟩)
    | .ok directory =>
      remove force w
        ((candidates w s r filter outputRoot directory).filter fun c => !known.contains c.name)

end Sweep

end AgentDocs
