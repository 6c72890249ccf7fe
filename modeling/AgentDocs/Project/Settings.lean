import AgentDocs.Project.Error
import AgentDocs.Project.Finding
import AgentDocs.Text.Blank
import AgentDocs.Yaml.Shape

/-!
# Settings

The layout of a project: where its templates, its agents and its roles stand, which namespaces it
has beside the roles, and how deep inclusions may go. Each setting has a default, so the file that
gives them may be missing.

* `Settings.load_of_absent`: a project without the file has the default settings.
* `Settings.isNamespace_of_accepted`: accepted namespaces are proper names and not roles.
-/

namespace AgentDocs

open AgentDocs.Files AgentDocs.Yaml

/-- The layout of a project. -/
structure Settings where
  commandsDir : PathName
  namespaces : List String
  outputDir : PathName
  roleFile : PathName
  depthLimit : Nat
  partialMark : String
  deriving Repr, DecidableEq

namespace Settings

/-- The settings of a project that gives none. -/
def standard : Settings where
  commandsDir := ⟨"templates/commands"⟩
  namespaces := ["flow"]
  outputDir := ⟨".github/agents"⟩
  roleFile := ⟨"flowspec_workflow.yml"⟩
  depthLimit := 10
  partialMark := "_"

/-! ## Places -/

/-- The name of the file that gives the settings. -/
def settingsFile : String := "agentgen.yaml"

/-- The directory of the templates. -/
def commandsRoot (s : Settings) (root : PathName) : PathName := root.join s.commandsDir.raw

/-- The directory of the agents. -/
def outputRoot (s : Settings) (root : PathName) : PathName := root.join s.outputDir.raw

/-- The file of the roles. -/
def rolePath (s : Settings) (root : PathName) : PathName := root.join s.roleFile.raw

/-- A scope is one of the namespaces beside the roles. -/
def isNamespace (s : Settings) (scope : String) : Bool := s.namespaces.contains scope

/-! ## Reading -/

/-- The names of the settings in the file. -/
def fieldNames : List String :=
  ["commands_dir", "legacy_namespaces", "output_dir", "role_config", "max_include_depth",
    "partial_prefix"]

/-- Reads the settings from a node. -/
def ofNode (d : Document) (n : Node) : Reading Settings := do
  let fields ← d.record fieldNames n
  return {
    commandsDir := ⟨← Document.field fields "commands_dir" d.text standard.commandsDir.text⟩
    namespaces := ← Document.field fields "legacy_namespaces" d.texts standard.namespaces
    outputDir := ⟨← Document.field fields "output_dir" d.text standard.outputDir.text⟩
    roleFile := ⟨← Document.field fields "role_config" d.text standard.roleFile.text⟩
    depthLimit := ← Document.field fields "max_include_depth" d.natural standard.depthLimit
    partialMark := ← Document.field fields "partial_prefix" d.text standard.partialMark }

/-- The settings that a text gives. A blank text gives none. -/
def ofText (text : String) : Except Fault Settings :=
  if (Text.trim text.toList).isEmpty then .ok standard else Document.readText text ofNode

/-- The settings of the project at a root. -/
def load (w : Workspace) (root : PathName) : Except Error Settings :=
  let path := root.join settingsFile
  if !w.leads path then .ok standard
  else
    match w.readText path with
    | .error e => .error (.file e)
    | .ok text => (ofText text).mapError fun fault => .invalidSettings path fault.message

/-- Without `settingsFile` the project has its `standard` settings. -/
theorem load_of_absent {w : Workspace} {root : PathName}
    (h : w.leads (root.join settingsFile) = false) :
    load w root = .ok standard := by
  simp [load, h]

/-! ## Checks -/

/-- A namespace has a name that neither ends the scope of an identity nor leaves its directory. -/
def isNamespaceName (name : String) : Bool :=
  !name.isEmpty && !name.toList.contains '-' && !name.toList.contains '/'

/-- What is found about a namespace. -/
def checkNamespace (name : String) : List Finding :=
  (if isOperational name then [.namespaceIsRole name] else []) ++
    (if isNamespaceName name then [] else [.badNamespace name])

/-- What is found about the settings. -/
def check (s : Settings) : List Finding :=
  s.namespaces.flatMap checkNamespace ++
    (if s.depthLimit = 0 then [.zeroDepth] else []) ++
    (if s.partialMark.isEmpty then [.emptyPartialMark] else []) ++
    (if s.outputDir.startsWith s.commandsDir then
      [.outputInsideCommands s.outputDir s.commandsDir] else [])

/-- The checks find no error in the settings. -/
def isAccepted (s : Settings) : Bool := s.check.all fun f => f.level ≠ .error

theorem isNamespace_of_accepted {s : Settings} {name : String} (h : s.isAccepted = true)
    (hn : name ∈ s.namespaces) : isOperational name = false ∧ isNamespaceName name = true := by
  have hall : ∀ f ∈ checkNamespace name, f.level ≠ .error := fun f hf => by
    have hf' : f ∈ s.check := by
      simp only [check, List.append_assoc, List.mem_append, List.mem_flatMap]
      exact Or.inl ⟨name, hn, hf⟩
    simpa using List.all_eq_true.1 h f hf'
  constructor
  · cases ho : isOperational name with
    | false => rfl
    | true => exact absurd rfl (hall (.namespaceIsRole name) (by simp [checkNamespace, ho]))
  · cases hb : isNamespaceName name with
    | true => rfl
    | false => exact absurd rfl (hall (.badNamespace name) (by simp [checkNamespace, hb]))

end Settings

end AgentDocs
