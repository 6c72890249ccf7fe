import AgentDocs.Project.Settings
import AgentDocs.Role.Registry

/-!
# The role configuration

The file that defines the roles, and its checks against the templates of the project. Only the
definitions, the primary role and one flag are read; the last of several definitions of one role
counts, and the definitions are taken in increasing order of their roles.

* `Registry.load_of_absent`: a project without the file has no roles.
-/

namespace AgentDocs

open AgentDocs.Files AgentDocs.Yaml

/-! ## Reading -/

/-- Reads the definition of a role from a node. -/
def RoleDefinition.ofNode (d : Document) (role : String) (n : Node) : Reading RoleDefinition := do
  let fields ← d.record ["commands", "agents"] n
  return {
    role
    commands := ← Document.field fields "commands" d.texts []
    agents := ← Document.field fields "agents" d.texts [] }

namespace Registry

/-- Reads the definitions of roles from a node. -/
def definitionsOfNode (d : Document) (n : Node) : Reading (List RoleDefinition) := do
  let definitions ← (← d.pairs n).mapM fun (role, n) => RoleDefinition.ofNode d role n
  return (ofDefinitions definitions).byRole

/-- Reads what the file says about roles from a node. -/
def sectionOfNode (d : Document) (n : Node) : Reading Registry := do
  let fields ← d.record ["primary", "show_all_commands", "definitions"] n
  return {
    definitions := ← Document.field fields "definitions" (definitionsOfNode d) []
    primary := ← Document.field fields "primary" d.text? none
    showAllCommands := ← Document.field fields "show_all_commands" d.flag false }

/-- Reads a registry from the root of a document. -/
def ofNode (d : Document) (n : Node) : Reading Registry := do
  let fields ← d.record ["roles"] n
  Document.field fields "roles" (sectionOfNode d) empty

/-- The registry that a text gives. A blank text gives none. -/
def ofText (text : String) : Except Fault Registry :=
  if (Text.trim text.toList).isEmpty then .ok empty else Document.readText text ofNode

/-- The registry of the file at a path. -/
def load (w : Workspace) (path : PathName) : Except Error Registry :=
  if !w.leads path then .ok empty
  else
    match w.readText path with
    | .error e => .error (.file e)
    | .ok text => (ofText text).mapError fun fault => .invalidRoles path fault.message

/-- Where nothing stands at `path`, no role has a definition. -/
theorem load_of_absent {w : Workspace} {path : PathName} (h : w.leads path = false) :
    load w path = .ok empty := by
  simp [load, h]

/-! ## Checks -/

/-- The name of the template of a command. -/
def templateFile (command : String) : String := command ++ ".md"

/-- The template of a command stands in the directory of a role or of a namespace. -/
def hasTemplate (w : Workspace) (root : PathName) (s : Settings) (role command : String) : Bool :=
  let stands := fun scope : String =>
    w.isFile (((s.commandsRoot root).join scope).join (templateFile command))
  stands role || s.namespaces.any stands

/-- What is found about the commands of a role. -/
def checkCommands (w : Workspace) (root : PathName) (s : Settings) (d : RoleDefinition) :
    List Finding :=
  if !d.owns then []
  else
    (d.commands.filter fun command => !hasTemplate w root s d.role command).map fun command =>
      .missingTemplate d.role command ((s.commandsDir.join d.role).join (templateFile command))

/-- A role may stand in the configuration. -/
def isKnownRole (role : String) : Bool := role = sharedScope || isOperational role

/-- What is found about a registry in a project. -/
def check (r : Registry) (w : Workspace) (root : PathName) (s : Settings) : List Finding :=
  (r.primary.toList.filter (!isKnownRole ·)).map .unknownPrimary ++
    ((r.byRole.map (·.role)).filter (!isKnownRole ·)).map .unknownRole ++
    (r.definitions.flatMap fun d => d.unmarkedAgents.map (.unmarkedAgent d.role ·)) ++
    r.byRole.flatMap (checkCommands w root s)

end Registry

end AgentDocs
