import AgentDocs.Role.Basic
import AgentDocs.Text.Blank

/-!
# Who owns what

A registry keeps the role definitions in the order in which they were given. A command or an agent
belongs to the first role that lists it; the shared scope owns nothing. Of several definitions of
one role the last one lists its agents.
-/

namespace AgentDocs

open AgentDocs.Text

/-- What the role configuration says about one role. Agents stand as they are written. -/
structure RoleDefinition where
  role : String
  commands : List String
  agents : List String
  deriving Repr, DecidableEq

/-- The mark in front of agent names in the role configuration. -/
def agentMark : Char := '@'

/-- An agent name without the marks in front. -/
def withoutMarks (agent : String) : String :=
  String.ofList (agent.toList.dropWhile (· == agentMark))

namespace RoleDefinition

/-- The names of the agents: trimmed and without marks, the empty ones left out. -/
def agentNames (d : RoleDefinition) : List String :=
  (d.agents.map fun agent => withoutMarks (trimmed agent)).filter (· ≠ "")

/-- The agents that are written without a mark, trimmed. -/
def unmarkedAgents (d : RoleDefinition) : List String :=
  (d.agents.map trimmed).filter fun agent =>
    agent ≠ "" && agent.toList.head? ≠ some agentMark

/-- A role other than the shared scope owns its commands and agents. -/
def owns (d : RoleDefinition) : Bool := d.role ≠ sharedScope

end RoleDefinition

/-- The role definitions with the settings beside them. -/
structure Registry where
  definitions : List RoleDefinition
  primary : Option String
  showAllCommands : Bool
  deriving Repr, DecidableEq

namespace Registry

/-- The registry that knows no role. -/
def empty : Registry := ⟨[], none, false⟩

/-- The registry of some definitions in order. -/
def ofDefinitions (definitions : List RoleDefinition) : Registry := ⟨definitions, none, false⟩

/-- The role that owns a command. -/
def commandRole? (r : Registry) (command : String) : Option String :=
  (r.definitions.find? fun d => d.owns && d.commands.contains command).map (·.role)

/-- The role that owns an agent, whose name may be given with marks. -/
def agentRole? (r : Registry) (agent : String) : Option String :=
  (r.definitions.find? fun d => d.owns && d.agentNames.contains (withoutMarks agent)).map (·.role)

/-- The agents of a role, in the order of its definition. -/
def agentsOf (r : Registry) (role : String) : List String :=
  match r.definitions.reverse.find? (·.role = role) with
  | some d => d.agentNames
  | none => []

/-- A list in the order of its roles with a definition put in, in place of one of the same role. -/
def insertByRole (d : RoleDefinition) : List RoleDefinition → List RoleDefinition
  | [] => [d]
  | e :: rest =>
    if d.role = e.role then d :: rest
    else if d.role < e.role then d :: e :: rest
    else e :: insertByRole d rest

/-- The definitions by role in increasing order, the last one of each role. -/
def byRole (r : Registry) : List RoleDefinition :=
  r.definitions.foldl (fun sorted d => insertByRole d sorted) []

/-- The registry knows no role. -/
def isEmpty (r : Registry) : Bool := r.definitions.isEmpty

end Registry

end AgentDocs
