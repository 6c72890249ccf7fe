import AgentDocs.Role.Registry

/-!
# Handoffs

What an agent suggests to do next. The suggestions for a command are rows of a table; each names the
role that owns its agent, and the agents that the current role lists itself come first, in the order
of its list.

* `perm_promote`: promotion only reorders.
-/

namespace AgentDocs

/-- A suggestion for a next step: an agent and what to ask of it. -/
structure HandoffRule where
  label : String
  agent : String
  prompt : String
  send : Bool
  deriving Repr, DecidableEq

/-- The suggestions for the commands of a scope. -/
structure HandoffRow where
  scope : String
  command : String
  rules : List HandoffRule
  deriving Repr, DecidableEq

/-- The suggestions of all scopes, apart for namespaces and for operational roles. -/
structure HandoffTable where
  namespaced : List HandoffRow
  operational : List HandoffRow
  deriving Repr, DecidableEq

/-- A suggestion with the roles that it concerns first. -/
structure Handoff where
  rule : HandoffRule
  priorityForRoles : List String
  deriving Repr, DecidableEq

/-- The commands that end a flow, each with its scope. -/
def terminalCommands : List (String × String) :=
  [("flow", "operate"), ("ops", "monitor"), ("sec", "report")]

/-- A command ends a flow. -/
def isTerminal (scope command : String) : Bool := terminalCommands.contains (scope, command)

namespace HandoffTable

/-- The suggestions for a command. The last of several rows for it counts. -/
def rules (t : HandoffTable) (scope command : String) : List HandoffRule :=
  if isTerminal scope command then []
  else
    let rows := if isOperational scope then t.operational else t.namespaced
    match rows.reverse.find? fun row => row.scope = scope && row.command = command with
    | some row => row.rules
    | none => []

end HandoffTable

/-- A suggestion with the role that owns its agent. -/
def HandoffRule.annotate (r : Registry) (rule : HandoffRule) : Handoff :=
  ⟨rule, (r.agentRole? rule.agent).toList⟩

/-- The place of an agent in a list; agents that are not in it come after all others. -/
def place (own : List String) (agent : String) : Nat := own.idxOf agent

/-- The suggestions whose agents a list names first, in the order of the list, then all others. -/
def promote (own : List String) (handoffs : List Handoff) : List Handoff :=
  handoffs.mergeSort fun a b => decide (place own a.rule.agent ≤ place own b.rule.agent)

/-- Moving the agents of `own` to the front neither drops nor repeats a handoff. -/
theorem perm_promote (own : List String) (handoffs : List Handoff) :
    (promote own handoffs).Perm handoffs := List.mergeSort_perm _ _

/-- The suggestions for a command. -/
def HandoffTable.handoffs (t : HandoffTable) (scope command : String) (r : Registry) :
    List Handoff :=
  let annotated := (t.rules scope command).map (HandoffRule.annotate r)
  let own := r.agentsOf scope
  if own.isEmpty then annotated else promote own annotated

end AgentDocs
