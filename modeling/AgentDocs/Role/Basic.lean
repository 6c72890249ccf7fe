/-!
# Roles

The operational roles, the scope that all of them share, and the choice of one role or of all.

* `RoleFilter.parse?_eq_none_iff`: the names of roles, and `all`, are all that can be chosen.
-/

namespace AgentDocs

/-- The roles that commands are compiled for. -/
def operationalRoles : List String := ["pm", "arch", "dev", "sec", "qa", "ops"]

/-- The scope that all roles share. It owns nothing. -/
def sharedScope : String := "all"

/-- A scope is an operational role. -/
def isOperational (scope : String) : Bool := operationalRoles.contains scope

/-- The names of the roles, in a list for messages. -/
def roleNames : String := ", ".intercalate (operationalRoles ++ [sharedScope])

/-- A choice of one role or of all. -/
inductive RoleFilter where
  | all
  | role (name : String)
  deriving Repr, DecidableEq

namespace RoleFilter

/-- The choice that a name stands for. -/
def parse? (name : String) : Option RoleFilter :=
  if name = sharedScope then some .all
  else if isOperational name then some (.role name)
  else none

theorem parse?_eq_none_iff {name : String} :
    parse? name = none ↔ name ≠ sharedScope ∧ isOperational name = false := by
  unfold parse?
  split
  · simp [*]
  · split <;> simp_all

end RoleFilter

end AgentDocs
