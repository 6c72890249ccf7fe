import AgentDocs.Agent.Identity
import AgentDocs.Project.Error

/-!
# Reports of runs

What a run did for each template, what failed, and what was found to be stale.
-/

namespace AgentDocs

open AgentDocs.Files

/-- What a run is for: to write the agents, to show what would be written, or to compare. -/
inductive Mode where
  | sync
  | preview
  | validate
  deriving Repr, DecidableEq

/-- The word for a mode. -/
def Mode.word : Mode → String
  | sync => "sync"
  | preview => "dry_run"
  | validate => "validate"

/-- How an agent differs from what it should be. -/
inductive Drift where
  | missing
  | modified
  deriving Repr, DecidableEq

/-- The word for a difference. -/
def Drift.word : Drift → String
  | missing => "missing"
  | modified => "modified"

/-- What was done about an agent. -/
inductive Action where
  | written
  | unchanged
  | wouldWrite
  | upToDate
  | drifted (drift : Drift)
  deriving Repr, DecidableEq

/-- The outcome for an agent. Previews show its header. -/
structure Outcome where
  identity : Identity
  path : PathName
  action : Action
  preview : Option (List Char)
  deriving Repr, DecidableEq

/-- A failure with what it concerns: an agent, or the directory of all agents. -/
structure Failure where
  subject : String
  error : Error
  deriving Repr, DecidableEq

/-- An agent that differs from what it should be. -/
structure Drifted where
  identity : Identity
  drift : Drift
  deriving Repr, DecidableEq

/-- An agent without a template. -/
structure Stale where
  name : String
  path : PathName
  removed : Bool
  deriving Repr, DecidableEq

/-- The report of a run. -/
structure Report where
  mode : Mode
  scanned : Nat
  processed : Nat
  partialsSkipped : Nat
  outcomes : List Outcome
  failures : List Failure
  drifted : List Drifted
  missingDescriptions : List Identity
  stale : List Stale
  deriving Repr, DecidableEq

namespace Report

/-- The number of outcomes with an action. -/
def count (r : Report) (action : Action) : Nat := r.outcomes.countP (·.action = action)

/-- The exit code that a report asks for. -/
def exitCode (r : Report) : Nat :=
  match r.mode with
  | .validate => if r.failures.isEmpty && r.drifted.isEmpty then 0 else 2
  | _ => if r.failures.isEmpty then 0 else 1

end Report

end AgentDocs
