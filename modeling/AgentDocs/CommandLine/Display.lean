import AgentDocs.Build.Report
import AgentDocs.CommandLine.Table
import AgentDocs.Role.Registry
import AgentDocs.Text.Line

/-!
# Display

The lines that show a report or a registry to people. Sections that would hold nothing are left out,
and agents that are as they should be are shown on request only.
-/

namespace AgentDocs.CommandLine

open AgentDocs.Files AgentDocs.Text

/-- Lines as one text, each with its line feed. -/
def unlines (lines : List String) : String := String.join (lines.map (· ++ "\n"))

/-! ## Outcomes -/

/-- The word in front of an outcome, if it is shown. -/
def actionLabel? (verbose : Bool) : Action → Option String
  | .written => some "wrote"
  | .wouldWrite => some "would write"
  | .drifted _ => some "drift"
  | .unchanged => if verbose then some "unchanged" else none
  | .upToDate => if verbose then some "up to date" else none

/-- The lines for an outcome. Paths are shown from the root on. -/
def outcomeLines (root : PathName) (verbose : Bool) (o : Outcome) : List String :=
  let head := (actionLabel? verbose o.action).toList.map fun label =>
    "  " ++ padded 12 label ++ " " ++ ((o.path.relativeTo? root).getD o.path).text
  let header := if verbose then o.preview.toList.flatMap lineContents else []
  head ++ header.map fun line => spaces 15 ++ String.ofList line

/-! ## Sections -/

/-- A section with a title, left out where it would hold nothing. -/
def sectionOf (title : String) (lines : List String) : List String :=
  if lines.isEmpty then [] else "" :: title :: lines

/-- The lines of an indented table, none where it would have no rows. -/
def tableLines (headers : List String) (rows : List (List String)) : List String :=
  if rows.isEmpty then [] else Table.lines ⟨2, headers, rows⟩

/-- The cells for a failure. -/
def failureRow (f : Failure) : List String := [f.subject, f.error.kind, f.error.message]

/-- The cells for an agent that differs. -/
def driftedRow (d : Drifted) : List String := [d.identity.name, d.drift.word]

/-- The cells for a stale agent. -/
def staleRow (s : Stale) : List String :=
  [s.name, if s.removed then "removed" else "left in place (use --force to remove)"]

/-- The line for an agent whose template describes nothing. -/
def missingDescriptionLine (i : Identity) : String :=
  "  " ++ padded 28 i.name ++ " missing description, default used"

/-! ## Reports -/

/-- The line that sums up a report. -/
def summaryLine (r : Report) : String :=
  r.mode.word ++ ": scanned " ++ toString r.scanned ++ ", processed " ++ toString r.processed ++
    ", errors " ++ toString r.failures.length ++
    if r.mode = .validate then ", drifted " ++ toString r.drifted.length else ""

/-- What to do about agents that are out of date. -/
def adviceLines (r : Report) : List String :=
  if r.mode = .validate ∧ r.exitCode ≠ 0 then
    ["Generated agents are out of date; run `agentgen sync` to regenerate."]
  else []

/-- The lines that show a report. -/
def reportLines (root : PathName) (verbose : Bool) (r : Report) : List String :=
  r.outcomes.flatMap (outcomeLines root verbose) ++
    sectionOf "Errors:" (tableLines ["AGENT", "KIND", "MESSAGE"] (r.failures.map failureRow)) ++
    sectionOf "Drift:" (tableLines ["AGENT", "DRIFT"] (r.drifted.map driftedRow)) ++
    sectionOf "Stale:" (tableLines ["AGENT", "STATUS"] (r.stale.map staleRow)) ++
    sectionOf "Warnings:" (r.missingDescriptions.map missingDescriptionLine) ++
    ["", summaryLine r] ++ adviceLines r

/-! ## Roles -/

/-- The cells for a role. The primary one is marked. -/
def definitionRow (primary : Option String) (d : RoleDefinition) : List String :=
  [if primary = some d.role then d.role ++ "*" else d.role, ", ".intercalate d.commands,
    ", ".intercalate d.agentNames]

/-- The lines that show a registry that was looked for at a path. -/
def registryLines (path : PathName) (r : Registry) : List String :=
  if r.isEmpty then ["No role metadata (" ++ path.text ++ " not found or empty)."]
  else Table.lines ⟨0, ["ROLE", "COMMANDS", "AGENTS"], r.byRole.map (definitionRow r.primary)⟩

end AgentDocs.CommandLine
