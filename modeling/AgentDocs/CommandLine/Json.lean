import AgentDocs.Build.Report
import AgentDocs.Project.Finding
import AgentDocs.Role.Registry

/-!
# JSON output

The values that the program prints as JSON, and how they are printed: two spaces of indentation for
each level, one item on a line, and brackets that hold nothing side by side. Of the characters of a
text only quotes, backslashes and the control characters below the space are escaped.
-/

namespace AgentDocs.CommandLine

open AgentDocs.Files

/-- A JSON value. The fields of an object keep their order. -/
inductive Json where
  | null
  | bool (value : Bool)
  | number (value : Nat)
  | text (value : String)
  | array (items : List Json)
  | object (fields : List (String × Json))

namespace Json

/-! ## Printing -/

/-- A hexadecimal digit. -/
def hexDigit (n : Nat) : Char := Char.ofNat (if n < 10 then 48 + n else 87 + n)

/-- How a character stands in a text. -/
def escapeCharacter (c : Char) : List Char :=
  if c = '"' then ['\\', '"']
  else if c = '\\' then ['\\', '\\']
  else if c = '\n' then ['\\', 'n']
  else if c = '\r' then ['\\', 'r']
  else if c = '\t' then ['\\', 't']
  else if c.toNat = 8 then ['\\', 'b']
  else if c.toNat = 12 then ['\\', 'f']
  else if c.toNat < 32 then
    ['\\', 'u', '0', '0', hexDigit (c.toNat / 16), hexDigit (c.toNat % 16)]
  else [c]

/-- A text between quotes. -/
def quoted (value : String) : String :=
  String.ofList ('"' :: value.toList.flatMap escapeCharacter ++ ['"'])

/-- A line break and the indentation of a level. -/
def newLine (level : Nat) : String := String.ofList ('\n' :: List.replicate (2 * level) ' ')

mutual

/-- The printed form of a value that stands on a level. -/
def render (level : Nat) : Json → String
  | null => "null"
  | bool true => "true"
  | bool false => "false"
  | number value => toString value
  | text value => quoted value
  | array [] => "[]"
  | array (item :: items) =>
    "[" ++ newLine (level + 1) ++ render (level + 1) item ++ renderItems (level + 1) items ++
      newLine level ++ "]"
  | object [] => "\x7b\x7d"
  | object ((name, value) :: fields) =>
    "\x7b" ++ newLine (level + 1) ++ quoted name ++ ": " ++ render (level + 1) value ++
      renderFields (level + 1) fields ++ newLine level ++ "\x7d"

/-- The printed form of the items after the first. -/
def renderItems (level : Nat) : List Json → String
  | [] => ""
  | item :: items => "," ++ newLine level ++ render level item ++ renderItems level items

/-- The printed form of the fields after the first. -/
def renderFields (level : Nat) : List (String × Json) → String
  | [] => ""
  | (name, value) :: fields =>
    "," ++ newLine level ++ quoted name ++ ": " ++ render level value ++ renderFields level fields

end

/-- A value that may be missing. -/
def ofOption : Option String → Json
  | none => null
  | some value => text value

/-- A list of texts. -/
def texts (values : List String) : Json := array (values.map text)

end Json

/-! ## Reports -/

/-- The value for an action. -/
def actionJson : Action → Json
  | .written => .text "written"
  | .unchanged => .text "unchanged"
  | .wouldWrite => .text "would_write"
  | .upToDate => .text "up_to_date"
  | .drifted drift => .object [("drifted", .text drift.word)]

/-- The value for an outcome. Only previews show a header. -/
def outcomeJson (o : Outcome) : Json :=
  .object ([("identity", .text o.identity.name), ("path", .text o.path.text),
    ("action", actionJson o.action)] ++
    o.preview.toList.map fun header => ("preview", .text (String.ofList header)))

/-- The value for a failure. -/
def failureJson (f : Failure) : Json :=
  .object [("identity", .text f.subject), ("kind", .text f.error.kind),
    ("message", .text f.error.message)]

/-- The value for an agent that differs. -/
def driftedJson (d : Drifted) : Json :=
  .object [("identity", .text d.identity.name), ("kind", .text d.drift.word)]

/-- The value for a stale agent. -/
def staleJson (s : Stale) : Json :=
  .object [("identity", .text s.name), ("path", .text s.path.text), ("removed", .bool s.removed)]

/-- The paths in the value for a report. -/
def reportPaths (r : Report) : List PathName :=
  r.outcomes.map (·.path) ++ r.stale.map (·.path)

/-- The value for a report. -/
def reportJson (r : Report) : Json :=
  .object [
    ("mode", .text r.mode.word),
    ("scanned", .number r.scanned),
    ("processed", .number r.processed),
    ("partials_skipped", .number r.partialsSkipped),
    ("outcomes", .array (r.outcomes.map outcomeJson)),
    ("errors", .array (r.failures.map failureJson)),
    ("drifted", .array (r.drifted.map driftedJson)),
    ("missing_descriptions", .texts (r.missingDescriptions.map Identity.name)),
    ("stale", .array (r.stale.map staleJson))]

/-! ## Roles -/

/-- The value for a finding. -/
def findingJson (f : Finding) : Json :=
  .object [("level", .text f.level.word), ("message", .text f.message)]

/-- The value for the definition of a role. -/
def definitionJson (d : RoleDefinition) : Json :=
  .object [("agents", .texts d.agentNames), ("commands", .texts d.commands),
    ("role", .text d.role)]

/-- The value for a registry with what was found about it. -/
def registryJson (r : Registry) (findings : List Finding) : Json :=
  .object [
    ("primary", .ofOption r.primary),
    ("roles", .array (r.byRole.map definitionJson)),
    ("show_all_commands", .bool r.showAllCommands),
    ("warnings", .array (findings.map findingJson))]

end AgentDocs.CommandLine
