import AgentDocs.Build.Run
import AgentDocs.CommandLine.Arguments
import AgentDocs.CommandLine.Display
import AgentDocs.CommandLine.Json

/-!
# Running a command line

A command reads the project first; where that fails it prints nothing and changes nothing. What the
checks find goes with the response as notices, apart from the output.

* `sync_of_refused`: a project that cannot be read leaves the workspace as it is.
-/

namespace AgentDocs.CommandLine

open AgentDocs.Files

/-! ## Responses -/

/-- A message beside the output. -/
inductive Notice where
  | finding (finding : Finding)
  | failure (context : Option String) (error : Error)
  | refused
  | unprintable
  | usage (error : UsageError)
  deriving Repr, DecidableEq

/-- The text of a notice. -/
def Notice.text : Notice → String
  | finding f => "[" ++ f.level.word ++ "] " ++ f.message ++ "\n"
  | failure none e => "error: " ++ e.message ++ "\n"
  | failure (some context) e => "error: " ++ context ++ ": " ++ e.message ++ "\n"
  | refused => "error: agentgen.yaml has configuration errors\n"
  | unprintable => "error: path contains invalid UTF-8 characters\n"
  | usage e => "error: " ++ e.message ++ "\n\nFor more information, try '--help'.\n"

/-- What a command line answers: its exit code, its output and its notices. -/
structure Response where
  exitCode : Nat
  output : String
  notices : List Notice
  deriving Repr, DecidableEq

/-- The response that refuses to go on. -/
def Response.refusal (notices : List Notice) : Response := ⟨1, "", notices⟩

/-! ## Root -/

/-- The path of a location. -/
def pathOf (l : Location) : PathName :=
  ⟨⟨separator :: [separator].intercalate (l.reverse.map (·.raw.bytes))⟩⟩

/-- A location and the locations above it, from the inside out. -/
def ancestors : Location → List Location
  | [] => [[]]
  | name :: l => (name :: l) :: ancestors l

/-- The location that is taken for the root where none is given: the innermost one that holds the
settings, else the innermost one under version control, else the start. -/
def detectedRoot (w : Workspace) : PathName :=
  let candidates := (ancestors w.start).map pathOf
  let bySettings := candidates.find? fun p => w.isFile (p.join Settings.settingsFile)
  let byControl := candidates.find? fun p => w.isDirectory (p.join ".git")
  (bySettings <|> byControl).getD (pathOf w.start)

/-- The root that arguments ask for. -/
def rootFor (w : Workspace) (a : Arguments) : PathName :=
  match a.root? with
  | some root => ⟨root⟩
  | none => detectedRoot w

/-! ## Commands -/

/-- A result whose failure becomes the last of some notices. -/
def orNotice {α : Type} (notices : List Notice) (context : String) (result : Except Error α) :
    Except (List Notice) α :=
  result.mapError fun e => notices ++ [.failure (some context) e]

/-- The settings at a root. -/
def loadSettings (w : Workspace) (root : PathName) : Except (List Notice) Settings :=
  orNotice [] "failed to load agentgen.yaml" (Settings.load w root)

/-- The registry that the settings name, after some notices. -/
def loadRegistry (w : Workspace) (root : PathName) (s : Settings) (notices : List Notice) :
    Except (List Notice) Registry :=
  orNotice notices "failed to load role configuration" (Registry.load w (s.rolePath root))

/-- The templates under a root, after some notices. -/
def searchTemplates (w : Workspace) (root : PathName) (s : Settings) (notices : List Notice) :
    Except (List Notice) Discovery :=
  orNotice notices "failed to discover command templates" (Discovery.search w root s)

/-- What the checks find about a registry and about templates. -/
def projectFindings (w : Workspace) (root : PathName) (s : Settings) (r : Registry)
    (d : Discovery) : List Finding :=
  r.check w root s ++ d.check

/-- The project at a root with its templates, and the notices about them. Settings in which the
checks find an error are refused. -/
def prepare (w : Workspace) (root : PathName) :
    Except (List Notice) (Project × Discovery × List Notice) := do
  let settings ← loadSettings w root
  let notices := settings.check.map Notice.finding
  if !settings.isAccepted then throw (notices ++ [.refused])
  let registry ← loadRegistry w root settings notices
  let discovery ← searchTemplates w root settings notices
  let findings := projectFindings w root settings registry discovery
  return (⟨root, settings, registry, .standard⟩, discovery,
    notices ++ findings.map Notice.finding)

/-- The project for the arguments of `sync`, and the choice of roles. -/
def prepareSync (w : Workspace) (root : PathName) (a : SyncArguments) :
    Except (List Notice) (RoleFilter × Project × Discovery × List Notice) :=
  match RoleFilter.parse? a.role with
  | none => .error [.failure none (.unknownRole a.role)]
  | some filter => (prepare w root).map (filter, ·)

/-- The output that shows a report, if it can be shown. Paths stand in JSON as texts, so that a
path that is none leaves nothing to print. -/
def reportOutput? (root : PathName) (json verbose : Bool) (r : Report) : Option String :=
  if !json then some (unlines (reportLines root verbose r))
  else if (reportPaths r).all (·.raw.text?.isSome) then some ((reportJson r).render 0 ++ "\n")
  else none

/-- Compiles the templates of the project at a root. What the run has done stays done where its
report cannot be printed. -/
def sync (w : Workspace) (root : PathName) (json verbose : Bool) (a : SyncArguments) :
    Workspace × Response :=
  match prepareSync w root a with
  | .error notices => (w, .refusal notices)
  | .ok (filter, project, discovery, notices) =>
    let (w, report) := project.run w discovery ⟨a.mode, a.force, filter⟩
    match reportOutput? root json verbose report with
    | some output => (w, ⟨report.exitCode, output, notices⟩)
    | none => (w, .refusal (notices ++ [.unprintable]))

/-- What `prepareSync` refuses leaves `w` as it was. -/
theorem sync_of_refused {w : Workspace} {root : PathName} {json verbose : Bool} {a : SyncArguments}
    {notices : List Notice} (h : prepareSync w root a = .error notices) :
    sync w root json verbose a = (w, .refusal notices) := by
  simp [sync, h]

/-- Shows the roles of the project at a root. -/
def roles (w : Workspace) (root : PathName) (json : Bool) : Except (List Notice) Response := do
  let settings ← loadSettings w root
  let registry ← loadRegistry w root settings []
  let discovery ← searchTemplates w root settings []
  let findings := projectFindings w root settings registry discovery
  if json then
    return ⟨0, (registryJson registry findings).render 0 ++ "\n", []⟩
  else
    return ⟨0, unlines (registryLines (settings.rolePath root) registry),
      findings.map Notice.finding⟩

/-! ## Command lines -/

/-- The version of the program. -/
def programVersion : String := "0.1.0"

/-- How the program is used. -/
def helpText : String := unlines [
  "Compile command templates into role-scoped agent documents",
  "",
  "Usage: agentgen [OPTIONS] <COMMAND>",
  "",
  "Commands:",
  "  sync   Generate agent documents from command templates",
  "  roles  Show role ownership loaded from the role configuration",
  "  help   Print this message",
  "",
  "Options:",
  "      --root <ROOT>  Project root (default: auto-detect from agentgen.yaml or .git/)",
  "  -j, --json         Output as JSON",
  "  -v, --verbose      Show header previews and unchanged agents",
  "  -h, --help         Print help",
  "  -V, --version      Print version",
  "",
  "Options of sync:",
  "      --dry-run      Show what would be written without touching the filesystem",
  "      --validate     Compare generated output with what is on disk; exit 2 on drift",
  "      --force        Remove stale agents whose source command no longer exists",
  "      --role <ROLE>  Only process commands owned by this role"]

/-- Does what accepted arguments ask for. -/
def runArguments (w : Workspace) (a : Arguments) : Workspace × Response :=
  let root := rootFor w a
  match a.command with
  | .sync arguments => sync w root a.json a.verbose arguments
  | .roles =>
    match roles w root a.json with
    | .ok response => (w, response)
    | .error notices => (w, .refusal notices)

/-- Runs the program on a command line, in an environment that may give a root. -/
def run (w : Workspace) (environment : Option RawText) (words : List RawText) :
    Workspace × Response :=
  match Request.ofWords environment words with
  | .error e => (w, ⟨2, "", [.usage e]⟩)
  | .ok (.version program) => (w, ⟨0, program ++ " " ++ programVersion ++ "\n", []⟩)
  | .ok .help => (w, ⟨0, helpText, []⟩)
  | .ok (.run arguments) => runArguments w arguments

end AgentDocs.CommandLine
