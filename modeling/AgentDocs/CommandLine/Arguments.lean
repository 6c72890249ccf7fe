import AgentDocs.Build.Report
import AgentDocs.CommandLine.Option

/-!
# Arguments

What the words of a command line ask for. The words of a level are read from left to right up to the
first that is no option; asking for the version or for help ends the reading at once. An option
whose value is a word of its own is checked when the next one of its level is read, or after all
words. What both levels have is combined: the root after the command counts before the one in front
of it, and one of them before that of the environment.
-/

namespace AgentDocs.CommandLine

open AgentDocs.Files

/-! ## Errors -/

/-- Why a command line is refused. -/
inductive UsageError where
  | unknownOption (option : String)
  | unexpectedValue (option : String)
  | missingValue (option : String)
  | emptyValue (option : String)
  | badValue (option : String)
  | repeated (option : String)
  | conflict (option other : String)
  | missingCommand
  | unknownCommand (word : String)
  | unexpectedWord (word : String)
  deriving Repr, DecidableEq

/-- The message of a usage error. -/
def UsageError.message : UsageError → String
  | unknownOption option => "unexpected option '" ++ option ++ "'"
  | unexpectedValue option => "the option '" ++ option ++ "' takes no value"
  | missingValue option => "a value is required for the option '" ++ option ++ "'"
  | emptyValue option => "the value of the option '" ++ option ++ "' must not be empty"
  | badValue option => "the value of the option '" ++ option ++ "' must be valid UTF-8"
  | repeated option => "the option '" ++ option ++ "' cannot be used twice"
  | conflict option other =>
    "the option '" ++ option ++ "' cannot be used with '" ++ other ++ "'"
  | missingCommand => "a command is required"
  | unknownCommand word => "unknown command '" ++ word ++ "'"
  | unexpectedWord word => "unexpected argument '" ++ word ++ "'"

/-- An option as it is written. -/
def Key.written (key : Key) : String := "--" ++ key.name

/-! ## Options of a level -/

/-- An option that was given, with its value. -/
structure Given where
  key : Key
  value : RawText
  deriving Repr, DecidableEq

/-- What ends the reading of a command line early. -/
inductive Stop where
  | usage (error : UsageError)
  | version (level : Level)
  | help
  deriving Repr, DecidableEq

/-- An option is among those given. -/
def isGiven (given : List Given) (key : Key) : Bool := given.any (·.key = key)

/-- The value that an option was given. -/
def valueOf? (given : List Given) (key : Key) : Option RawText :=
  (given.find? (·.key = key)).map (·.value)

/-- Adds an option with its value. A root may be any raw text but none, a role has to be text. -/
def addValue (given : List Given) (key : Key) (value : RawText) : Except Stop (List Given) :=
  if isGiven given key then .error (.usage (.repeated key.written))
  else if key = .root ∧ value = "" then .error (.usage (.emptyValue key.written))
  else if key = .role ∧ value.text? = none then .error (.usage (.badValue key.written))
  else .ok (given ++ [⟨key, value⟩])

/-- The options of a level so far. The last one is pending if its value is a word of its own. -/
structure Collected where
  given : List Given
  pending : Option Given
  deriving Repr, DecidableEq

/-- No options. -/
def Collected.empty : Collected := ⟨[], none⟩

/-- The options with the pending one added. -/
def Collected.settle (c : Collected) : Except Stop (List Given) :=
  match c.pending with
  | none => .ok c.given
  | some g => addValue c.given g.key g.value

/-- Adds an option that stands alone. -/
def addSwitch (level : Level) (given : List Given) (key : Key) : Except Stop (List Given) :=
  match key with
  | .version => .error (.version level)
  | .help => .error .help
  | _ => addValue given key ""

/-- Adds the option that a letter stands for. Options with letters take no values. -/
def addLetter (level : Level) (given : List Given) (letter : Char) : Except Stop (List Given) :=
  match level.letterOption? letter with
  | none => .error (.usage (.unknownOption (String.ofList ['-', letter])))
  | some key => addSwitch level given key

/-- Reads the options of a level up to the first word that is none, which is left with all that
follow. A pending option is added when the next one is read. -/
def readOptions (level : Level) (c : Collected) :
    List RawText → Except Stop (Collected × List RawText)
  | [] => .ok (c, [])
  | word :: rest =>
    match Word.ofRaw word with
    | .plain | .escape => .ok (c, word :: rest)
    | .letters letters =>
      match c.settle.bind (letters.foldlM (addLetter level)) with
      | .error stop => .error stop
      | .ok given => readOptions level ⟨given, none⟩ rest
    | .named name value =>
      match level.option? name, c.settle with
      | none, _ => .error (.usage (.unknownOption word.text))
      | some _, .error stop => .error stop
      | some key, .ok given =>
        match key.takesValue, value, rest with
        | false, some _, _ => .error (.usage (.unexpectedValue key.written))
        | false, none, rest =>
          match addSwitch level given key with
          | .error stop => .error stop
          | .ok given => readOptions level ⟨given, none⟩ rest
        | true, some value, rest =>
          match addValue given key value with
          | .error stop => .error stop
          | .ok given => readOptions level ⟨given, none⟩ rest
        | true, none, [] => .error (.usage (.missingValue key.written))
        | true, none, value :: rest =>
          if isValue value then readOptions level ⟨given, some ⟨key, value⟩⟩ rest
          else .error (.usage (.missingValue key.written))

/-! ## Requests -/

/-- What a run of `sync` is asked to do. -/
structure SyncArguments where
  mode : Mode
  force : Bool
  role : String
  deriving Repr, DecidableEq

/-- A command with its own arguments. -/
inductive Command where
  | sync (arguments : SyncArguments)
  | roles
  deriving Repr, DecidableEq

/-- An accepted command line. -/
structure Arguments where
  root? : Option RawText
  json : Bool
  verbose : Bool
  command : Command
  deriving Repr, DecidableEq

/-- What a command line asks for. -/
inductive Request where
  | run (arguments : Arguments)
  | version (program : String)
  | help
  deriving Repr, DecidableEq

/-- The name of the program. -/
def programName : String := "agentgen"

/-- The name under which a level shows its version. -/
def Level.programName : Level → String
  | program => CommandLine.programName
  | command name => CommandLine.programName ++ "-" ++ name.word

/-- The arguments of `sync` that some options give. -/
def SyncArguments.ofGiven (given : List Given) : SyncArguments where
  mode :=
    if isGiven given .validate then .validate
    else if isGiven given .dryRun then .preview
    else .sync
  force := isGiven given .force
  role := ((valueOf? given .role).map RawText.text).getD sharedScope

/-- The command with its arguments. -/
def Command.ofGiven (name : CommandName) (given : List Given) : Command :=
  match name with
  | .sync => .sync (.ofGiven given)
  | .roles => .roles

/-- The root that both levels and the environment give. The environment must not give an empty one,
unless no level looks at it. -/
def rootOf? (outer inner : List Given) (environment : Option RawText) :
    Except UsageError (Option RawText) :=
  match valueOf? inner .root, valueOf? outer .root with
  | some root, some _ => .ok (some root)
  | inner?, outer? =>
    if environment = some (RawText.ofString "") then .error (.emptyValue Key.root.written)
    else .ok (inner? <|> outer? <|> environment)

/-- The arguments that the options of both levels and the environment give. -/
def Arguments.ofGiven (outer inner : List Given) (environment : Option RawText)
    (name : CommandName) : Except UsageError Arguments :=
  if isGiven inner .dryRun && isGiven inner .validate then
    .error (.conflict Key.dryRun.written Key.validate.written)
  else
    (rootOf? outer inner environment).map fun root? => {
      root?
      json := isGiven outer .json || isGiven inner .json
      verbose := isGiven outer .verbose || isGiven inner .verbose
      command := .ofGiven name inner }

/-- The words after a command and its options: none but an escape. -/
def checkRest : List RawText → Except Stop Unit
  | [] => .ok ()
  | word :: rest =>
    if word = "--" ∧ rest = [] then .ok () else .error (.usage (.unexpectedWord word.text))

/-- The words after `help`: none, or the name of a command. -/
def checkHelp : List RawText → Stop
  | [] => .help
  | [word] =>
    if (CommandName.ofWord? word.text).isSome || word = "help" then .help
    else .usage (.unknownCommand word.text)
  | word :: _ => .usage (.unknownCommand word.text)

/-- Reads the words of a command line up to what is asked for. -/
def readArguments (environment : Option RawText) (words : List RawText) :
    Except Stop Arguments := do
  let (outer, rest) ← readOptions .program .empty words
  match rest with
  | [] => .error (.usage .missingCommand)
  | word :: rest =>
    match CommandName.ofWord? word.text with
    | none => .error (if word = "help" then checkHelp rest else .usage (.unknownCommand word.text))
    | some name =>
      let (inner, rest) ← readOptions (.command name) .empty rest
      checkRest rest
      let inner ← inner.settle
      let outer ← outer.settle
      (Arguments.ofGiven outer inner environment name).mapError Stop.usage

/-- What the words of a command line ask for, in an environment that may give a root. -/
def Request.ofWords (environment : Option RawText) (words : List RawText) :
    Except UsageError Request :=
  match readArguments environment words with
  | .ok arguments => .ok (.run arguments)
  | .error (.usage error) => .error error
  | .error (.version level) => .ok (.version level.programName)
  | .error .help => .ok .help

end AgentDocs.CommandLine
