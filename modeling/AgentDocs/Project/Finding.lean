import AgentDocs.Files.PathName
import AgentDocs.Role.Basic

/-!
# Findings

What the checks of settings, roles and templates find. Findings about namespaces are errors and keep
a project from being compiled; all others are warnings.
-/

namespace AgentDocs

open AgentDocs.Files

/-- How grave a finding is. -/
inductive Level where
  | warning
  | error
  deriving Repr, DecidableEq

/-- The word for a level. -/
def Level.word : Level → String
  | warning => "warning"
  | error => "error"

/-- What a check finds. -/
inductive Finding where
  | namespaceIsRole (name : String)
  | badNamespace (name : String)
  | zeroDepth
  | emptyPartialMark
  | outputInsideCommands (output commands : PathName)
  | unknownPrimary (role : String)
  | unknownRole (role : String)
  | unmarkedAgent (role agent : String)
  | missingTemplate (role command : String) (path : PathName)
  | badCommandName (scope command : String)
  deriving Repr, DecidableEq

namespace Finding

/-- How grave a finding is. -/
def level : Finding → Level
  | namespaceIsRole _ => .error
  | badNamespace _ => .error
  | _ => .warning

/-- The message of a finding. -/
def message : Finding → String
  | namespaceIsRole name =>
    "legacy namespace '" ++ name ++ "' collides with an operational role name"
  | badNamespace name =>
    "legacy namespace '" ++ name ++ "' must be a non-empty name without '-' or '/'"
  | zeroDepth => "max_include_depth is 0: nested includes will always fail"
  | emptyPartialMark => "partial_prefix is empty: partial files will be compiled as commands"
  | outputInsideCommands output commands =>
    "output_dir '" ++ output.text ++ "' lies inside commands_dir '" ++ commands.text ++ "'"
  | unknownPrimary role => "primary role '" ++ role ++ "' is not one of " ++ roleNames
  | unknownRole role =>
    "role '" ++ role ++ "' is not an operational role; its commands are never compiled under it"
  | unmarkedAgent role agent =>
    "role '" ++ role ++ "' agent '" ++ agent ++ "' must start with @"
  | missingTemplate role command path =>
    "role '" ++ role ++ "' declares command '" ++ command ++ "' but " ++ path.text ++
      " does not exist"
  | badCommandName scope command =>
    "invalid command name '" ++ scope ++ "/" ++ command ++
      "': use lowercase letters, digits, '-' or '_'"

end Finding

end AgentDocs
