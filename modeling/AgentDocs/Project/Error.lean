import AgentDocs.Files.Workspace
import AgentDocs.Role.Basic

/-!
# Errors

Why a template, a setting or a run fails. Each cause has a short kind for machines and a message for
people.
-/

namespace AgentDocs

open AgentDocs.Files

/-- A failure. -/
inductive Error where
  | pathEscape (requested : String)
  | includeNotFound (path : PathName)
  | depthExceeded (path : String) (limit : Nat)
  | templateUnreadable (path : PathName) (cause : FileError)
  | invalidRoles (path : PathName) (detail : String)
  | invalidSettings (path : PathName) (detail : String)
  | unknownRole (name : String)
  | file (cause : FileError)
  deriving Repr, DecidableEq

namespace Error

/-- The kind of a failure. -/
def kind : Error → String
  | pathEscape _ => "path_escape"
  | includeNotFound _ => "include_not_found"
  | depthExceeded _ _ => "depth_exceeded"
  | templateUnreadable _ _ => "source_read"
  | invalidRoles _ _ => "config_parse"
  | invalidSettings _ _ => "invalid_config"
  | unknownRole _ => "unknown_role"
  | file _ => "io"

/-- The message of a failure. -/
def message : Error → String
  | pathEscape requested => "include path escapes project root: " ++ requested
  | includeNotFound path => "include not found: " ++ path.text
  | depthExceeded path limit =>
    "include depth exceeded (max " ++ toString limit ++ ") while resolving " ++ path
  | templateUnreadable path cause =>
    "cannot read command template " ++ path.text ++ ": " ++ cause.message
  | invalidRoles path detail => "invalid role configuration " ++ path.text ++ ": " ++ detail
  | invalidSettings path detail => "invalid project configuration " ++ path.text ++ ": " ++ detail
  | unknownRole name => "unknown role '" ++ name ++ "': expected one of " ++ roleNames
  | file cause => cause.message

end Error

/-- The result of a file operation as a result of the project. -/
def ofFile {α : Type} (result : Except FileError α) : Except Error α := result.mapError Error.file

end AgentDocs
