import AgentDocs.Text.Line
import AgentDocs.Text.Blank
import AgentDocs.Yaml.Value

/-!
# Frontmatter

A template may begin with a header between two delimiter lines. Only the description in it counts:
it is looked up in the value of the header or, where the header has no value because it holds
placeholders, on the first line that begins with the field.
-/

namespace AgentDocs.Template

open AgentDocs.Text AgentDocs.Yaml

/-! ## Header and body -/

/-- The characters that delimit a header. -/
def delimiter : List Char := ['-', '-', '-']

/-- The characters that may follow a delimiter on its line. -/
def isLineEnd (c : Char) : Bool := c == '\n' || c == '\r'

/-- A line delimits a header. -/
def isDelimiter (line : List Char) : Bool := dropEndWhile isLineEnd line == delimiter

/-- The lines in front of the first delimiter and those after it, if there is one. -/
def cutAtDelimiter : List (List Char) → Option (List (List Char) × List (List Char))
  | [] => none
  | line :: rest =>
    if isDelimiter line then some ([], rest)
    else (cutAtDelimiter rest).map fun (before, after) => (line :: before, after)

/-- A text in its two parts. -/
structure Parts where
  header : Option (List Char)
  body : List Char
  deriving Repr, DecidableEq

/-- The header and the body of a text. Without both delimiters all is body. -/
def split (text : List Char) : Parts :=
  match lines text with
  | [] => ⟨none, text⟩
  | first :: rest =>
    if isDelimiter first then
      match cutAtDelimiter rest with
      | some (header, body) => ⟨some header.flatten, body.flatten⟩
      | none => ⟨none, text⟩
    else ⟨none, text⟩

/-! ## Description -/

/-- The field that gives the description. -/
def descriptionField : List Char := "description:".toList

/-- The description on the first line that begins with its field, without quotes around it. -/
def describedOnLine? (header : List Char) : Option (List Char) :=
  ((lineContents header).find? (descriptionField.isPrefixOf ·)).map fun line =>
    trimMatches (fun c => c == '"' || c == '\'') (trim (line.drop descriptionField.length))

/-- The description in a header, as it stands there. -/
def rawDescription? (header : List Char) : Option (List Char) :=
  match Value.ofText header with
  | .ok (.mapping pairs) =>
    ((Value.get? pairs "description").bind Value.text?).map String.toList
  | .ok _ => none
  | .error _ => describedOnLine? header

/-- The description in a header, if it is not blank. -/
def description? (header : List Char) : Option (List Char) :=
  (rawDescription? header).filter fun text => !(trim text).isEmpty

end AgentDocs.Template
