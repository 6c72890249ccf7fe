import AgentDocs.Template.Directive
import AgentDocs.Template.Fence
import AgentDocs.Template.Target
import AgentDocs.Text.Line

/-!
# Expansion

The directives on the text lines of a template are replaced by the expanded texts of their targets.
Lines inside fences stay as they are. Each included text is scanned on its own, and inclusions nest
at most as deep as the limit allows; the first failure in reading order is the failure of the whole.

* `expandAt_zero`: nothing is expanded below the limit.
-/

namespace AgentDocs.Template

open AgentDocs.Files AgentDocs.Text

/-- The text for a line, where `inclusion` gives the texts for targets. -/
def expandPieces (inclusion : List Char → Except Error (List Char)) :
    List Piece → Except Error (List Char)
  | [] => .ok []
  | .character c :: rest => (expandPieces inclusion rest).map (c :: ·)
  | .directive target :: rest =>
    match inclusion target with
    | .error e => .error e
    | .ok text => (expandPieces inclusion rest).map (text ++ ·)

/-- The text for a text line. A line without the beginning of a directive is not taken apart. -/
def expandLine (inclusion : List Char → Except Error (List Char)) (line : List Char) :
    Except Error (List Char) :=
  if hasOpener line then expandPieces inclusion (pieces line) else .ok line

/-- The text for a line met in a state of the scan. -/
def expandScanned (inclusion : List Char → Except Error (List Char)) (state : ScanState)
    (line : List Char) : Except Error (List Char) :=
  match state.kind line with
  | .verbatim => .ok line
  | .text => expandLine inclusion line

/-- The text for some lines that follow a state of the scan. -/
def expandLines (inclusion : List Char → Except Error (List Char)) :
    ScanState → List (List Char) → Except Error (List Char)
  | _, [] => .ok []
  | state, line :: rest =>
    match expandScanned inclusion state line with
    | .error e => .error e
    | .ok text => (expandLines inclusion (state.step line) rest).map (text ++ ·)

/-- The expanded text of the file that a directive asks for, where `expand` expands the text of a
file under its name. -/
def included (w : Workspace) (root : PathName)
    (expand : List Char → List Char → Except Error (List Char)) (target : List Char) :
    Except Error (List Char) :=
  let requested := trim target
  match locate w root requested with
  | .error e => .error e
  | .ok l =>
    match w.textAt l with
    | .error e => .error (.file e)
    | .ok text => expand requested text.toList

/-- The expansion of a text with the name `origin`, where `levels` levels are left of a limit. -/
def expandAt (w : Workspace) (root : PathName) (limit : Nat) :
    Nat → List Char → List Char → Except Error (List Char)
  | 0, origin, _ => .error (.depthExceeded (String.ofList origin) limit)
  | levels + 1, _, text =>
    expandLines (included w root (expandAt w root limit levels)) .outside (lines text)

theorem expandAt_zero (w : Workspace) (root : PathName) (limit : Nat) (origin text : List Char) :
    expandAt w root limit 0 origin text =
      .error (.depthExceeded (String.ofList origin) limit) := rfl

/-- The name of the text that is not included by another. -/
def documentName : List Char := "<document>".toList

/-- The expansion of a template, with inclusions at most `limit` deep. -/
def expand (w : Workspace) (root : PathName) (limit : Nat) (text : List Char) :
    Except Error (List Char) :=
  expandAt w root limit (limit + 1) documentName text

/-- A directive stands on one of the text lines that follow a state of the scan. -/
def hasDirectiveAfter : ScanState → List (List Char) → Bool
  | _, [] => false
  | state, line :: rest =>
    (decide (state.kind line = .text) && hasDirective line) ||
      hasDirectiveAfter (state.step line) rest

/-- A directive stands on a text line. -/
def hasUnresolved (text : List Char) : Bool := hasDirectiveAfter .outside (lines text)

end AgentDocs.Template
