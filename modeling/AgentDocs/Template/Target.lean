import AgentDocs.Project.Error
import AgentDocs.Text.Blank

/-!
# Targets of directives

A target is a path below the project root. What could leave the root is refused by its spelling
before any file is looked at; what stands there is then resolved, links included, and must lie below
the root, name by name.

* `locate_of_isRefused`: a refused spelling is an escape whatever the workspace holds.
-/

namespace AgentDocs.Template

open AgentDocs.Files AgentDocs.Text

/-- A text is no spelling of a place below the root: it is empty, begins with a separator, or steps
up. Both slashes count as separators. -/
def isRefused (target : List Char) : Bool :=
  target.isEmpty || target.head? == some '/' || target.head? == some '\\' ||
    (segments '/' (target.map fun c => if c = '\\' then '/' else c)).contains ['.', '.']

/-- A location lies at or below another. -/
def liesBelow (l base : Location) : Bool := base.isSuffixOf l

/-- The location of the file that a directive asks for. -/
def locate (w : Workspace) (root : PathName) (requested : List Char) : Except Error Location :=
  let target := trim requested
  if target.isEmpty then .error (.pathEscape (String.ofList requested))
  else if isRefused target then .error (.pathEscape (String.ofList target))
  else
    let path := root.join (String.ofList target)
    if !w.isFile path then .error (.includeNotFound path)
    else
      match w.resolve root, w.resolve path with
      | .error e, _ => .error (.file e)
      | _, .error e => .error (.file e)
      | .ok base, .ok l =>
        if liesBelow l base then .ok l else .error (.pathEscape (String.ofList target))

theorem locate_of_isRefused {w : Workspace} {root : PathName} {requested : List Char}
    (h : isRefused (trim requested) = true) :
    locate w root requested = .error (.pathEscape (String.ofList
      (if (trim requested).isEmpty then requested else trim requested))) := by
  unfold locate
  by_cases he : (trim requested).isEmpty = true <;> simp [he, h]

end AgentDocs.Template
