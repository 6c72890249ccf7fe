import AgentDocs.Text.Line
import AgentDocs.Files.Workspace

/-!
# Changes to a workspace

Directories are made with their missing parents, a file is replaced as a whole, and a file or link
is removed. A change that fails partway keeps what it had done before: each operation returns the
workspace after it together with its result.
-/

namespace AgentDocs.Files

namespace Workspace

/-- The workspace after an operation, with its result. -/
abbrev Edited := Workspace × Except FileError Unit

/-- The workspace with an entry put at a location. -/
def put (w : Workspace) (l : Location) (e : Entry) : Workspace :=
  { w with tree := w.tree.insert l e }

/-- The workspace without the entry at a location. -/
def drop (w : Workspace) (l : Location) : Workspace :=
  { w with tree := w.tree.erase l }

/-- The location of the directory that some steps lead to. -/
def directoryAt (w : Workspace) (steps : List Step) : Except FileError Location := do
  let l ← w.follow steps
  if w.tree.isDirectory l then .ok l else .error .notDirectory

/-- The location where the last step of a path goes from, and that step. The root has none. -/
def lastStep? (w : Workspace) (p : PathName) : Except FileError (Option (Location × Step)) :=
  match p.refusal? with
  | some e => .error e
  | none =>
    match p.movesBack with
    | [] => .ok none
    | last :: before => (w.directoryAt before.reverse).map fun l => some (l, last)

/-- Makes the directory at the end of a path. -/
def makeDirectory (w : Workspace) (p : PathName) : Edited :=
  match w.lastStep? p with
  | .error e => (w, .error e)
  | .ok (some (l, .child name)) =>
    if name.isTooLong then (w, .error .nameTooLong)
    else
      match w.tree.find? (name :: l) with
      | some _ => (w, .error .alreadyExists)
      | none => (w.put (name :: l) .directory, .ok ())
  | .ok _ => (w, .error .alreadyExists)

/-- A failure to make a directory does not matter where there is one. -/
def orDirectory (p : PathName) (edited : Edited) : Edited :=
  match edited with
  | (w, .ok ()) => (w, .ok ())
  | (w, .error e) => if w.isDirectory p then (w, .ok ()) else (w, .error e)

/-- Makes the first of some directories with all that are missing on the way to it, which are the
others from the inside out. -/
def makeDirectories (w : Workspace) : List PathName → Edited
  | [] => (w, .ok ())
  | p :: outer =>
    match w.makeDirectory p with
    | (w, .error .notFound) =>
      match w.makeDirectories outer with
      | (w, .error e) => (w, .error e)
      | (w, .ok ()) => orDirectory p (w.makeDirectory p)
    | edited => orDirectory p edited

/-- The directories on the way to a path, from the inside out. -/
def directoriesOf (p : PathName) : List PathName := p.prefixes.dropLast.reverse

/-- Puts a file in place of what stands at the end of a path, a link included. -/
def replaceFile (w : Workspace) (p : PathName) (bytes : ByteArray) : Edited :=
  match w.lastStep? p with
  | .error .invalidName => (w, .error .invalidArgument)
  | .error e => (w, .error e)
  | .ok (some (l, .child name)) =>
    if name.isTooLong then (w, .error .nameTooLong)
    else if p.isClosed then (w, .error .notDirectory)
    else
      match w.tree.find? (name :: l) with
      | some .directory => (w, .error .isDirectory)
      | _ => (w.put (name :: l) (.file bytes), .ok ())
  | .ok _ => (w, .error .busy)

/-- Writes a file as a whole, after the directories on its path are made. -/
def write (w : Workspace) (p : PathName) (bytes : ByteArray) : Edited :=
  match w.makeDirectories (directoriesOf p) with
  | (w, .error e) => (w, .error e)
  | (w, .ok ()) => w.replaceFile p bytes

/-- Removes the file or link that stands at the end of a path. -/
def removeFile (w : Workspace) (p : PathName) : Edited :=
  match w.lastStep? p with
  | .error e => (w, .error e)
  | .ok (some (l, .child name)) =>
    match w.tree.find? (name :: l) with
    | none => (w, .error (if name.isTooLong then .nameTooLong else .notFound))
    | some .directory => (w, .error .isDirectory)
    | some _ => if p.isClosed then (w, .error .notDirectory) else (w.drop (name :: l), .ok ())
  | .ok _ => (w, .error .isDirectory)

/-- The text of a file with its line breaks normalized, or nothing where there is no file. -/
def readNormalized? (w : Workspace) (p : PathName) : Except FileError (Option String) :=
  match w.readText p with
  | .ok text => .ok (some (Text.normalized text))
  | .error .notFound => .ok none
  | .error e => .error e

end Workspace

end AgentDocs.Files
