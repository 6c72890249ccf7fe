import AgentDocs.Files.PathName
import AgentDocs.Files.FileTree

/-!
# Workspaces

A workspace is a file tree and the location where relative paths begin, with the directories in it
that may not be listed. Paths are resolved step by step and symbolic links are followed on the way,
at most `linkLimit` of them; every query below follows links and answers about what the path leads
to.

* `Workspace.resolve_isSome_of_entry?`: a path that leads to an entry resolves.
-/

namespace AgentDocs.Files

/-- Why an operation on files fails. -/
inductive FileError where
  | notFound
  | alreadyExists
  | notDirectory
  | isDirectory
  | busy
  | tooManyLinks
  | nameTooLong
  | invalidName
  | invalidArgument
  | invalidEncoding
  | permissionDenied
  deriving Repr, DecidableEq

/-- The text of a file error. -/
def FileError.message : FileError → String
  | notFound => "No such file or directory (os error 2)"
  | alreadyExists => "File exists (os error 17)"
  | notDirectory => "Not a directory (os error 20)"
  | isDirectory => "Is a directory (os error 21)"
  | busy => "Device or resource busy (os error 16)"
  | tooManyLinks => "Too many levels of symbolic links (os error 40)"
  | nameTooLong => "File name too long (os error 36)"
  | invalidName => "file name contained an unexpected NUL byte"
  | invalidArgument => "Invalid argument (os error 22)"
  | invalidEncoding => "stream did not contain valid UTF-8"
  | permissionDenied => "Permission denied (os error 13)"

/-- Why a path leads nowhere by its spelling alone: it holds a zero byte, it is empty, or it takes
too many bytes. -/
def PathName.refusal? (p : PathName) : Option FileError :=
  if p.raw.bytes.contains 0 then some .invalidName
  else if p.raw.bytes.isEmpty then some .notFound
  else if 4096 ≤ p.raw.bytes.length then some .nameTooLong
  else none

namespace FileTree

/-- The location reached from `here` by some steps, where `follow` goes on after a link. -/
def walkWith (t : FileTree) (follow : Location → List Step → Except FileError Location)
    (here : Location) : List Step → Except FileError Location
  | [] => .ok here
  | .root :: rest => t.walkWith follow [] rest
  | step :: rest =>
    if !t.isDirectory here then .error .notDirectory
    else match step with
      | .up => t.walkWith follow here.tail rest
      | .child name =>
        match t.find? (name :: here) with
        | none => .error (if name.isTooLong then .nameTooLong else .notFound)
        | some (.link target) => follow here ((PathName.mk target).moves ++ rest)
        | some _ => t.walkWith follow (name :: here) rest
      | _ => t.walkWith follow here rest

/-- The location reached from `here` by some steps, with at most `links` links followed. -/
def walk (t : FileTree) : Nat → Location → List Step → Except FileError Location
  | 0 => t.walkWith fun _ _ => .error .tooManyLinks
  | links + 1 => t.walkWith (t.walk links)

end FileTree

/-- The number of symbolic links that one resolution follows at most. -/
def linkLimit : Nat := 40

/-- A file tree with the location where relative paths begin. The entries of the directories at the
locations `sealed` may be reached, but those directories may not be listed. -/
structure Workspace where
  tree : FileTree
  start : Location
  sealed : List Location

namespace Workspace

/-- The location that some steps lead to. -/
def follow (w : Workspace) (steps : List Step) : Except FileError Location :=
  w.tree.walk linkLimit w.start steps

/-- The location that a path leads to. -/
def resolve (w : Workspace) (p : PathName) : Except FileError Location :=
  match p.refusal? with
  | some e => .error e
  | none => w.follow p.moves

/-- What a path leads to, if it leads to anything. -/
def entry? (w : Workspace) (p : PathName) : Option Entry :=
  match w.resolve p with
  | .ok l => w.tree.find? l
  | .error _ => none

/-- A path leads to something. -/
def leads (w : Workspace) (p : PathName) : Bool := (w.entry? p).isSome

/-- A path leads to a directory. -/
def isDirectory (w : Workspace) (p : PathName) : Bool := w.entry? p == some .directory

/-- A path leads to a file. -/
def isFile (w : Workspace) (p : PathName) : Bool :=
  match w.entry? p with
  | some (.file _) => true
  | _ => false

/-- The bytes of the file at a location. -/
def bytesAt (w : Workspace) (l : Location) : Except FileError ByteArray :=
  match w.tree.find? l with
  | some (.file bytes) => .ok bytes
  | some _ => .error .isDirectory
  | none => .error .notFound

/-- The text of the file at a location. -/
def textAt (w : Workspace) (l : Location) : Except FileError String := do
  let bytes ← w.bytesAt l
  match String.fromUTF8? bytes with
  | some text => .ok text
  | none => .error .invalidEncoding

/-- The text of the file that a path leads to. -/
def readText (w : Workspace) (p : PathName) : Except FileError String := do
  w.textAt (← w.resolve p)

/-- The location of the directory that a path leads to, if it may be listed. -/
def openDirectory (w : Workspace) (p : PathName) : Except FileError Location := do
  let l ← w.resolve p
  if !w.tree.isDirectory l then .error .notDirectory
  else if w.sealed.contains l then .error .permissionDenied
  else .ok l

/-- The names of the entries of the directory that a path leads to, in listing order. -/
def list (w : Workspace) (p : PathName) : Except FileError (List FileName) :=
  (w.openDirectory p).map w.tree.children

/-- An entry at `p` is the one at the location that `p` resolves to. -/
theorem resolve_isSome_of_entry? {w : Workspace} {p : PathName} {e : Entry}
    (h : w.entry? p = some e) :
    ∃ l, w.resolve p = .ok l ∧ w.tree.find? l = some e := by
  unfold entry? at h
  split at h
  · next l hl => exact ⟨l, hl, h⟩
  · cases h

end Workspace

end AgentDocs.Files
