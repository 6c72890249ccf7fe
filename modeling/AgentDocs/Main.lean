import AgentDocs.CommandLine.Run
import AgentDocs.Files.Difference

/-!
# The program

Reads the directories that a command line is about into a workspace, runs the command line there and
makes the changes by which the workspace then differs. All decisions are made by
`CommandLine.run`; what stands here only reads and writes.
-/

namespace AgentDocs.Program

open AgentDocs.Files AgentDocs.CommandLine

/-! ## Reading -/

/-- The location of an absolute path without links. -/
def locationOf (path : String) : Location :=
  ((PathName.mk path).steps.filterMap Step.name?).reverse

/-- The workspace with a directory at a location, unless something stands there. -/
def addDirectory (w : Workspace) (l : Location) : Workspace :=
  if (w.tree.find? l).isSome then w else w.put l .directory

/-- The workspace with directories at a location and at all above it. -/
def addDirectories (w : Workspace) (l : Location) : Workspace :=
  (ancestors l).foldr (fun l w => addDirectory w l) w

/-- The location that a path really leads to, if it leads anywhere. -/
def realLocation? (path : PathName) : IO (Option Location) := do
  try
    return some (locationOf (← IO.FS.realPath path.text).toString)
  catch _ => return none

/-- What stands at a location, if anything does. Links are not followed. -/
def kindAt? : Location → IO (Option IO.FS.FileType)
  | [] => return some .dir
  | name :: parent => do
    try
      return some (← (IO.FS.DirEntry.mk (pathOf parent).text name.text).path.symlinkMetadata).type
    catch _ => return none

/-- The names of the entries of the directory at a location, if it may be listed. -/
def namesAt? (l : Location) : IO (Option (List FileName)) := do
  try
    let entries ← (← IO.FS.realPath (pathOf l).text).readDir
    return some (entries.toList.filterMap fun entry => FileName.ofRaw? entry.fileName)
  catch _ => return none

/-- The target of a link that leads nowhere: no file can have this name. -/
def noTarget : String := "\x00"

/-- Reads what stands at a location, and on request all that is below it. A link is kept with the
location that it leads to, which is read too unless it is in the tree. Devices are left out. -/
partial def readAt (below : Bool) (w : Workspace) (l : Location) : IO Workspace := do
  match ← kindAt? l with
  | some .file => return w.put l (.file (← IO.FS.readBinFile (pathOf l).text))
  | some .dir =>
    let w := addDirectory w l
    if !below then return w
    match ← namesAt? l with
    | none => return { w with sealed := l :: w.sealed }
    | some names => names.foldlM (fun w name => readAt below w (name :: l)) w
  | some .symlink =>
    match ← realLocation? (pathOf l) with
    | none => return w.put l (.link noTarget)
    | some target =>
      let w := w.put l (.link (pathOf target).raw)
      if (w.tree.find? target).isSome then return w
      else readAt below (addDirectories w target.tail) target
  | _ => return w

/-- Reads what one more step after a path leads to, and gives the path with the step. -/
def readStep : Workspace × PathName → Step → IO (Workspace × PathName)
  | (w, _), .root => return (w, ⟨"/"⟩)
  | (w, before), .here => return (w, before.join ".")
  | (w, before), .up => return (w, before.join "..")
  | (w, before), .child name => do
    match ← realLocation? before with
    | none => return (w, before.join name.raw)
    | some l => return (← readAt false (addDirectories w l) (name :: l), before.join name.raw)

/-- Reads the entries along a path and all below its end. -/
def readPath (w : Workspace) (path : PathName) : IO Workspace := do
  let (w, _) ← path.steps.foldlM readStep (w, ⟨"."⟩)
  match ← realLocation? path with
  | none => return w
  | some l => readAt true (addDirectories w l.tail) l

/-- Reads the entry of a directory with a certain name. -/
def readMark (below : Bool) (w : Workspace) (l : Location) (name : String) : IO Workspace :=
  match FileName.ofRaw? name with
  | some name => readAt below w (name :: l)
  | none => return w

/-- Reads all that a command line is about: the marks of a root from the start upwards, the root,
and the places that its settings name. -/
def readWorkspace (request : Except UsageError Request) : IO Workspace := do
  let start := (← realLocation? ⟨"."⟩).getD []
  let mut w := addDirectories ⟨FileTree.empty, start, []⟩ start
  if let .ok (.run arguments) := request then
    for l in ancestors start do
      w ← readMark true w l Settings.settingsFile
      w ← readMark false w l ".git"
    let root := rootFor w arguments
    w ← readPath w root
    if let .ok settings := Settings.load w root then
      w ← readPath w (settings.commandsRoot root)
      w ← readPath w (settings.outputRoot root)
      w ← readPath w (settings.rolePath root)
  return w

/-! ## Writing -/

/-- Makes a change. A file is written beside its place first and then moved there as a whole. -/
def makeChange (change : Change) : IO Unit := do
  match change with
  | .removed l => IO.FS.removeFile (pathOf l).text
  | .placed _ (.link _) => return
  | .placed l .directory => IO.FS.createDirAll (pathOf l).text
  | .placed l (.file bytes) =>
    let draft := (pathOf l).text ++ ".draft"
    IO.FS.createDirAll (pathOf l.tail).text
    IO.FS.writeBinFile draft bytes
    IO.FS.rename draft (pathOf l).text

end AgentDocs.Program

/-- Runs the program on its arguments and on the value of `AGENTGEN_ROOT`. -/
def main (args : List String) : IO UInt32 := do
  let environment ← IO.getEnv "AGENTGEN_ROOT"
  let environment := environment.map AgentDocs.Files.RawText.ofString
  let words := args.map AgentDocs.Files.RawText.ofString
  let request := AgentDocs.CommandLine.Request.ofWords environment words
  let before ← AgentDocs.Program.readWorkspace request
  let (after, response) := AgentDocs.CommandLine.run before environment words
  for change in before.tree.difference after.tree do
    AgentDocs.Program.makeChange change
  for notice in response.notices do
    IO.eprint notice.text
  IO.print response.output
  return UInt32.ofNat response.exitCode
