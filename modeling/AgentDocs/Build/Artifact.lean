import AgentDocs.Agent.Document
import AgentDocs.Build.Report
import AgentDocs.Files.Edit

/-!
# Artifacts

The file of an agent holds its document with normalized line breaks. A run reads it first: it is
written only where it differs, and a comparison tells a missing file from a modified one.

* `settle_preview`: a preview leaves the workspace as it is.
-/

namespace AgentDocs

open AgentDocs.Files AgentDocs.Text

/-- What the file of an agent holds. -/
def AgentDocument.artifact (d : AgentDocument) : String :=
  String.ofList (normalizeBreaks d.render)

/-- What a comparison says of the text at the place of an artifact. -/
def compare (existing : Option String) (artifact : String) : Action :=
  match existing with
  | none => .drifted .missing
  | some text => if text = artifact then .upToDate else .drifted .modified

/-- Does to the file of an agent what a mode asks for. -/
def settle (w : Workspace) (mode : Mode) (path : PathName) (artifact : String) :
    Workspace × Except FileError Action :=
  match mode with
  | .preview => (w, .ok .wouldWrite)
  | .validate => (w, (w.readNormalized? path).map (compare · artifact))
  | .sync =>
    match w.readNormalized? path with
    | .error e => (w, .error e)
    | .ok existing =>
      if existing = some artifact then (w, .ok .unchanged)
      else
        match w.write path artifact.toUTF8 with
        | (w, .error e) => (w, .error e)
        | (w, .ok ()) => (w, .ok .written)

theorem settle_preview (w : Workspace) (path : PathName) (artifact : String) :
    settle w .preview path artifact = (w, .ok .wouldWrite) := rfl

end AgentDocs
