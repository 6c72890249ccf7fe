import AgentDocs.Agent.Identity
import AgentDocs.Project.Settings
import AgentDocs.Role.Registry

/-!
# Discovery

The templates of a project stand directly in the directories of the operational roles and of the
namespaces. Discovery reads them all; one that cannot be read fails alone, and partial files are
passed over. A template is known by the texts that are shown for the names of its directory and of
its file; templates that these texts do not tell apart stay in the order in which they were listed.

* `Discovery.length_ofFound`: all that is found stands in one of the three lists.
-/

namespace AgentDocs

open AgentDocs.Files

/-- What kind of scope a directory is. -/
inductive ScopeKind where
  | role
  | namespaced
  deriving Repr, DecidableEq

/-- A template with its text. -/
structure Template where
  identity : Identity
  kind : ScopeKind
  path : PathName
  text : String
  deriving Repr, DecidableEq

/-- A template that cannot be read. -/
structure Unreadable where
  identity : Identity
  kind : ScopeKind
  path : PathName
  cause : FileError
  deriving Repr, DecidableEq

/-- Why a template cannot be read. -/
def Unreadable.error (u : Unreadable) : Error := .templateUnreadable u.path u.cause

/-- A choice of roles selects what stands under a scope: the commands of the role itself, and those
of namespaces that the role owns. -/
def RoleFilter.selects (f : RoleFilter) (r : Registry) (kind : ScopeKind) (i : Identity) : Bool :=
  match f, kind with
  | .all, _ => true
  | .role name, ScopeKind.role => i.scope = name
  | .role name, ScopeKind.namespaced => r.commandRole? i.command = some name

/-- Template files have this extension. -/
def templateExtension : String := "md"

/-- What a directory entry turns out to be. -/
inductive Found where
  | template (t : Template)
  | unreadable (u : Unreadable)
  | partialFile (path : PathName)
  deriving Repr, DecidableEq

namespace Found

/-- The template of an entry, if it is one. -/
def template? : Found → Option Template
  | template t => some t
  | _ => none

/-- The unreadable template of an entry, if it is one. -/
def unreadable? : Found → Option Unreadable
  | unreadable u => some u
  | _ => none

/-- The path of an entry, if it is a partial file. -/
def partial? : Found → Option PathName
  | partialFile path => some path
  | _ => none

end Found

/-- All that was discovered, sorted. -/
structure Discovery where
  templates : List Template
  unreadable : List Unreadable
  partials : List PathName
  deriving Repr, DecidableEq

namespace Discovery

/-! ## Order -/

/-- Identities are ordered by scope, then by command. -/
def identityLE (a b : Identity) : Bool :=
  decide (a.scope < b.scope) || a.scope == b.scope && decide (a.command ≤ b.command)

/-- What was found, sorted. -/
def ofFound (found : List Found) : Discovery where
  templates :=
    (found.filterMap Found.template?).mergeSort fun a b => identityLE a.identity b.identity
  unreadable :=
    (found.filterMap Found.unreadable?).mergeSort fun a b => identityLE a.identity b.identity
  partials := (found.filterMap Found.partial?).mergeSort PathName.le

/-- Every file found is a template, an unreadable one or a partial. -/
theorem length_ofFound (found : List Found) :
    (ofFound found).templates.length + (ofFound found).unreadable.length +
      (ofFound found).partials.length = found.length := by
  simp only [ofFound, List.length_mergeSort]
  induction found with
  | nil => rfl
  | cons f rest ih =>
    cases f <;>
      simp only [List.filterMap_cons, Found.template?, Found.unreadable?, Found.partial?,
        List.length_cons] <;> omega

/-! ## Search -/

/-- A file name belongs to a partial file: it begins with the mark, if there is one. -/
def isPartial (s : Settings) (command : String) : Bool :=
  !s.partialMark.isEmpty && s.partialMark.toList.isPrefixOf command.toList

/-- What the entry `name` of the directory of a scope is, if it is of interest. -/
def examine (w : Workspace) (s : Settings) (directory : PathName) (scope : String)
    (kind : ScopeKind) (name : FileName) : Option Found :=
  let path := directory.join name.raw
  let (stem, extension) := splitExtension name.raw
  let command := stem.text
  if extension ≠ some (RawText.ofString templateExtension) || !w.isFile path then none
  else if isPartial s command then some (.partialFile path)
  else
    match w.readText path with
    | .ok text => some (.template ⟨⟨scope, command⟩, kind, path, text⟩)
    | .error cause => some (.unreadable ⟨⟨scope, command⟩, kind, path, cause⟩)

/-- The kind of scope that a directory name stands for, if any. -/
def scopeKind? (s : Settings) (scope : String) : Option ScopeKind :=
  if isOperational scope then some .role
  else if s.isNamespace scope then some .namespaced
  else none

/-- What is found in the directory of the scope `name`, if it is one. -/
def searchScope (w : Workspace) (s : Settings) (commandsRoot : PathName) (name : FileName) :
    Except FileError (List Found) :=
  let directory := commandsRoot.join name.raw
  match w.isDirectory directory, scopeKind? s name.text with
  | true, some kind =>
    (w.list directory).map fun names => names.filterMap (examine w s directory name.text kind)
  | _, _ => .ok []

/-- The templates of the project at a root. -/
def search (w : Workspace) (root : PathName) (s : Settings) : Except Error Discovery :=
  let commandsRoot := s.commandsRoot root
  if !w.isDirectory commandsRoot then .ok (ofFound [])
  else ofFile do
    let names ← w.list commandsRoot
    let found ← names.mapM (searchScope w s commandsRoot)
    return ofFound found.flatten

/-! ## Views and checks -/

/-- The identities of all templates, readable or not. -/
def identities (d : Discovery) : List Identity :=
  d.templates.map (·.identity) ++ d.unreadable.map (·.identity)

/-- The names of all templates, readable or not, in increasing order and each one once. -/
def names (d : Discovery) : List String :=
  (d.identities.map Identity.name).eraseDups.mergeSort fun a b => decide (a ≤ b)

/-- What is found about the names of commands, in the order of the messages. -/
def check (d : Discovery) : List Finding :=
  ((d.identities.filter fun i => !isCommandName i.command).map fun i =>
    Finding.badCommandName i.scope i.command).mergeSort fun a b => decide (a.message ≤ b.message)

end Discovery

end AgentDocs
