import AgentDocs.Agent.Handoff
import AgentDocs.Agent.Identity
import AgentDocs.Template.Frontmatter
import AgentDocs.Yaml.Scalar.Written

/-!
# Agent documents

The document of an agent is a header of its own and the body of the expanded template. Of the header
of the template only the description is taken over; agents of operational roles have more tools and
say which roles see them.

* `AgentDocument.compile_body`: the body is the body of the template.
-/

namespace AgentDocs

open AgentDocs.Template AgentDocs.Yaml

/-! ## What headers hold -/

/-- The tools of the agents of operational roles. -/
def operationalTools : List String :=
  ["Read", "Write", "Edit", "Grep", "Glob", "Bash", "mcp__backlog__*", "mcp__serena__*", "Skill"]

/-- The tools of the agents of namespaces. -/
def namespacedTools : List String := ["Read", "Grep", "Glob", "Bash", "mcp__backlog__*"]

/-- The commands that a role loads by itself. -/
def primaryCommands : List (String × String) :=
  [("pm", "assess"), ("pm", "define"), ("arch", "design"), ("dev", "build"), ("sec", "scan"),
    ("qa", "test"), ("ops", "deploy")]

/-- A role loads a command by itself. -/
def isPrimary (role command : String) : Bool := primaryCommands.contains (role, command)

/-- The description of an agent whose template gives none. -/
def defaultDescription (i : Identity) : String :=
  "Run the " ++ i.scope ++ " " ++ i.command ++ " command"

/-- Where agents appear. -/
def surface : String := "chat"

/-- The header of an agent. -/
structure AgentHeader where
  name : String
  description : String
  target : String
  tools : List String
  role : Option String
  visibleToRoles : List String
  autoLoad : Bool
  handoffs : List Handoff
  deriving Repr, DecidableEq

namespace AgentHeader

/-- The header of an agent with a description. -/
def make (i : Identity) (description : String) (handoffs : List Handoff) : AgentHeader :=
  let operational := isOperational i.scope
  { name := i.name
    description
    target := surface
    tools := if operational then operationalTools else namespacedTools
    role := if operational then some i.scope else none
    visibleToRoles := if operational then [i.scope, sharedScope] else []
    autoLoad := operational && isPrimary i.scope i.command
    handoffs }

/-! ## Writing -/

/-- The fields of a handoff in its list at column zero. -/
def handoffFields (h : Handoff) : List (List Char) :=
  [textField 2 "label" h.rule.label, textField 2 "agent" h.rule.agent,
    textField 2 "prompt" h.rule.prompt, flagField "send" h.rule.send] ++
    if h.priorityForRoles.isEmpty then []
    else [listField 2 "priority_for_roles" h.priorityForRoles]

/-- The fields of a header, in order. -/
def fields (h : AgentHeader) : List (List Char) :=
  [textField 0 "name" h.name, textField 0 "description" h.description,
    textField 0 "target" h.target, listField 0 "tools" h.tools] ++
    h.role.toList.map (textField 0 "role") ++
    (if h.visibleToRoles.isEmpty then []
      else [listField 0 "visible_to_roles" h.visibleToRoles]) ++
    (if h.autoLoad then [flagField "auto_load" true] else []) ++
    if h.handoffs.isEmpty then []
    else ["handoffs:\n".toList ++ h.handoffs.flatMap fun handoff =>
      itemFields 0 (handoffFields handoff)]

/-- The header without its delimiters. -/
def content (h : AgentHeader) : List Char := h.fields.flatten

/-- The line that delimits a header. -/
def delimiterLine : List Char := delimiter ++ ['\n']

/-- The header with its delimiters. -/
def render (h : AgentHeader) : List Char := delimiterLine ++ h.content ++ delimiterLine

end AgentHeader

/-! ## Documents -/

/-- The document of an agent. -/
structure AgentDocument where
  identity : Identity
  header : AgentHeader
  body : List Char
  descriptionDefaulted : Bool
  deriving Repr, DecidableEq

namespace AgentDocument

/-- The text of a document. -/
def render (d : AgentDocument) : List Char := d.header.render ++ d.body

/-- The document that an expanded template makes. -/
def compile (t : HandoffTable) (r : Registry) (i : Identity) (expanded : List Char) :
    AgentDocument :=
  let parts := split expanded
  let given := (parts.header.bind description?).map String.ofList
  { identity := i
    header := .make i (given.getD (defaultDescription i)) (t.handoffs i.scope i.command r)
    body := parts.body
    descriptionDefaulted := given.isNone }

theorem compile_body (t : HandoffTable) (r : Registry) (i : Identity) (expanded : List Char) :
    (compile t r i expanded).body = (split expanded).body := rfl

end AgentDocument

end AgentDocs
