import AgentDocs.Yaml.Token

/-!
# Nodes and documents

A document is a tree of nodes in which an alias stands for the node that its anchor names. Anchors
are numbered by the distinct names met before them, so one that is named again after a repeated
name takes over the number of an earlier one.
-/

namespace AgentDocs.Yaml

/-- A node of a document. -/
inductive Node where
  | scalar (tag : Option Tag) (style : Style) (text : String)
  | sequence (tag : Option Tag) (items : List Node)
  | mapping (tag : Option Tag) (pairs : List (Node × Node))
  | alias (number : Nat)

namespace Node

/-- The node that stands where nothing is written. -/
def nothing : Node := scalar none .plain ""

end Node

/-- A document: its root, the nodes that aliases stand for, and the number of its events. -/
structure Document where
  root : Node
  anchored : List (Nat × Node)
  events : Nat

/-- The document of a stream that holds none. -/
def Document.void : Document := ⟨Node.nothing, [], 1⟩

/-- The node that an alias with a number stands for. -/
def Document.node? (d : Document) (number : Nat) : Option Node := d.anchored.lookup number

/-! ## Composing -/

/-- What is known while a document is composed: the tokens left, the tag handles, the number of each
anchor name, which anchored node has each number, the anchored nodes, and two counts. -/
structure Composer where
  tokens : List Token
  handles : List (String × List UInt8)
  numbers : List (String × Nat)
  holders : List (Nat × Nat)
  nodes : List (Nat × Node)
  begun : Nat
  events : Nat

/-- A step of composing. -/
abbrev Compose := StateT Composer (Except Fault)

namespace Compose

/-- The next token, if there is one. -/
def peek : Compose (Option Token) := do return (← get).tokens.head?

/-- The next token satisfies `p`. -/
def next (p : Token → Bool) : Compose Bool := do return (← peek).any p

/-- Takes the next token. -/
def skip : Compose Unit := modify fun s => { s with tokens := s.tokens.drop 1 }

/-- Takes the next token if it is `t`. -/
def take? (t : Token) : Compose Bool := do
  if (← peek) = some t then skip; return true
  else return false

/-- Counts `n` events. -/
def count (n : Nat) : Compose Unit := modify fun s => { s with events := s.events + n }

/-- The tag that a handle and a suffix make. -/
def resolveTag (handle : String) (suffix : List UInt8) : Compose Tag := do
  if handle.isEmpty then return ⟨suffix⟩
  match (← get).handles.lookup handle with
  | some start => return ⟨start ++ suffix⟩
  | none => throw (.unknownHandle handle)

/-- An anchor and a tag in either order. -/
def properties : Compose (Option String × Option Tag) := do
  match ← peek with
  | some (.anchor name) =>
    skip
    match ← peek with
    | some (.tag handle suffix) => skip; return (some name, some (← resolveTag handle suffix))
    | _ => return (some name, none)
  | some (.tag handle suffix) =>
    skip
    match ← peek with
    | some (.anchor name) => skip; return (some name, some (← resolveTag handle suffix))
    | _ => return (none, some (← resolveTag handle suffix))
  | _ => return (none, none)

/-- Notes that a node with an anchor begins and returns its place among the anchored nodes. -/
def beginAnchored (name : String) : Compose Nat := do
  let s ← get
  let number := s.numbers.length
  set { s with
    numbers := (name, number) :: s.numbers.filter (·.1 != name)
    holders := (number, s.begun) :: s.holders
    begun := s.begun + 1 }
  return s.begun

/-- Notes that an anchored node is complete. -/
def endAnchored (place : Option Nat) (n : Node) : Compose Node := do
  match place with
  | some i => modify fun s => { s with nodes := (i, n) :: s.nodes }
  | none => pure ()
  return n

/-- A node with nothing written. -/
def nothing : Compose Node := do
  count 1
  return Node.nothing

/-- A node, or nothing where the next token satisfies `ends` or is missing. -/
def nodeUnless (ends : Token → Bool) (node : Compose Node) : Compose Node := do
  match ← peek with
  | some t => if ends t then nothing else node
  | none => nothing

/-! ### Collections

Each takes the composing of a node, given whether block collections may begin there and whether a
sequence may stand at the column of its mapping. -/

/-- The entries of a block sequence up to its end. -/
def blockItems (node : Bool → Bool → Compose Node) : Nat → Compose (List Node)
  | 0 => throw .tooDeep
  | fuel + 1 => do
    if ← take? .blockEntry then
      let item ← nodeUnless (fun t => t == .blockEntry || t == .blockEnd) (node true false)
      return item :: (← blockItems node fuel)
    else if ← take? .blockEnd then return []
    else throw .missingEntry

/-- The entries of a block sequence that stands at the column of its mapping. -/
def indentlessItems (node : Bool → Bool → Compose Node) : Nat → Compose (List Node)
  | 0 => throw .tooDeep
  | fuel + 1 => do
    if ← take? .blockEntry then
      let item ← nodeUnless
        (fun t => t == .blockEntry || t == .key || t == .value || t == .blockEnd) (node true false)
      return item :: (← indentlessItems node fuel)
    else return []

/-- The pairs of a block mapping up to its end. -/
def blockPairs (node : Bool → Bool → Compose Node) : Nat → Compose (List (Node × Node))
  | 0 => throw .tooDeep
  | fuel + 1 => do
    let ends := fun t : Token => t == .key || t == .value || t == .blockEnd
    if ← take? .key then
      let key ← nodeUnless ends (node true true)
      let value ←
        if ← take? .value then nodeUnless ends (node true true) else nothing
      return (key, value) :: (← blockPairs node fuel)
    else if ← take? .blockEnd then return []
    else throw .missingKey

/-- A mapping of one pair that stands in a flow sequence, after its key indicator. -/
def singlePair (node : Bool → Bool → Compose Node) : Compose Node := do
  let ends := fun t : Token => t == .flowEntry || t == .flowSequenceEnd
  count 2
  let key ←
    if ← next fun t => t == .value || ends t then do
      skip
      nothing
    else node false false
  let value ← if ← take? .value then nodeUnless ends (node false false) else nothing
  return .mapping none [(key, value)]

/-- The items of a flow sequence up to its end. -/
def flowItems (node : Bool → Bool → Compose Node) : Nat → Bool → Compose (List Node)
  | 0, _ => throw .tooDeep
  | fuel + 1, first => do
    if ← take? .flowSequenceEnd then return []
    if !first then
      if !(← take? .flowEntry) then throw .missingSeparator
    if ← take? .key then
      let item ← singlePair node
      return item :: (← flowItems node fuel false)
    if ← take? .flowSequenceEnd then return []
    let item ← node false false
    return item :: (← flowItems node fuel false)

/-- The pairs of a flow mapping up to its end. -/
def flowPairs (node : Bool → Bool → Compose Node) : Nat → Bool → Compose (List (Node × Node))
  | 0, _ => throw .tooDeep
  | fuel + 1, first => do
    let ends := fun t : Token => t == .flowEntry || t == .flowMappingEnd
    if ← take? .flowMappingEnd then return []
    if !first then
      if !(← take? .flowEntry) then throw .missingSeparator
    if ← take? .key then
      let key ← nodeUnless (fun t => t == .value || ends t) (node false false)
      let value ← if ← take? .value then nodeUnless ends (node false false) else nothing
      return (key, value) :: (← flowPairs node fuel false)
    if ← take? .flowMappingEnd then return []
    let key ← node false false
    let value ← nothing
    return (key, value) :: (← flowPairs node fuel false)

/-- The content of a node after its properties. A tag of nothing but the mark is a tag like any
other: it is kept, and a scalar that has it is no plain text. -/
def content (node : Bool → Bool → Compose Node) (fuel : Nat) (block indentless propertied : Bool)
    (tag : Option Tag) : Compose Node := do
  match ← peek with
  | some (.scalar style text) =>
    skip
    count 1
    return .scalar tag style text
  | some .flowSequenceStart =>
    skip
    count 2
    return .sequence tag (← flowItems node fuel true)
  | some .flowMappingStart =>
    skip
    count 2
    return .mapping tag (← flowPairs node fuel true)
  | some .blockEntry =>
    if indentless then
      count 2
      return .sequence tag (← indentlessItems node fuel)
    else if propertied then count 1; return .scalar tag .plain ""
    else throw .missingContent
  | some .blockSequenceStart =>
    if block then
      skip
      count 2
      return .sequence tag (← blockItems node fuel)
    else if propertied then count 1; return .scalar tag .plain ""
    else throw .missingContent
  | some .blockMappingStart =>
    if block then
      skip
      count 2
      return .mapping tag (← blockPairs node fuel)
    else if propertied then count 1; return .scalar tag .plain ""
    else throw .missingContent
  | _ =>
    if propertied then count 1; return .scalar tag .plain ""
    else throw .missingContent

/-- A node. Aliases take the number that their name has at this point. -/
def node : Nat → Bool → Bool → Compose Node
  | 0, _, _ => throw .tooDeep
  | fuel + 1, block, indentless => do
    match ← peek with
    | some (.alias name) =>
      skip
      count 1
      match (← get).numbers.lookup name with
      | some number => return .alias number
      | none => throw (.unknownAnchor name)
    | _ =>
      let (name?, tag) ← properties
      let place ← name?.mapM beginAnchored
      let n ← content (node fuel) fuel block indentless (name?.isSome || tag.isSome) tag
      endAnchored place n

/-! ### Documents -/

/-- The handles that every document knows. -/
def standardHandles : List (String × List UInt8) :=
  [("!", [Tag.mark]), ("!!", textBytes "tag:yaml.org,2002:".toList)]

/-- Takes the directives in front of a document; `versioned` tells whether its version was given. -/
def directives : Nat → Bool → Compose Unit
  | 0, _ => throw .tooDeep
  | fuel + 1, versioned => do
    match ← peek with
    | some (.version major minor) =>
      skip
      if versioned then throw .badDirective
      if major ≠ 1 || minor ≠ 1 && minor ≠ 2 then throw .unsupportedVersion
      directives fuel true
    | some (.handle name start) =>
      skip
      let s ← get
      if (s.handles.lookup name).isSome then throw .badDirective
      set { s with handles := (name, start) :: s.handles }
      directives fuel versioned
    | _ => pure ()

/-- The only document of a stream. -/
def document (fuel : Nat) : Compose Document := do
  if (← peek).isNone then return Document.void
  let explicit ← next fun t =>
    match t with
    | .version .. => true
    | .handle .. => true
    | .documentStart => true
    | _ => false
  if explicit then
    directives fuel false
    if !(← take? .documentStart) then throw .missingDocumentStart
  modify fun s => { s with handles := s.handles ++ standardHandles }
  let ends := fun t : Token =>
    match t with
    | .version .. => true
    | .handle .. => true
    | .documentStart => true
    | .documentEnd => true
    | _ => false
  let root ← if explicit then nodeUnless ends (node fuel true false) else node fuel true false
  let s ← get
  if s.tokens.any (· != .documentEnd) then throw .severalDocuments
  let anchored := s.holders.filterMap fun (number, place) =>
    (s.nodes.lookup place).map fun n => (number, n)
  return ⟨root, anchored, s.events⟩

end Compose

/-- The document that some tokens make. -/
def Document.ofTokens (tokens : List Token) : Except Fault Document :=
  (Compose.document (2 * tokens.length + 2)).run' ⟨tokens, [], [], [], [], 0, 0⟩

end AgentDocs.Yaml
