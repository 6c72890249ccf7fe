/-!
# Tags

A tag says what a node is. The standard tags ask for one meaning; a tag that begins with an
exclamation mark is local to the document and has a name. Tags are bytes, since an escape in a tag
stands for any byte, and only a tag that is well-formed text has a name.
-/

namespace AgentDocs.Yaml

/-- The bytes of a text. -/
def textBytes (text : List Char) : List UInt8 := text.flatMap String.utf8EncodeChar

/-- A tag, by its bytes. -/
structure Tag where
  bytes : List UInt8
  deriving Repr, DecidableEq

namespace Tag

/-- The byte that begins the tags that are local to a document. -/
def mark : UInt8 := 33

/-- The tag with a text. -/
def ofText (text : String) : Tag := ⟨textBytes text.toList⟩

/-- The standard tag of nulls. -/
def null : Tag := ofText "tag:yaml.org,2002:null"

/-- The standard tag of flags. -/
def flag : Tag := ofText "tag:yaml.org,2002:bool"

/-- The standard tag of integers. -/
def integer : Tag := ofText "tag:yaml.org,2002:int"

/-- The standard tag of reals. -/
def real : Tag := ofText "tag:yaml.org,2002:float"

/-- A tag is local to its document. -/
def isLocal (t : Tag) : Bool := t.bytes.head? == some mark

/-- Bytes without the mark in front of others. -/
def withoutMark : List UInt8 → List UInt8
  | [] => []
  | b :: rest => if b = mark ∧ rest ≠ [] then rest else b :: rest

/-- The name of a local tag that is text: without the mark in front, and without a second one. -/
def name? (t : Tag) : Option String :=
  if t.isLocal then String.fromUTF8? ⟨(withoutMark (withoutMark t.bytes)).toArray⟩ else none

end Tag

end AgentDocs.Yaml
