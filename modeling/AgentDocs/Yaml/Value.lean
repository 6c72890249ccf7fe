import AgentDocs.Yaml.Lexer
import AgentDocs.Yaml.Node
import AgentDocs.Yaml.Scalar.Meaning

/-!
# Values

The value of a document without regard to any wanted shape. Reading is bounded: nodes nest at most
`depthLimit` deep, and aliases are followed a number of times that depends on the size of the
document. A mapping that repeats a key has no value.
-/

namespace AgentDocs.Yaml

/-- A value. Of tags, the names of those that are local to the document are kept. -/
inductive Value where
  | null
  | flag (value : Bool)
  | integer (value : Int)
  | real (value : Double)
  | text (value : String)
  | sequence (items : List Value)
  | mapping (pairs : List (Value × Value))
  | tagged (tag : String) (value : Value)

namespace Value

/-! ## Equality -/

/-- Equality of values with at most `depth` levels. The order of the pairs of a mapping does not
matter. -/
def sameWithin : Nat → Value → Value → Bool
  | 0, _, _ => false
  | depth + 1, a, b =>
    match a, b with
    | null, null => true
    | flag x, flag y => x == y
    | integer x, integer y => x == y
    | real x, real y => x == y
    | text x, text y => x == y
    | sequence xs, sequence ys =>
      xs.length == ys.length && (xs.zip ys).all fun (x, y) => sameWithin depth x y
    | mapping xs, mapping ys =>
      xs.length == ys.length && xs.all fun (k, v) =>
        ys.any fun (l, w) => sameWithin depth k l && sameWithin depth v w
    | tagged s x, tagged t y => s == t && sameWithin depth x y
    | _, _ => false

/-- The text of a value that is a text below its tags. -/
def text? : Value → Option String
  | text s => some s
  | tagged _ v => v.text?
  | _ => none

/-- The value at a key that is a text, in a list of pairs. -/
def get? (pairs : List (Value × Value)) (key : String) : Option Value :=
  (pairs.find? fun (k, _) => match k with | text s => s == key | _ => false).map (·.2)

end Value

/-! ## Reading -/

/-- The greatest depth to which nodes may nest. -/
def depthLimit : Nat := 128

/-- A reading of a document: what is left of the number of aliases that may be followed. -/
abbrev Reading := StateT Nat (Except Fault)

/-- The node that a node stands for: itself, or the one that it is an alias for. -/
def Document.follow (d : Document) : Node → Reading Node
  | .alias number => do
    match ← get with
    | 0 => throw .tooManyAliases
    | left + 1 =>
      set left
      match d.node? number with
      | some n => return n
      | none => throw .missingContent
  | n => return n

/-- The number of times that aliases of a document may be followed. -/
def Document.aliasLimit (d : Document) : Nat := d.events * 100

/-- The value of a scalar by the meaning of its text. -/
def Value.ofMeaning (text : String) : Except Fault Value :=
  match Meaning.ofPlain text.toList with
  | .null => .ok .null
  | .flag b => .ok (.flag b)
  | .integer n => .ok (.integer n)
  | .wideInteger _ => .error (.unexpectedValue "any value")
  | .real r => .ok (.real r)
  | .text => .ok (.text text)

/-- The value of a text with one of the standard tags, which ask for one meaning. -/
def Value.ofStandard? (tag : Tag) (text : String) : Option (Except Fault Value) :=
  if tag = .flag then
    some <| match flag? text.toList with
      | some b => .ok (.flag b)
      | none => .error (.unexpectedValue "a boolean")
  else if tag = .integer then
    some <| match (integer? text.toList).bind Meaning.ofInteger? with
      | some (.integer n) => .ok (.integer n)
      | _ => .error (.unexpectedValue "an integer")
  else if tag = .real then
    some <| match real? text.toList with
      | some r => .ok (.real r)
      | none => .error (.unexpectedValue "a float")
  else if tag = .null then
    some <| if isNull text.toList && !text.isEmpty then .ok .null
      else .error (.unexpectedValue "null")
  else none

/-- The value of a scalar whose tag has no name. Of other tags than the standard ones, those that
are local leave a plain scalar its meaning. -/
def Value.ofScalar (tag : Option Tag) (style : Style) (text : String) : Except Fault Value :=
  match tag with
  | none => if style = .plain then ofMeaning text else .ok (.text text)
  | some t =>
    match ofStandard? t text with
    | some v => v
    | none => if t.isLocal && style == .plain then ofMeaning text else .ok (.text text)

/-- A value under the name of its tag, if it has one. -/
def Value.under (tag : Option Tag) (v : Value) : Value :=
  match tag.bind Tag.name? with
  | some name => .tagged name v
  | none => v

/-- The value of a mapping from its pairs in order. A repeated key is a fault. -/
def Value.ofPairs : List (Value × Value) → List (Value × Value) → Except Fault Value
  | taken, [] => .ok (.mapping taken.reverse)
  | taken, (k, v) :: rest =>
    if taken.any fun (l, _) => sameWithin (2 * depthLimit + 2) k l then .error .repeatedKey
    else ofPairs ((k, v) :: taken) rest

/-- The value of a node with at most `depth` levels of collections. -/
def Document.valueWithin (d : Document) : Nat → Node → Reading Value
  | depth, n => do
    match ← d.follow n with
    | .scalar tag style text =>
      match tag.bind Tag.name? with
      | some _ =>
        let v ← (if style = .plain then Value.ofMeaning text else .ok (.text text) :
          Except Fault Value)
        return .under tag v
      | none => (Value.ofScalar tag style text : Except Fault Value)
    | .sequence tag items =>
      match depth with
      | 0 => throw .tooDeep
      | depth + 1 =>
        let items ← items.mapM (d.valueWithin depth)
        return .under tag (.sequence items)
    | .mapping tag pairs =>
      match depth with
      | 0 => throw .tooDeep
      | depth + 1 =>
        let pairs ← pairs.mapM fun (k, v) => do
          return (← d.valueWithin depth k, ← d.valueWithin depth v)
        let v ← (Value.ofPairs [] pairs : Except Fault Value)
        return .under tag v
    | .alias _ => throw .missingContent

/-- The document of a stream. -/
def Document.ofText (text : List Char) : Except Fault Document := do
  Document.ofTokens (← tokens text)

/-- The value of a stream. -/
def Value.ofText (text : List Char) : Except Fault Value := do
  let d ← Document.ofText text
  (d.valueWithin depthLimit d.root).run' d.aliasLimit

end AgentDocs.Yaml
