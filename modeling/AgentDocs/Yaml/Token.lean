import AgentDocs.Yaml.Tag

/-!
# Tokens of a stream

The tokens that a stream is cut into, and the faults that cutting and composing can meet. Block
structure is in the tokens: `blockSequenceStart`, `blockMappingStart` and `blockEnd` stand for
changes of indentation.
-/

namespace AgentDocs.Yaml

/-- How a scalar is written. -/
inductive Style where
  | plain
  | quoted
  | literal
  | folded
  deriving Repr, DecidableEq

/-- A token of a stream. -/
inductive Token where
  | version (major minor : Nat)
  | handle (name : String) (replacement : List UInt8)
  | documentStart
  | documentEnd
  | blockSequenceStart
  | blockMappingStart
  | blockEnd
  | flowSequenceStart
  | flowSequenceEnd
  | flowMappingStart
  | flowMappingEnd
  | blockEntry
  | flowEntry
  | key
  | value
  | alias (name : String)
  | anchor (name : String)
  | tag (handle : String) (suffix : List UInt8)
  | scalar (style : Style) (text : String)
  deriving Repr, DecidableEq

/-- Why a stream cannot be read. -/
inductive Fault where
  | controlCharacter
  | unexpectedCharacter
  | unexpectedMarker
  | unexpectedColon
  | tabInIndentation
  | missingColon
  | misplacedEntry
  | misplacedKey
  | misplacedValue
  | badDirective
  | badAnchor
  | badTag
  | badEscape
  | badBlockHeader
  | unclosedQuote
  | unknownAnchor (name : String)
  | unknownHandle (name : String)
  | unsupportedVersion
  | missingContent
  | missingEntry
  | missingKey
  | missingSeparator
  | missingDocumentStart
  | severalDocuments
  | tooDeep
  | tooManyAliases
  | repeatedKey
  | repeatedField (name : String)
  | unexpectedValue (wanted : String)
  deriving Repr, DecidableEq

/-- The text of a fault. -/
def Fault.message : Fault → String
  | controlCharacter => "control characters are not allowed"
  | unexpectedCharacter => "found a character that cannot start any token"
  | unexpectedMarker => "found an unexpected document marker"
  | unexpectedColon => "found an unexpected ':'"
  | tabInIndentation => "found a tab where an indentation space is expected"
  | missingColon => "could not find the expected ':'"
  | misplacedEntry => "block sequence entries are not allowed in this context"
  | misplacedKey => "mapping keys are not allowed in this context"
  | misplacedValue => "mapping values are not allowed in this context"
  | badDirective => "found an ill-formed directive"
  | badAnchor => "did not find the expected name of an anchor"
  | badTag => "did not find the expected tag"
  | badEscape => "found an unknown or ill-formed escape"
  | badBlockHeader => "found an ill-formed header of a block scalar"
  | unclosedQuote => "found the end of the stream inside quotes"
  | unknownAnchor name => "unknown anchor " ++ name
  | unknownHandle name => "found an undefined tag handle " ++ name
  | unsupportedVersion => "found an incompatible document"
  | missingContent => "did not find the expected content of a node"
  | missingEntry => "did not find the expected '-' indicator"
  | missingKey => "did not find the expected key"
  | missingSeparator => "did not find the expected ',' or closing bracket"
  | missingDocumentStart => "did not find the expected document start"
  | severalDocuments => "the stream holds more than one document"
  | tooDeep => "the recursion limit is exceeded"
  | tooManyAliases => "the repetition limit is exceeded"
  | repeatedKey => "a mapping repeats a key"
  | repeatedField name => "duplicate field " ++ name
  | unexpectedValue wanted => "invalid value: expected " ++ wanted

end AgentDocs.Yaml
