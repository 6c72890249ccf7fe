import AgentDocs.Yaml.Property
import AgentDocs.Yaml.Scalar.Block
import AgentDocs.Yaml.Scalar.Plain

/-!
# Cutting a stream into tokens

The lexer keeps the columns of the open block collections and, for every level of brackets, the
place where a key without an indicator may have begun. When the colon of such a key is met, the
tokens of the key, and of the block mapping it may open, are put in at that place.
-/

namespace AgentDocs.Yaml

/-- The place where a key may have begun: before the token numbered `position`. A required key must
be followed by its colon. -/
structure PossibleKey where
  position : Nat
  required : Bool
  offset : Nat
  line : Nat
  column : Nat

/-- A key stands on one line and within 1024 bytes. -/
def PossibleKey.isStale (k : PossibleKey) (c : Cursor) : Bool :=
  decide (k.line < c.line) || decide (k.offset + 1024 < c.offset)

/-- The state of the lexer: the tokens so far in reverse, the columns of the open block collections,
and the possible keys of the current level and of the levels around it. -/
structure Lexer where
  cursor : Cursor
  tokens : List Token
  columns : List Nat
  key? : Option PossibleKey
  outer : List (Option PossibleKey)
  keyAllowed : Bool

namespace Lexer

/-! ## Levels, columns and keys -/

/-- The lexer stands inside brackets. -/
def inFlow (s : Lexer) : Bool := !s.outer.isEmpty

/-- The column that the lines of a scalar must reach. -/
def floor (s : Lexer) : Nat :=
  match s.columns with
  | [] => 0
  | column :: _ => column + 1

/-- The lexer after one more token. -/
def push (s : Lexer) (t : Token) : Lexer := { s with tokens := t :: s.tokens }

/-- The lexer with a token put in as number `position`. -/
def splice (s : Lexer) (position : Nat) (t : Token) : Lexer :=
  let later := s.tokens.length - position
  { s with tokens := s.tokens.take later ++ t :: s.tokens.drop later }

/-- Closes the block collections whose columns satisfy `p`. -/
def closeBlocks (s : Lexer) (p : Nat → Bool) : Lexer :=
  if s.inFlow then s
  else
    let closed := (s.columns.takeWhile p).length
    { s with
      columns := s.columns.drop closed
      tokens := List.replicate closed .blockEnd ++ s.tokens }

/-- Opens a block collection at a column, before the token numbered `position`, unless one that
reaches this column is open. -/
def openBlock (s : Lexer) (column position : Nat) (t : Token) : Lexer :=
  if s.inFlow || decide (column < s.floor) then s
  else { s.splice position t with columns := column :: s.columns }

/-- Gives up the possible key of the current level. -/
def dropKey (s : Lexer) : Except Fault Lexer :=
  match s.key? with
  | some k => if k.required then .error .missingColon else .ok { s with key? := none }
  | none => .ok s

/-- Notes that a key may begin here. -/
def noteKey (s : Lexer) : Except Fault Lexer :=
  if !s.keyAllowed then .ok s
  else do
    let s ← s.dropKey
    let c := s.cursor
    let required := !s.inFlow && s.columns.head? == some c.column
    return { s with key? := some ⟨s.tokens.length, required, c.offset, c.line, c.column⟩ }

/-- A possible key after the cursor has moved to `c`. -/
def expire (c : Cursor) : Option PossibleKey → Except Fault (Option PossibleKey)
  | none => .ok none
  | some k =>
    if !k.isStale c then .ok (some k)
    else if k.required then .error .missingColon
    else .ok none

/-- Gives up the possible keys that are stale. -/
def expireKeys (s : Lexer) : Except Fault Lexer := do
  let outer ← s.outer.mapM (expire s.cursor)
  let key? ← expire s.cursor s.key?
  return { s with outer, key? }

/-! ## The way to the next token -/

/-- Skips blanks, comments and line breaks, and a byte order mark in front of a line. Outside
brackets a line break allows a key. Tabs count as blanks only where no key may begin. -/
def skipToToken (inFlow : Bool) : Nat → Bool → Cursor → Bool × Cursor
  | 0, keyAllowed, c => (keyAllowed, c)
  | fuel + 1, keyAllowed, c =>
    let c := if c.column = 0 && c.next? (· == byteOrderMark) then c.advance 1 else c
    let c := c.skipWhile fun x => x == ' ' || x == '\t' && (inFlow || !keyAllowed)
    let c := if c.next? (· == '#') then c.skipWhile (!isBreak ·) else c
    if c.next? isBreak then skipToToken inFlow fuel (keyAllowed || !inFlow) c.skipBreak
    else (keyAllowed, c)

/-! ## One token -/

/-- Moves the cursor. -/
def moveTo (s : Lexer) (c : Cursor) : Lexer := { s with cursor := c }

/-- Takes a marker of `width` characters that ends all blocks. -/
def marker (s : Lexer) (t : Token) (c : Cursor) : Except Fault Lexer := do
  let s ← (s.closeBlocks fun _ => true).dropKey
  return { (s.push t).moveTo c with keyAllowed := false }

/-- Takes a bracket that opens a flow collection. -/
def openFlow (s : Lexer) (t : Token) : Except Fault Lexer := do
  let s ← s.noteKey
  let s := { s with outer := s.key? :: s.outer, key? := none, keyAllowed := true }
  return (s.push t).moveTo (s.cursor.advance 1)

/-- Takes a bracket that closes a flow collection. -/
def closeFlow (s : Lexer) (t : Token) : Except Fault Lexer := do
  let s ← s.dropKey
  let s := match s.outer with
    | [] => s
    | key? :: outer => { s with key?, outer }
  return { (s.push t).moveTo (s.cursor.advance 1) with keyAllowed := false }

/-- Takes a comma. -/
def flowEntry (s : Lexer) : Except Fault Lexer := do
  let s ← s.dropKey
  return { (s.push .flowEntry).moveTo (s.cursor.advance 1) with keyAllowed := true }

/-- Takes the indicator of a block entry. -/
def blockEntry (s : Lexer) : Except Fault Lexer := do
  if !s.inFlow && !s.keyAllowed then throw .misplacedEntry
  let s := s.openBlock s.cursor.column s.tokens.length .blockSequenceStart
  let s ← s.dropKey
  return { (s.push .blockEntry).moveTo (s.cursor.advance 1) with keyAllowed := true }

/-- Takes the indicator of a key. -/
def keyIndicator (s : Lexer) : Except Fault Lexer := do
  if !s.inFlow && !s.keyAllowed then throw .misplacedKey
  let s := s.openBlock s.cursor.column s.tokens.length .blockMappingStart
  let s ← s.dropKey
  return { (s.push .key).moveTo (s.cursor.advance 1) with keyAllowed := !s.inFlow }

/-- Takes the colon before a value. -/
def valueIndicator (s : Lexer) : Except Fault Lexer := do
  let s ← match s.key? with
    | some k =>
      let s := s.splice k.position .key
      let s := s.openBlock k.column k.position .blockMappingStart
      pure { s with key? := none, keyAllowed := false }
    | none =>
      if !s.inFlow && !s.keyAllowed then throw .misplacedValue
      let s := s.openBlock s.cursor.column s.tokens.length .blockMappingStart
      pure { s with keyAllowed := !s.inFlow }
  return (s.push .value).moveTo (s.cursor.advance 1)

/-- Takes an anchor or an alias. -/
def named (s : Lexer) (make : String → Token) : Except Fault Lexer := do
  let s ← s.noteKey
  let (name, c) ← readName s.cursor
  return { (s.push (make name)).moveTo c with keyAllowed := false }

/-- Takes a tag. -/
def tag (s : Lexer) : Except Fault Lexer := do
  let s ← s.noteKey
  let (t, c) ← readTag s.inFlow s.cursor
  return { (s.push t).moveTo c with keyAllowed := false }

/-- Takes a block scalar. -/
def blockScalar (s : Lexer) (style : Style) : Except Fault Lexer := do
  let s ← s.dropKey
  let (text, c) ← readBlock (style == .literal) s.floor s.cursor
  return { (s.push (.scalar style (String.ofList text))).moveTo c with keyAllowed := true }

/-- Takes a quoted scalar. -/
def quotedScalar (s : Lexer) (single : Bool) : Except Fault Lexer := do
  let s ← s.noteKey
  let (text, c) ← readQuoted single s.cursor
  return { (s.push (.scalar .quoted (String.ofList text))).moveTo c with keyAllowed := false }

/-- Takes a plain scalar. A line break at its end allows a key. -/
def plainScalar (s : Lexer) : Except Fault Lexer := do
  let s ← s.noteKey
  let (text, brokeLine, c) ← readPlain s.inFlow s.floor s.cursor
  return { (s.push (.scalar .plain (String.ofList text))).moveTo c with keyAllowed := brokeLine }

/-- A plain scalar may begin with `c` before `rest`. -/
def startsPlain (inFlow : Bool) (c : Char) (rest : List Char) : Bool :=
  !isSpace c && !isBreak c && !"-?:,[]\x7b\x7d#&*!|>'\"%@\x60".toList.contains c ||
    c == '-' && !rest.head?.any isSpace ||
    !inFlow && (c == '?' || c == ':') && !endsWord rest

/-- Takes the token that begins with `c` before `rest`. -/
def token (s : Lexer) (c : Char) (rest : List Char) : Except Fault Lexer :=
  if s.cursor.column = 0 && c = '%' then do
    let s ← (s.closeBlocks fun _ => true).dropKey
    let (t, after) ← readDirective s.cursor
    return { (s.push t).moveTo after with keyAllowed := false }
  else if s.cursor.atMarker '-' then s.marker .documentStart (s.cursor.advance 3)
  else if s.cursor.atMarker '.' then s.marker .documentEnd (s.cursor.advance 3)
  else if c = '[' then s.openFlow .flowSequenceStart
  else if c = '\x7b' then s.openFlow .flowMappingStart
  else if c = ']' then s.closeFlow .flowSequenceEnd
  else if c = '\x7d' then s.closeFlow .flowMappingEnd
  else if c = ',' then s.flowEntry
  else if c = '-' && endsWord rest then s.blockEntry
  else if c = '?' && (s.inFlow || endsWord rest) then s.keyIndicator
  else if c = ':' && (s.inFlow || endsWord rest) then s.valueIndicator
  else if c = '*' then s.named .alias
  else if c = '&' then s.named .anchor
  else if c = '!' then s.tag
  else if c = '|' && !s.inFlow then s.blockScalar .literal
  else if c = '>' && !s.inFlow then s.blockScalar .folded
  else if c = '\'' then s.quotedScalar true
  else if c = '"' then s.quotedScalar false
  else if startsPlain s.inFlow c rest then s.plainScalar
  else .error .unexpectedCharacter

/-! ## All tokens -/

/-- Takes the tokens of the rest of the stream, in order. -/
def run : Nat → Lexer → Except Fault (List Token)
  | 0, s => .ok s.tokens.reverse
  | fuel + 1, s => do
    let (keyAllowed, c) := skipToToken s.inFlow (fuel + 1) s.keyAllowed s.cursor
    let s ← ({ s with keyAllowed, cursor := c } : Lexer).expireKeys
    let s := s.closeBlocks (decide <| c.column < ·)
    match c.rest with
    | [] =>
      let s ← (s.closeBlocks fun _ => true).dropKey
      return s.tokens.reverse
    | x :: rest => run fuel (← s.token x rest)

end Lexer

/-- The characters that a stream may hold. -/
def isAllowed (c : Char) : Bool :=
  let n := c.toNat
  n == 0x09 || n == 0x0A || n == 0x0D || (0x20 ≤ n && n ≤ 0x7E) || n == 0x85 ||
    (0xA0 ≤ n && n ≤ 0xD7FF) || (0xE000 ≤ n && n ≤ 0xFFFD) || 0x10000 ≤ n

/-- The tokens of a stream. -/
def tokens (text : List Char) : Except Fault (List Token) :=
  if !text.all isAllowed then .error .controlCharacter
  else Lexer.run (text.length + 1) ⟨⟨text, 0, 0, 0⟩, [], [], none, [], true⟩

end AgentDocs.Yaml
