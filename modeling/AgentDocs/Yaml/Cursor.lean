import AgentDocs.Yaml.Token

/-!
# Cursors

A cursor is the rest of a stream with its position. Columns count the characters since the last
line break, offsets the bytes since the start of the stream. The pair of carriage return and line
feed is one break.
-/

namespace AgentDocs.Yaml

/-- The characters that separate words on a line. -/
def isSpace (c : Char) : Bool := c == ' ' || c == '\t'

/-- The characters that end a line. -/
def isBreak (c : Char) : Bool :=
  c == '\n' || c == '\r' || c == '\u0085' || c == '\u2028' || c == '\u2029'

/-- A word ends here: at a space, at a line break, or at the end of the stream. -/
def endsWord : List Char → Bool
  | [] => true
  | c :: _ => isSpace c || isBreak c

/-- The characters of names of anchors and tag handles. -/
def isNameCharacter (c : Char) : Bool := c.isAlphanum || c == '_' || c == '-'

/-- The text that a line break stands for. -/
def breakText (c : Char) : Char := if c == '\u2028' || c == '\u2029' then c else '\n'

/-- The mark that may stand in front of a line. -/
def byteOrderMark : Char := '\uFEFF'

/-- The number of bytes that a text takes. -/
def utf8Size (text : List Char) : Nat := text.foldl (fun n c => n + c.utf8Size) 0

/-- The rest of a stream and where it begins. -/
structure Cursor where
  rest : List Char
  offset : Nat
  line : Nat
  column : Nat

namespace Cursor

/-- The cursor after `n` characters of the line. -/
def advance (c : Cursor) (n : Nat) : Cursor where
  rest := c.rest.drop n
  offset := c.offset + utf8Size (c.rest.take n)
  line := c.line
  column := c.column + n

/-- The cursor after the characters of the line that satisfy `p`. -/
def skipWhile (c : Cursor) (p : Char → Bool) : Cursor :=
  c.advance (c.rest.takeWhile p).length

/-- The cursor after a line break. -/
def skipBreak (c : Cursor) : Cursor :=
  match c.rest with
  | '\r' :: '\n' :: rest => ⟨rest, c.offset + 2, c.line + 1, 0⟩
  | x :: rest => ⟨rest, c.offset + x.utf8Size, c.line + 1, 0⟩
  | [] => c

/-- The next character, if it satisfies `p`. -/
def next? (c : Cursor) (p : Char → Bool) : Bool :=
  match c.rest with
  | [] => false
  | x :: _ => p x

/-- A document marker of the character `m` stands at the cursor. -/
def atMarker (c : Cursor) (m : Char) : Bool :=
  c.column == 0 && c.rest.take 3 == [m, m, m] && endsWord (c.rest.drop 3)

/-- A marker that starts or ends a document stands at the cursor. -/
def atAnyMarker (c : Cursor) : Bool := c.atMarker '-' || c.atMarker '.'

end Cursor

end AgentDocs.Yaml
