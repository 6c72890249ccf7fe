import AgentDocs.Yaml.Scalar.Quoted

/-!
# Properties of nodes and directives

In front of a node stand an anchor, which names it, and a tag. A directive at the start of a line
gives the version of a document or a handle for tags. Tags are written in a few characters, and any
other byte by an escape; the escapes for the bytes of one character stand together.
-/

namespace AgentDocs.Yaml

/-! ## Tags -/

/-- The characters of tags beside those of names, with commas and brackets only between `<` and
`>`. -/
def isTagCharacter (verbatim : Bool) (c : Char) : Bool :=
  isNameCharacter c || ";/?:@&=+$.%!~*'()".toList.contains c ||
    verbatim && ",[]".toList.contains c

/-- The number of bytes that follow the first byte of a character, by the leading bits of it. -/
def bytesAfter? (first : Nat) : Option Nat :=
  if first < 0x80 then some 0
  else if first < 0xC0 then none
  else if first < 0xE0 then some 1
  else if first < 0xF0 then some 2
  else if first < 0xF8 then some 3
  else none

/-- The bytes of a text in which `%` and two digits stand for a byte, where `pending` bytes of a
character are still to come. No more is asked of the bytes than their leading bits. -/
def unescape (pending : Nat) : List Char → Option (List UInt8)
  | [] => if pending = 0 then some [] else none
  | '%' :: a :: b :: rest =>
    match hexadecimal? 0 [a, b] with
    | none => none
    | some n =>
      if pending = 0 then
        match bytesAfter? n with
        | none => none
        | some more => (unescape more rest).map (UInt8.ofNat n :: ·)
      else if n / 64 = 2 then (unescape (pending - 1) rest).map (UInt8.ofNat n :: ·)
      else none
  | c :: rest =>
    if pending ≠ 0 ∨ c = '%' then none
    else (unescape 0 rest).map (String.utf8EncodeChar c ++ ·)

/-- The bytes before the first that is zero. -/
def beforeZero (bytes : List UInt8) : List UInt8 := bytes.takeWhile (· != 0)

/-- The bytes of a tag at the cursor, after those of the characters in `head`, of which the first
does not count. A tag with neither is a fault. -/
def readTagText (verbatim : Bool) (head : List Char) (c : Cursor) :
    Except Fault (List UInt8 × Cursor) :=
  let text := c.rest.takeWhile (isTagCharacter verbatim)
  if head.isEmpty && text.isEmpty then .error .badTag
  else
    match unescape 0 text with
    | none => .error .badTag
    | some bytes => .ok (beforeZero (textBytes (head.drop 1) ++ bytes), c.advance text.length)

/-- The handle at the cursor: an exclamation mark, a name, and in most cases another mark. -/
def readHandle (c : Cursor) : List Char × Cursor :=
  let name := (c.rest.drop 1).takeWhile isNameCharacter
  let c := c.advance (name.length + 1)
  if c.next? (· == '!') then ('!' :: name ++ ['!'], c.advance 1) else ('!' :: name, c)

/-- Reads the tag at the cursor into a token. -/
def readTag (inFlow : Bool) (c : Cursor) : Except Fault (Token × Cursor) := do
  let (t, c) ←
    if (c.rest.drop 1).head? = some '<' then do
      let (text, c) ← readTagText true [] (c.advance 2)
      if !c.next? (· == '>') then throw .badTag
      pure (Token.tag "" text, c.advance 1)
    else do
      let (handle, c) := readHandle c
      if handle.length ≥ 2 && handle.getLast? = some '!' then
        let (text, c) ← readTagText false [] c
        pure (Token.tag (String.ofList handle) text, c)
      else
        let (text, c) ← readTagText false handle c
        pure (if text.isEmpty then Token.tag "" [Tag.mark] else Token.tag "!" text, c)
  if endsWord c.rest || inFlow && c.next? (· == ',') then return (t, c)
  else throw .badTag

/-! ## Directives -/

/-- The number that a version directive gives, with the cursor after it. -/
def readNumber (c : Cursor) : Except Fault (Nat × Cursor) :=
  let digits := c.rest.takeWhile Char.isDigit
  if digits.isEmpty || decide (9 < digits.length) then .error .badDirective
  else .ok (digits.foldl (fun n d => n * 10 + (d.toNat - 48)) 0, c.advance digits.length)

/-- Reads the directive at the cursor into a token, to the end of its line. -/
def readDirective (c : Cursor) : Except Fault (Token × Cursor) := do
  let c := c.advance 1
  let name := c.rest.takeWhile isNameCharacter
  let c := c.advance name.length
  if name.isEmpty || !endsWord c.rest then throw .badDirective
  let c := c.skipWhile isSpace
  let (t, c) ←
    if name = "YAML".toList then do
      let (major, c) ← readNumber c
      if !c.next? (· == '.') then throw .badDirective
      let (minor, c) ← readNumber (c.advance 1)
      pure (Token.version major minor, c)
    else if name = "TAG".toList then do
      if !c.next? (· == '!') then throw .badDirective
      let (handle, c) := readHandle c
      if handle.length ≥ 2 && handle.getLast? ≠ some '!' then throw .badDirective
      if !c.next? isSpace then throw .badDirective
      let (text, c) ← readTagText true [] (c.skipWhile isSpace)
      if !endsWord c.rest then throw .badDirective
      pure (Token.handle (String.ofList handle) text, c)
    else throw .badDirective
  let c := c.skipWhile isSpace
  let c := if c.next? (· == '#') then c.skipWhile (!isBreak ·) else c
  if !c.rest.isEmpty && !c.next? isBreak then throw .badDirective
  return (t, c.skipBreak)

/-! ## Names -/

/-- Reads the name of an anchor or alias after its indicator. -/
def readName (c : Cursor) : Except Fault (String × Cursor) :=
  let c := c.advance 1
  let name := c.rest.takeWhile isNameCharacter
  let c := c.advance name.length
  if name.isEmpty || !(endsWord c.rest || c.next? ("?:,]\x7d%@\x60".toList.contains ·)) then
    .error .badAnchor
  else .ok (String.ofList name, c)

end AgentDocs.Yaml
