import AgentDocs.Yaml.Cursor

/-!
# Block scalars

A block scalar is a header line and the lines below it that are indented enough. A literal keeps its
line breaks; a folded one joins lines unless one of them begins with a space. The header says what
becomes of the breaks at the end, and may give the indentation.
-/

namespace AgentDocs.Yaml

/-- What becomes of the line breaks at the end of a block scalar. -/
inductive Chomping where
  | strip
  | clip
  | keep
  deriving Repr, DecidableEq

/-- What the header of a block scalar says. -/
structure BlockHeader where
  chomping : Chomping
  indent : Option Nat

/-- The chomping that a sign asks for. -/
def Chomping.ofSign? : List Char → Option Chomping
  | '+' :: _ => some .keep
  | '-' :: _ => some .strip
  | _ => none

/-- The indentation that a digit asks for. Zero is a fault. -/
def indentDigit : List Char → Except Fault (Option Nat)
  | [] => .ok none
  | c :: _ =>
    if !c.isDigit then .ok none
    else if c = '0' then .error .badBlockHeader
    else .ok (some (c.toNat - 48))

/-- The sign and the digit of a header, in either order, with the number of characters. -/
def BlockHeader.read (text : List Char) : Except Fault (BlockHeader × Nat) :=
  match Chomping.ofSign? text with
  | some chomping =>
    match indentDigit (text.drop 1) with
    | .error e => .error e
    | .ok none => .ok (⟨chomping, none⟩, 1)
    | .ok (some n) => .ok (⟨chomping, some n⟩, 2)
  | none =>
    match indentDigit text with
    | .error e => .error e
    | .ok none => .ok (⟨.clip, none⟩, 0)
    | .ok (some n) =>
      match Chomping.ofSign? (text.drop 1) with
      | none => .ok (⟨.clip, some n⟩, 1)
      | some chomping => .ok (⟨chomping, some n⟩, 2)

/-- Reads empty lines and the indentation of the next line. Where no indentation is given, all the
spaces count, and the greatest column met is returned with the breaks. -/
def blockBreaks (indent : Option Nat) :
    Nat → Cursor → Nat → Except Fault (List Char × Nat × Cursor)
  | 0, c, widest => .ok ([], widest, c)
  | fuel + 1, c, widest =>
    let spaces := (c.rest.takeWhile (· == ' ')).length
    let c := c.advance <| match indent with
      | none => spaces
      | some n => min spaces (n - c.column)
    let widest := max widest c.column
    let short := match indent with
      | none => true
      | some n => decide (c.column < n)
    match c.rest with
    | [] => .ok ([], widest, c)
    | x :: _ =>
      if short && x = '\t' then .error .tabInIndentation
      else if isBreak x then
        (blockBreaks indent fuel c.skipBreak widest).map fun (breaks, widest, c) =>
          (breakText x :: breaks, widest, c)
      else .ok ([], widest, c)

/-- What stands for the break between two lines of a block scalar, of which `spaced` tells whether
one begins with a space, in front of the breaks of the empty lines between them. -/
def foldedBreak (literal spaced : Bool) (lineBreak empties : List Char) : List Char :=
  if !literal && lineBreak.head? = some '\n' && !spaced then if empties.isEmpty then [' '] else []
  else lineBreak

/-- Reads the lines of a block scalar with the given indentation, after the break of a line and the
breaks that follow it. It returns the text, the break of the last line and the breaks after it. -/
def blockLines (literal : Bool) (indent : Nat) :
    Nat → Cursor → List Char → List Char → Bool →
      Except Fault (List Char × List Char × List Char × Cursor)
  | 0, c, lineBreak, empties, _ => .ok ([], lineBreak, empties, c)
  | fuel + 1, c, lineBreak, empties, afterSpace =>
    if c.column != indent || c.rest.isEmpty then .ok ([], lineBreak, empties, c)
    else
      let spaced := c.next? isSpace
      let line := c.rest.takeWhile (!isBreak ·)
      let start := foldedBreak literal (afterSpace || spaced) lineBreak empties ++ empties ++ line
      let c := c.advance line.length
      let lineBreak := match c.rest with
        | [] => []
        | x :: _ => [breakText x]
      let c := c.skipBreak
      match blockBreaks (some indent) fuel c 0 with
      | .error e => .error e
      | .ok (empties, _, c) =>
        (blockLines literal indent fuel c lineBreak empties spaced).map fun (text, ends) =>
          (start ++ text, ends)

/-- Reads a block scalar from its indicator on. Its lines stand at column `floor` at least. -/
def readBlock (literal : Bool) (floor : Nat) (c : Cursor) : Except Fault (List Char × Cursor) := do
  let c := c.advance 1
  let (header, used) ← BlockHeader.read c.rest
  let c := (c.advance used).skipWhile isSpace
  let c := if c.next? (· == '#') then c.skipWhile (!isBreak ·) else c
  if !c.rest.isEmpty && !c.next? isBreak then throw .badBlockHeader
  let c := c.skipBreak
  let given := header.indent.map fun n => (floor - 1) + n
  let (empties, widest, c) ← blockBreaks given (c.rest.length + 1) c 0
  let indent := given.getD (max widest (max floor 1))
  let (text, lineBreak, empties, c) ←
    blockLines literal indent (c.rest.length + 1) c [] empties false
  return match header.chomping with
    | .strip => (text, c)
    | .clip => (text ++ lineBreak, c)
    | .keep => (text ++ lineBreak ++ empties, c)

end AgentDocs.Yaml
