import AgentDocs.Yaml.Scalar.Meaning

/-!
# How texts are written

A text is written plain where it reads back as the same text, in single quotes where it would mean
something else, as a literal where it holds line feeds, and in double quotes where a character
cannot stand raw.
-/

namespace AgentDocs.Yaml

/-! ## What decides the form -/

/-- The characters that may stand raw. -/
def isPrintable (c : Char) : Bool :=
  let n := c.toNat
  n == 0x0A || (0x20 ≤ n && n ≤ 0x7E) || (0xA0 ≤ n && n ≤ 0xD7FF) ||
    (0xE000 ≤ n && n ≤ 0xFFFD && n != 0xFEFF) || 0x10000 ≤ n

/-- Two characters next to each other satisfy `p` and `q`. -/
def hasAdjacent (p q : Char → Bool) : List Char → Bool
  | [] => false
  | c :: rest => p c && rest.head?.any q || hasAdjacent p q rest

/-- The character that spaces lines and words. -/
def isBlankSpace (c : Char) : Bool := c == ' '

/-- A colon that ends a word or a number sign that begins one, after the character `before`. -/
def hasInnerIndicator (before : Char) : List Char → Bool
  | [] => false
  | c :: rest =>
    c == ':' && endsWord rest || c == '#' && endsWord [before] || hasInnerIndicator c rest

/-- The text would be taken for more than text if it were written plain. -/
def hasIndicator (s : List Char) : Bool :=
  match s with
  | [] => false
  | c :: rest =>
    s.take 3 == ['-', '-', '-'] || s.take 3 == ['.', '.', '.'] ||
      "#,[]\x7b\x7d&*!|>'\"%@\x60".toList.contains c ||
      (c == '?' || c == ':' || c == '-') && endsWord rest || hasInnerIndicator c rest

/-- The text begins or ends with a character that satisfies `p`. -/
def hasAtEnds (p : Char → Bool) (s : List Char) : Bool := s.head?.any p || s.getLast?.any p

/-- Every character of a text may stand raw, and no space stands before a break. -/
def isRaw (s : List Char) : Bool := s.all isPrintable && !hasAdjacent isBlankSpace isBreak s

/-- A form in which a text is written. -/
inductive Form where
  | plain
  | singleQuoted
  | doubleQuoted
  | literal
  deriving Repr, DecidableEq

/-- The text reads back as text from a plain scalar. -/
def meansText (s : List Char) : Bool :=
  decide (Meaning.ofPlain s = .text) && !isPaddedDigits s

/-- The form in which a text is written. -/
def Form.of (s : List Char) : Form :=
  if s.contains '\n' then
    if isRaw s && !s.getLast?.any isBlankSpace then .literal else .doubleQuoted
  else if !isRaw s || hasAdjacent isBreak isBlankSpace s then .doubleQuoted
  else if meansText s && !s.any isBreak && !hasAtEnds isBlankSpace s && !hasIndicator s then .plain
  else .singleQuoted

/-! ## Writing -/

/-- A number of spaces. -/
def spaces (n : Nat) : List Char := List.replicate n ' '

/-- The text between single quotes. A line that follows a break begins with `indent` spaces. -/
def singleQuotedBody (indent : Nat) (afterBreak : Bool) : List Char → List Char
  | [] => if afterBreak then spaces indent else []
  | c :: rest =>
    if isBreak c then c :: singleQuotedBody indent true rest
    else
      (if afterBreak then spaces indent else []) ++ (if c = '\'' then ['\'', '\''] else [c]) ++
        singleQuotedBody indent false rest

/-- The hexadecimal digit with a value below sixteen. -/
def hexDigit (n : Nat) : Char := Char.ofNat (if n < 10 then 48 + n else 55 + n)

/-- A number in hexadecimal with `width` digits. -/
def hexDigits (n : Nat) : Nat → List Char
  | 0 => []
  | width + 1 => hexDigits (n / 16) width ++ [hexDigit (n % 16)]

/-- The escape for a character. -/
def escape (c : Char) : List Char :=
  match c with
  | '\x00' => ['\\', '0']
  | '\x07' => ['\\', 'a']
  | '\x08' => ['\\', 'b']
  | '\t' => ['\\', 't']
  | '\n' => ['\\', 'n']
  | '\x0b' => ['\\', 'v']
  | '\x0c' => ['\\', 'f']
  | '\r' => ['\\', 'r']
  | '\x1b' => ['\\', 'e']
  | '"' => ['\\', '"']
  | '\\' => ['\\', '\\']
  | '\u0085' => ['\\', 'N']
  | '\u00A0' => ['\\', '_']
  | '\u2028' => ['\\', 'L']
  | '\u2029' => ['\\', 'P']
  | _ =>
    let n := c.toNat
    if n ≤ 0xFF then '\\' :: 'x' :: hexDigits n 2
    else if n ≤ 0xFFFF then '\\' :: 'u' :: hexDigits n 4
    else '\\' :: 'U' :: hexDigits n 8

/-- The text between double quotes. -/
def doubleQuotedBody (s : List Char) : List Char :=
  s.flatMap fun c => if !isPrintable c || isBreak c || c == '"' || c == '\\' then escape c else [c]

/-- The marks after the indicator of a literal: the width of the indentation where the text begins
with a space or a break, and what becomes of the breaks at its end. -/
def literalMarks (s : List Char) : List Char :=
  let width := if s.head?.any fun c => isBlankSpace c || isBreak c then ['2'] else []
  let chomping :=
    match s.reverse with
    | [] => ['-']
    | last :: before =>
      if !isBreak last then ['-']
      else
        match before with
        | [] => ['+']
        | c :: _ => if isBreak c then ['+'] else []
  width ++ chomping

/-- The lines of a literal, each begun with `indent` spaces unless it is empty. -/
def literalBody (indent : Nat) (afterBreak : Bool) : List Char → List Char
  | [] => []
  | c :: rest =>
    if isBreak c then c :: literalBody indent true rest
    else (if afterBreak then spaces indent else []) ++ c :: literalBody indent false rest

/-- The written form of a text whose further lines begin with `indent` spaces. -/
def written (indent : Nat) (s : List Char) : List Char :=
  match Form.of s with
  | .plain => s
  | .singleQuoted => '\'' :: singleQuotedBody indent false s ++ ['\'']
  | .doubleQuoted => '"' :: doubleQuotedBody s ++ ['"']
  | .literal => '|' :: literalMarks s ++ '\n' :: literalBody indent true s

/-- A line is ended unless a break ends it already. -/
def endLine (s : List Char) : List Char := if s.getLast?.any isBreak then s else s ++ ['\n']

/-! ## Block mappings -/

/-- The lines of a field whose value is a text, in a mapping at column `indent`. -/
def textField (indent : Nat) (name : String) (value : String) : List Char :=
  name.toList ++ ':' :: ' ' :: endLine (written (indent + 2) value.toList)

/-- The line of a field whose value is a flag. -/
def flagField (name : String) (value : Bool) : List Char :=
  name.toList ++ ':' :: ' ' :: (if value then "true" else "false").toList ++ ['\n']

/-- The lines of a field whose value is a list of texts, in a mapping at column `indent`. -/
def listField (indent : Nat) (name : String) (values : List String) : List Char :=
  name.toList ++ ':' :: '\n' :: values.flatMap fun value =>
    spaces indent ++ '-' :: ' ' :: endLine (written (indent + 2) value.toList)

/-- The lines of a list item that is a mapping, in a list at column `indent`. -/
def itemFields (indent : Nat) : List (List Char) → List Char
  | [] => []
  | first :: rest =>
    spaces indent ++ '-' :: ' ' :: first ++ rest.flatMap fun field => spaces (indent + 2) ++ field

end AgentDocs.Yaml
