import AgentDocs.Yaml.Scalar.Gap

/-!
# Quoted scalars

Between single quotes a quote is written twice and nothing else is special. Between double quotes a
backslash starts an escape, and a backslash before a line break joins the lines.
-/

namespace AgentDocs.Yaml

/-- The value of a hexadecimal digit. -/
def hexDigit? (c : Char) : Option Nat :=
  let n := c.toNat
  if 48 ≤ n ∧ n ≤ 57 then some (n - 48)
  else if 65 ≤ n ∧ n ≤ 70 then some (n - 55)
  else if 97 ≤ n ∧ n ≤ 102 then some (n - 87)
  else none

/-- The value of hexadecimal digits after those that make `value`. -/
def hexadecimal? (value : Nat) : List Char → Option Nat
  | [] => some value
  | c :: rest =>
    match hexDigit? c with
    | none => none
    | some d => hexadecimal? (value * 16 + d) rest

/-- The character of an escape by its code, given with `width` digits. -/
def coded (width : Nat) (rest : List Char) : Except Fault (Char × Nat) :=
  if rest.length < width then .error .badEscape
  else
    match hexadecimal? 0 (rest.take width) with
    | none => .error .badEscape
    | some n => if h : n.isValidChar then .ok (Char.ofNatAux n h, width + 1) else .error .badEscape

/-- The character that an escape stands for and the length of the escape after its backslash. -/
def escaped : List Char → Except Fault (Char × Nat)
  | [] => .error .badEscape
  | c :: rest =>
    match c with
    | '0' => .ok ('\x00', 1)
    | 'a' => .ok ('\x07', 1)
    | 'b' => .ok ('\x08', 1)
    | 't' => .ok ('\t', 1)
    | '\t' => .ok ('\t', 1)
    | 'n' => .ok ('\n', 1)
    | 'v' => .ok ('\x0b', 1)
    | 'f' => .ok ('\x0c', 1)
    | 'r' => .ok ('\r', 1)
    | 'e' => .ok ('\x1b', 1)
    | ' ' => .ok (' ', 1)
    | '"' => .ok ('"', 1)
    | '/' => .ok ('/', 1)
    | '\\' => .ok ('\\', 1)
    | 'N' => .ok ('\u0085', 1)
    | '_' => .ok ('\u00A0', 1)
    | 'L' => .ok ('\u2028', 1)
    | 'P' => .ok ('\u2029', 1)
    | 'x' => coded 2 rest
    | 'u' => coded 4 rest
    | 'U' => coded 8 rest
    | _ => .error .badEscape

/-- The text of a quoted scalar up to the next gap, closing quote or joined line, with the number of
characters that it takes. -/
def quotedRun (single : Bool) : Nat → List Char → Except Fault (List Char × Nat)
  | 0, _ => .ok ([], 0)
  | _, [] => .ok ([], 0)
  | fuel + 1, c :: rest =>
    if isSpace c || isBreak c then .ok ([], 0)
    else if single then
      if c = '\'' then
        if rest.head? = some '\'' then
          (quotedRun single fuel (rest.drop 1)).map fun (text, n) => ('\'' :: text, n + 2)
        else .ok ([], 0)
      else (quotedRun single fuel rest).map fun (text, n) => (c :: text, n + 1)
    else if c = '"' then .ok ([], 0)
    else if c = '\\' then
      if rest.head?.any isBreak then .ok ([], 0)
      else
        match escaped rest with
        | .error e => .error e
        | .ok (d, used) =>
          (quotedRun single fuel (rest.drop used)).map fun (text, n) => (d :: text, n + used + 1)
    else (quotedRun single fuel rest).map fun (text, n) => (c :: text, n + 1)

/-- Reads the rest of a quoted scalar, the closing quote included. -/
def quotedRest (single : Bool) : Nat → Cursor → Except Fault (List Char × Cursor)
  | 0, _ => .error .unclosedQuote
  | fuel + 1, c =>
    if c.atAnyMarker then .error .unexpectedMarker
    else if c.rest.isEmpty then .error .unclosedQuote
    else
      match quotedRun single fuel c.rest with
      | .error e => .error e
      | .ok (run, used) =>
        let c := c.advance used
        if c.next? (· == if single then '\'' else '"') then .ok (run, c.advance 1)
        else if c.next? (· == '\\') then
          match Gap.read 0 fuel (c.advance 1).skipBreak with
          | .error e => .error e
          | .ok (gap, c) =>
            (quotedRest single fuel c).map fun (text, c) => (run ++ gap.breaks ++ text, c)
        else
          match Gap.read 0 fuel c with
          | .error e => .error e
          | .ok (gap, c) =>
            (quotedRest single fuel c).map fun (text, c) => (run ++ gap.text ++ text, c)

/-- Reads a quoted scalar from its opening quote on. -/
def readQuoted (single : Bool) (c : Cursor) : Except Fault (List Char × Cursor) :=
  quotedRest single (c.rest.length + 1) (c.advance 1)

end AgentDocs.Yaml
