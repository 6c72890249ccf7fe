import AgentDocs.Yaml.Cursor

/-!
# Gaps inside scalars

Between two words of a plain or quoted scalar stand spaces, or line breaks with spaces around them.
Spaces are kept; one break is folded into a space, and of several the first is dropped.

* `Gap.text_of_breaks_eq_nil`: a gap without breaks stands for its spaces.
-/

namespace AgentDocs.Yaml

/-- The spaces in front of the first break and the breaks of a gap. -/
structure Gap where
  spaces : List Char
  breaks : List Char

namespace Gap

/-- The gap in front of which nothing was met. -/
def empty : Gap := ⟨[], []⟩

/-- What a gap stands for between two words. -/
def text (g : Gap) : List Char :=
  match g.breaks with
  | [] => g.spaces
  | first :: more =>
    if first = '\n' then if more.isEmpty then [' '] else more
    else first :: more

theorem text_of_breaks_eq_nil {g : Gap} (h : g.breaks = []) : g.text = g.spaces := by
  simp [text, h]

/-- Reads line breaks with the spaces after each. A tab in front of column `limit` is a fault. -/
def readBreaks (limit : Nat) : Nat → Cursor → Except Fault (List Char × Cursor)
  | 0, c => .ok ([], c)
  | fuel + 1, c =>
    match c.rest with
    | [] => .ok ([], c)
    | x :: _ =>
      if isSpace x then
        if x = '\t' && c.column < limit then .error .tabInIndentation
        else readBreaks limit fuel (c.advance 1)
      else if isBreak x then
        (readBreaks limit fuel c.skipBreak).map fun (breaks, c) => (breakText x :: breaks, c)
      else .ok ([], c)

/-- Reads a gap of at most `fuel` characters. A tab in front of column `limit` is a fault after a
break. -/
def read (limit fuel : Nat) (c : Cursor) : Except Fault (Gap × Cursor) :=
  let spaces := c.rest.takeWhile isSpace
  (readBreaks limit fuel (c.advance spaces.length)).map fun (breaks, c) => (⟨spaces, breaks⟩, c)

end Gap

end AgentDocs.Yaml
