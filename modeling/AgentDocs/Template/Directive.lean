/-!
# Include directives

A directive names a target between two braces on each side: `include:` in capital letters, then any
characters but a closing brace. A line is cut into the characters that stand for themselves and the
directives between them, from left to right.

* `text_pieces`: the pieces of a line joined are the line.
-/

namespace AgentDocs.Template

/-- What a directive begins with. -/
def opener : List Char := ['\x7b', '\x7b', 'I', 'N', 'C', 'L', 'U', 'D', 'E', ':']

/-- What a directive ends with. -/
def closer : List Char := ['\x7d', '\x7d']

/-- A part of a line: a character, or a directive with its target. -/
inductive Piece where
  | character (c : Char)
  | directive (target : List Char)
  deriving Repr, DecidableEq

/-- The text of a piece as it stands in a line. -/
def Piece.text : Piece → List Char
  | character c => [c]
  | directive target => opener ++ target ++ closer

/-- The target of the directive that a text begins with, and the text after the directive. -/
def directive? (text : List Char) : Option (List Char × List Char) :=
  if opener.isPrefixOf text then
    let after := text.drop opener.length
    let rest := after.dropWhile (· ≠ '\x7d')
    if closer.isPrefixOf rest then
      some (after.takeWhile (· ≠ '\x7d'), rest.drop closer.length)
    else none
  else none

/-- What `directive?` takes apart is a target between `opener` and `closer`. -/
theorem eq_of_directive? {text target rest : List Char}
    (h : directive? text = some (target, rest)) : text = opener ++ target ++ closer ++ rest := by
  unfold directive? at h
  split at h
  · next ho =>
    obtain ⟨after, rfl⟩ := List.isPrefixOf_iff_prefix.1 ho
    simp only [List.drop_left] at h
    split at h
    · next hc =>
      simp only [Option.some.injEq, Prod.mk.injEq] at h
      obtain ⟨tail, ht⟩ := List.isPrefixOf_iff_prefix.1 hc
      obtain ⟨rfl, rfl⟩ := h
      rw [← ht, List.drop_left, List.append_assoc, List.append_assoc, ht,
        List.takeWhile_append_dropWhile]
    · cases h
  · cases h

theorem length_lt_of_directive? {text target rest : List Char}
    (h : directive? text = some (target, rest)) : rest.length < text.length := by
  have ho : 0 < opener.length := by decide
  rw [eq_of_directive? h]
  simp only [List.length_append]
  omega

/-- The pieces of a line. -/
def pieces (text : List Char) : List Piece :=
  match h : directive? text with
  | some (target, rest) =>
    have : rest.length < text.length := length_lt_of_directive? h
    .directive target :: pieces rest
  | none =>
    match text with
    | [] => []
    | c :: rest => .character c :: pieces rest
termination_by text.length

/-- `pieces` cuts a text and loses none of it. -/
theorem text_pieces (text : List Char) : (pieces text).flatMap Piece.text = text := by
  fun_induction pieces text with
  | case1 text target rest h _ ih =>
    rw [List.flatMap_cons, ih, Piece.text]
    exact (eq_of_directive? h).symm
  | case2 => rfl
  | case3 c rest _ ih => simp [ih, Piece.text]

/-- A text holds the beginning of a directive somewhere. -/
def hasOpener : List Char → Bool
  | [] => false
  | c :: rest => opener.isPrefixOf (c :: rest) || hasOpener rest

/-- A line holds a directive. -/
def hasDirective (line : List Char) : Bool :=
  (pieces line).any fun piece => match piece with | .directive _ => true | .character _ => false

end AgentDocs.Template
