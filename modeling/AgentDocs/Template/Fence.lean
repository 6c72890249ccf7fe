import AgentDocs.Text.Blank

/-!
# Fenced blocks

Templates show directives inside fenced blocks, where they are documentation. A scan over the lines
tells the two kinds of line apart. Blocks nest: inside a block a fence with an info text opens a
nested one, and a bare fence closes the innermost.

* `Fence.three_le_length`: a fence has at least three marks.
* `ScanState.step_of_parse_eq_none`: only fences change the state.
-/

namespace AgentDocs.Template

open AgentDocs.Text

/-- The character that fences are made of. -/
def fenceMark : Char := '\x60'

/-- A fence line: the length of its run of marks and the info text after it. -/
structure Fence where
  length : Nat
  info : List Char
  deriving Repr, DecidableEq

namespace Fence

/-- A fence without an info text is bare. -/
def hasInfo (f : Fence) : Bool := !f.info.isEmpty

/-- The fence that a line is, if its first characters after blanks are at least three marks. -/
def parse? (line : List Char) : Option Fence :=
  let start := trimStart line
  let marks := start.takeWhile (· == fenceMark)
  if marks.length < 3 then none
  else some ⟨marks.length, trim (start.dropWhile (· == fenceMark))⟩

theorem three_le_length {line : List Char} {f : Fence} (h : parse? line = some f) :
    3 ≤ f.length := by
  simp only [parse?] at h
  split at h
  · cases h
  · cases h; simp only; omega

end Fence

/-- Where a scan stands: outside all blocks, or inside one with the length of its opening fence and
the number of nested blocks that are open. -/
inductive ScanState where
  | outside
  | inside (marker nested : Nat)
  deriving Repr, DecidableEq, Inhabited

/-- Plain text takes part in expansion; fences and what blocks hold do not. -/
inductive LineKind where
  | text
  | verbatim
  deriving Repr, DecidableEq

namespace ScanState

/-- The kind of a line met in a state. -/
def kind (state : ScanState) (line : List Char) : LineKind :=
  match Fence.parse? line, state with
  | none, .outside => .text
  | _, _ => .verbatim

/-- The state after a fence. -/
def onFence (state : ScanState) (fence : Fence) : ScanState :=
  match state with
  | .outside => .inside fence.length 0
  | .inside marker nested =>
    if fence.hasInfo then .inside marker (nested + 1)
    else match nested with
      | deeper + 1 => .inside marker deeper
      | 0 => if marker ≤ fence.length then .outside else .inside marker 0

/-- The state after a line. -/
def step (state : ScanState) (line : List Char) : ScanState :=
  match Fence.parse? line with
  | none => state
  | some fence => state.onFence fence

theorem step_of_parse_eq_none {state : ScanState} {line : List Char}
    (h : Fence.parse? line = none) : state.step line = state := by
  simp [step, h]

/-- A line is `.text` where no block is open and the line does not open one. -/
theorem kind_eq_text_iff {state : ScanState} {line : List Char} :
    state.kind line = .text ↔ state = .outside ∧ Fence.parse? line = none := by
  unfold kind
  cases h : Fence.parse? line <;> cases state <;> simp

end ScanState

/-- The kind of each line, with the state after it. -/
def scan (state : ScanState) : List (List Char) → List (LineKind × ScanState)
  | [] => []
  | line :: rest => (state.kind line, state.step line) :: scan (state.step line) rest

/-- The state after all lines. -/
def finalState (state : ScanState) (lines : List (List Char)) : ScanState :=
  lines.foldl ScanState.step state

end AgentDocs.Template
