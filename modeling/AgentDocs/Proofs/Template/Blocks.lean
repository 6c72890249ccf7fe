import AgentDocs.Proofs.Template.Alignment

/-!
# Expansion block by block

A text can be cut behind a line where its scan stands outside all blocks. The two parts then expand
on their own: their expansions in a row are the expansion of the text, and the first of them that
fails is the failure of the text. Nothing of an included text or of a block reaches beyond it.

* `inRow_assoc`: results in a row.
* `expandLines_append`: lines in a row, from every state of the scan.
* `expandAt_append`, `expand_append`: texts in a row.
-/

namespace AgentDocs.Template

open AgentDocs.Files AgentDocs.Text

/-! ## Results in a row -/

/-- Two results in a row: both texts joined, or the first failure. -/
def inRow (first second : Except Error (List Char)) : Except Error (List Char) :=
  match first with
  | .error e => .error e
  | .ok text => second.map (text ++ ·)

@[simp] theorem inRow_error (e : Error) (second : Except Error (List Char)) :
    inRow (.error e) second = .error e := rfl

@[simp] theorem inRow_ok_error (text : List Char) (e : Error) :
    inRow (.ok text) (.error e) = .error e := rfl

@[simp] theorem inRow_ok_ok (text more : List Char) :
    inRow (.ok text) (.ok more) = .ok (text ++ more) := rfl

theorem inRow_nil (second : Except Error (List Char)) : inRow (.ok []) second = second := by
  cases second <;> rfl

theorem inRow_assoc (a b c : Except Error (List Char)) :
    inRow (inRow a b) c = inRow a (inRow b c) := by
  cases a <;> cases b <;> cases c <;> simp

/-! ## Lines and texts in a row -/

theorem expandLines_cons (inclusion : List Char → Except Error (List Char)) (state : ScanState)
    (line : List Char) (rest : List (List Char)) :
    expandLines inclusion state (line :: rest) =
      inRow (expandScanned inclusion state line) (expandLines inclusion (state.step line) rest) :=
  rfl

/-- Lines expand in a row, those of `b` from the state in which those of `a` leave the scan. -/
theorem expandLines_append (inclusion : List Char → Except Error (List Char)) (state : ScanState)
    (a b : List (List Char)) :
    expandLines inclusion state (a ++ b) =
      inRow (expandLines inclusion state a) (expandLines inclusion (finalState state a) b) := by
  induction a generalizing state with
  | nil => exact (inRow_nil _).symm
  | cons line rest ih =>
    rw [List.cons_append, expandLines_cons, ih, expandLines_cons, inRow_assoc, finalState_cons]

section
variable {w : Workspace} {root : PathName} {limit : Nat} {a b : List Char}

/-- A text `a` whose scan ends outside expands in a row with a text `b` that keeps its lines behind
it. -/
theorem expandAt_append {levels : Nat} {origin : List Char}
    (hl : lines (a ++ b) = lines a ++ lines b) (ho : EndsOutside a) :
    expandAt w root limit (levels + 1) origin (a ++ b) =
      inRow (expandAt w root limit (levels + 1) origin a)
        (expandAt w root limit (levels + 1) origin b) := by
  rw [expandAt, expandAt, expandAt, hl, expandLines_append, ho]

end

/-- A text that is empty or ends its last line, and whose scan ends outside all blocks, expands on
its own in front of every other text: both expansions are joined, a failure of the first text is the
failure of both, and so is a failure of the second one where the first one expands. -/
theorem expand_append (w : Workspace) (root : PathName) (limit : Nat) {a b : List Char}
    (ha : a = [] ∨ EndsLine a) (ho : EndsOutside a) :
    (∀ x y, expand w root limit a = .ok x → expand w root limit b = .ok y →
      expand w root limit (a ++ b) = .ok (x ++ y)) ∧
    (∀ e, expand w root limit a = .error e → expand w root limit (a ++ b) = .error e) ∧
    ∀ x e, expand w root limit a = .ok x → expand w root limit b = .error e →
      expand w root limit (a ++ b) = .error e := by
  have hl : lines (a ++ b) = lines a ++ lines b := by
    rcases ha with rfl | ha
    · rfl
    · exact lines_append ha b
  have hrow : expand w root limit (a ++ b) =
      inRow (expand w root limit a) (expand w root limit b) := expandAt_append hl ho
  rw [hrow]
  refine ⟨fun x y hx hy => ?_, fun e he => ?_, fun x e hx he => ?_⟩
  · rw [hx, hy, inRow_ok_ok]
  · rw [he, inRow_error]
  · rw [hx, he, inRow_ok_error]

/-- A directive for a file that opens a fence, and a block of its own. -/
def blocksText : List Char := written fenceFile.text.toList ++ ['\n'] ++ blockText ++ ['\n']

theorem expand_append_fragments :
    EndsLine blocksText ∧ EndsOutside blocksText ∧
      expand fragments ⟨"."⟩ 1 (blocksText ++ written ['a']) =
        .ok (List.replicate 3 fenceMark ++ ['\n'] ++ blockText ++ ['\n'] ++ opener.take 2) ∧
      expand fragments ⟨"."⟩ 0 (blocksText ++ written ['z']) =
        .error (.depthExceeded fenceFile.text 0) ∧
      expand fragments ⟨"."⟩ 1 (blocksText ++ written ['z']) =
        .error (.includeNotFound ⟨"./z"⟩) := by
  have hends : EndsLine blocksText := EndsLine.append_left (b := ['\n']) rfl _
  have houtside : EndsOutside blocksText := by decide +kernel
  have hfirst : expand fragments ⟨"."⟩ 1 blocksText =
      .ok (List.replicate 3 fenceMark ++ ['\n'] ++ blockText ++ ['\n']) := by decide +kernel
  have hsecond : expand fragments ⟨"."⟩ 1 (written ['a']) = .ok (opener.take 2) := by
    decide +kernel
  have hdeep : expand fragments ⟨"."⟩ 0 blocksText = .error (.depthExceeded fenceFile.text 0) := by
    decide +kernel
  have hmissing : expand fragments ⟨"."⟩ 1 (written ['z']) = .error (.includeNotFound ⟨"./z"⟩) := by
    decide +kernel
  have happend := fun limit b => expand_append fragments ⟨"."⟩ limit (b := b) (.inr hends) houtside
  exact ⟨hends, houtside, (happend 1 _).1 _ _ hfirst hsecond, (happend 0 _).2.1 _ hdeep,
    (happend 1 _).2.2 _ _ hfirst hmissing⟩

end AgentDocs.Template
