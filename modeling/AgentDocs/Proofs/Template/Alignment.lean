import Mathlib.Data.List.TakeDrop
import AgentDocs.Proofs.Template.Linewise
import AgentDocs.Proofs.Template.Scan

/-!
# Fences of an expansion

The scan of an expansion runs in step with the scan of its text, if directives keep to lines of
their own and no included text leaves a fence open. A line of the text and its part in the expansion
then take the scan from one state to the same state.

* `IsAlone`, `IsDisciplined`, `EndsOutside`: what is asked of the lines and of the texts.
* `finalState_of_lineBecomes`: one line and its part.
* `LinesBecome.inStep`: all lines and their parts.
* `finalState_expandAt`, `expand_inStep`: a text and its expansion.
-/

namespace AgentDocs.Template

open AgentDocs.Files AgentDocs.Text

/-! ## Directives on lines of their own -/

/-- A piece is a blank character, such as a space, a tab or a line break. -/
def Piece.isBlank : Piece → Bool
  | character c => Text.isBlank c
  | directive _ => false

/-- A directive on a line stands there alone: apart from blanks it is the only piece. -/
def IsAlone (line : List Char) : Prop :=
  ∀ p ∈ pieces line, p.target? ≠ none → (pieces line).filter (fun q => !q.isBlank) = [p]

instance (line : List Char) : Decidable (IsAlone line) :=
  inferInstanceAs (Decidable (∀ p ∈ pieces line, p.target? ≠ none → _))

/-- The text lines among the lines that follow a state of the scan. -/
def textLinesAfter : ScanState → List (List Char) → List (List Char)
  | _, [] => []
  | state, line :: rest =>
    match state.kind line with
    | .verbatim => textLinesAfter (state.step line) rest
    | .text => line :: textLinesAfter (state.step line) rest

/-- Every directive on a text line of a text stands alone on its line. -/
def IsDisciplined (text : List Char) : Prop :=
  ∀ line ∈ textLinesAfter .outside (lines text), IsAlone line

instance (text : List Char) : Decidable (IsDisciplined text) :=
  inferInstanceAs (Decidable (∀ line ∈ textLinesAfter .outside (lines text), IsAlone line))

/-- A scan of a text ends outside all blocks. -/
def EndsOutside (text : List Char) : Prop := finalState .outside (lines text) = .outside

instance (text : List Char) : Decidable (EndsOutside text) :=
  inferInstanceAs (Decidable (finalState .outside (lines text) = .outside))

/-- A line with a directive that stands alone is that directive between blanks. -/
theorem exists_of_isAlone {line : List Char} (h : IsAlone line) (hd : hasDirective line = true) :
    ∃ before target after, pieces line = before ++ .directive target :: after ∧
      (∀ p ∈ before, p.isBlank = true) ∧ ∀ p ∈ after, p.isBlank = true := by
  obtain ⟨p, hp, hdirective⟩ := List.any_eq_true.1 hd
  cases p with
  | character c => cases hdirective
  | directive target =>
    obtain ⟨before, after, hline⟩ := List.append_of_mem hp
    have halone := h _ hp (by simp [Piece.target?])
    rw [hline, List.filter_append, List.filter_cons_of_pos rfl] at halone
    have hlength := congrArg List.length halone
    simp only [List.length_append, List.length_cons, List.length_nil] at hlength
    have hbefore : before.filter (fun q => !q.isBlank) = [] := List.length_eq_zero_iff.1 (by omega)
    have hafter : after.filter (fun q => !q.isBlank) = [] := List.length_eq_zero_iff.1 (by omega)
    exact ⟨before, target, after, hline, by simpa using hbefore, by simpa using hafter⟩

/-! ## A line and its part -/

section
variable {answer : List Char → List Char → Prop} {ps : List Piece} {outs : List (List Char)}

theorem flatten_of_characters (hn : ∀ p ∈ ps, p.target? = none)
    (h : List.Forall₂ (PieceBecomes answer) ps outs) : outs.flatten = ps.flatMap Piece.text := by
  induction h with
  | nil => rfl
  | cons hp _ ih =>
    rw [List.forall_mem_cons] at hn
    cases hp with
    | character c => rw [List.flatten_cons, ih hn.2, List.flatMap_cons, Piece.text]
    | directive ha => cases hn.1

theorem isBlank_of_pieces (hb : ∀ p ∈ ps, p.isBlank = true)
    (h : List.Forall₂ (PieceBecomes answer) ps outs) : ∀ c ∈ outs.flatten, isBlank c = true := by
  induction h with
  | nil => exact nofun
  | cons hp _ ih =>
    rw [List.forall_mem_cons] at hb
    rw [List.flatten_cons, List.forall_mem_append]
    refine ⟨?_, ih hb.2⟩
    cases hp with
    | character c =>
      intro d hd
      rw [List.mem_singleton.1 hd]
      exact hb.1
    | directive ha => cases hb.1

theorem exists_of_directive {before after : List Piece} {target : List Char}
    (h : List.Forall₂ (PieceBecomes answer) (before ++ .directive target :: after) outs) :
    ∃ left out right, answer target out ∧ outs.flatten = left.flatten ++ out ++ right.flatten ∧
      List.Forall₂ (PieceBecomes answer) before left ∧
      List.Forall₂ (PieceBecomes answer) after right := by
  induction before generalizing outs with
  | nil =>
    cases h with
    | @cons _ out _ right hp hright =>
      cases hp with
      | directive ha => exact ⟨[], out, right, ha, by simp, .nil, hright⟩
  | cons p before ih =>
    cases h with
    | @cons _ first _ outs hp hrest =>
      obtain ⟨left, out, right, ha, houts, hleft, hright⟩ := ih hrest
      exact ⟨first :: left, out, right, ha, by simp [houts], .cons hp hleft, hright⟩

end

section
variable {state : ScanState} {line part : List Char} {ls parts : List (List Char)}

/-- The line and its `part` take the scan to the same state, where the answer to a directive that
stands alone on the line ends outside all blocks. -/
theorem finalState_of_lineBecomes (hline : lines line = [line])
    (hd : state.kind line = .text → IsAlone line)
    (h : LineBecomes (fun _ out => EndsOutside out) (state.kind line) line part) :
    finalState state (lines part) = state.step line := by
  have hself : finalState state (lines line) = state.step line := by
    rw [hline]
    rfl
  cases hk : state.kind line with
  | verbatim =>
    rw [hk] at h
    cases h
    exact hself
  | text =>
    rw [hk] at h
    obtain ⟨hout, hplain⟩ := ScanState.kind_eq_text_iff.1 hk
    cases h with
    | text houts =>
      cases hdirective : hasDirective line with
      | false =>
        have hn : ∀ p ∈ pieces line, p.target? = none :=
          List.filterMap_eq_nil_iff.1 ((filterMap_target?_eq_nil_iff line).2 hdirective)
        rw [flatten_of_characters hn houts, text_pieces]
        exact hself
      | true =>
        obtain ⟨before, target, after, hpieces, hb, ha⟩ := exists_of_isAlone (hd hk) hdirective
        rw [hpieces] at houts
        obtain ⟨left, out, right, hends, hflatten, hleft, hright⟩ := exists_of_directive houts
        rw [hflatten, finalState_of_blank (isBlank_of_pieces hb hleft)
          (isBlank_of_pieces ha hright), hout, ScanState.step_of_parse_eq_none hplain]
        exact hends

end

/-! ## Parts of lines that end with a break -/

section
variable {answer : List Char → List Char → Prop}

theorem Piece.text_ne_nil (p : Piece) : p.text ≠ [] := by
  cases p <;> simp [Piece.text, opener]

theorem endsLine_of_pieces {ps : List Piece} {outs : List (List Char)}
    (h : List.Forall₂ (PieceBecomes answer) ps outs) (hl : EndsLine (ps.flatMap Piece.text)) :
    EndsLine outs.flatten := by
  induction h with
  | nil => cases hl
  | @cons p out rest outs hp hrest ih =>
    rw [List.flatMap_cons] at hl
    rw [List.flatten_cons]
    rcases endsLine_append_cases hl with hl | ⟨hnil, hl⟩
    · exact (ih hl).append_left out
    · cases rest with
      | cons q rest =>
        rw [List.flatMap_cons, List.append_eq_nil_iff] at hnil
        exact absurd hnil.1 q.text_ne_nil
      | nil =>
        cases hrest
        cases hp with
        | character c => simpa [Piece.text] using hl
        | directive ha => simp [Piece.text, closer, EndsLine] at hl

theorem endsLine_of_lineBecomes {kind : LineKind} {line part : List Char}
    (h : LineBecomes answer kind line part) (hl : EndsLine line) : EndsLine part := by
  cases h with
  | verbatim => exact hl
  | text houts =>
    rw [← text_pieces line] at hl
    exact endsLine_of_pieces houts hl

theorem LinesBecome.endsLine {state : ScanState} {ls parts : List (List Char)}
    (h : LinesBecome answer state ls parts) (hl : ∀ line ∈ ls.dropLast, EndsLine line) :
    ∀ part ∈ parts.dropLast, EndsLine part := by
  induction h with
  | nil state => exact nofun
  | @cons state line part rest parts hline hrest ih =>
    cases hrest with
    | nil => exact nofun
    | cons hnext hmore =>
      rw [List.dropLast_cons_of_ne_nil (List.cons_ne_nil _ _), List.forall_mem_cons] at hl ⊢
      exact ⟨endsLine_of_lineBecomes hline hl.1, ih hl.2⟩

end

/-! ## All lines and their parts -/

/-- Behind each of the lines `ls` and behind the part of that line the two scans are in the same
state. -/
theorem LinesBecome.finalState_eq {state : ScanState} {ls parts : List (List Char)}
    (h : LinesBecome (fun _ out => EndsOutside out) state ls parts)
    (hls : ∀ line ∈ ls, lines line = [line]) (hd : ∀ line ∈ textLinesAfter state ls, IsAlone line)
    (n : Nat) :
    finalState state ((parts.take n).flatMap lines) = finalState state (ls.take n) := by
  induction h generalizing n with
  | nil state => simp
  | @cons state line part rest parts hline _ ih =>
    cases n with
    | zero => rfl
    | succ n =>
      rw [List.forall_mem_cons] at hls
      have halone : state.kind line = .text → IsAlone line := by
        intro hk
        apply hd
        simp [textLinesAfter, hk]
      have hrest : ∀ other ∈ textLinesAfter (state.step line) rest, IsAlone other := by
        intro other hother
        apply hd
        unfold textLinesAfter
        cases state.kind line with
        | verbatim => exact hother
        | text => exact List.mem_cons_of_mem _ hother
      rw [List.take_succ_cons, List.take_succ_cons, List.flatMap_cons, finalState_append,
        finalState_of_lineBecomes hls.1 halone hline, finalState_cons]
      exact ih hls.2 hrest n

/-- The lines of `text` and their `parts`, joined, are scanned in step: behind the part of each line
the scan of what is joined is between two lines, and in the state of the scan of the text. -/
theorem LinesBecome.inStep {text : List Char} {parts : List (List Char)}
    (h : LinesBecome (fun _ out => EndsOutside out) .outside (lines text) parts)
    (hd : IsDisciplined text) (n : Nat) :
    lines parts.flatten = lines (parts.take n).flatten ++ lines (parts.drop n).flatten ∧
      finalState .outside (lines (parts.take n).flatten) =
        finalState .outside ((lines text).take n) := by
  have hends : ∀ part ∈ parts.dropLast, EndsLine part :=
    h.endsLine fun line hline => endsLine_of_mem_dropLast hline
  have htake : lines (parts.take n).flatten = (parts.take n).flatMap lines := by
    apply lines_flatten
    intro part hpart
    rw [List.dropLast_take_eq_take_dropLast] at hpart
    exact hends part (List.mem_of_mem_take hpart)
  have hdrop : lines (parts.drop n).flatten = (parts.drop n).flatMap lines := by
    apply lines_flatten
    intro part hpart
    rw [List.dropLast_drop_eq_drop_dropLast] at hpart
    exact hends part (List.mem_of_mem_drop hpart)
  constructor
  · rw [htake, hdrop, ← List.flatMap_append, List.take_append_drop]
    exact lines_flatten hends
  · rw [htake]
    exact h.finalState_eq (fun line hline => lines_of_mem_lines hline) hd n

/-! ## A text and its expansion -/

section
variable {w : Workspace} {root : PathName} {limit : Nat} {text out : List Char}

/-- A text that is disciplined, as are those that it reaches, which end outside all blocks, expands
to a text whose scan ends as its own. -/
theorem finalState_expandAt {levels : Nat} {origin : List Char}
    (hd : ∀ inner, Relation.ReflTransGen (Includes w root) text inner → IsDisciplined inner)
    (he : ∀ inner, Relation.TransGen (Includes w root) text inner → EndsOutside inner)
    (h : expandAt w root limit levels origin text = .ok out) :
    finalState .outside (lines out) = finalState .outside (lines text) := by
  induction levels generalizing origin text out with
  | zero => cases h
  | succ levels ih =>
    obtain ⟨parts, hparts, rfl⟩ := linesBecome_of_expandLines h
    have hends : LinesBecome (fun _ out => EndsOutside out) .outside (lines text) parts := by
      apply hparts.mono
      intro target htarget out hout
      obtain ⟨inner, hnames, hinner⟩ := exists_names_of_ok hout
      have hi : Includes w root text inner := ⟨target, htarget, hnames⟩
      have hscan : finalState .outside (lines out) = finalState .outside (lines inner) :=
        ih (fun x hx => hd x (.head hi hx)) (fun x hx => he x (.head hi hx)) hinner
      exact hscan.trans (he inner (.single hi))
    obtain ⟨-, hstep⟩ := hends.inStep (hd text .refl) (lines text).length
    rwa [List.take_length, ← hparts.length_eq, List.take_length] at hstep

end

/-- Where every directive on a text line stands alone on its line, in a text and in all texts that
it reaches, and the scan of each text that it reaches ends outside all blocks, an expansion is
scanned in step with its text: it has one part for each line of the text, behind each part it is
between two of its own lines, and there its scan is in the state in which the scan of the text is
behind that line. -/
theorem expand_inStep {w : Workspace} {root : PathName} {limit : Nat} {text out : List Char}
    (hd : ∀ inner, Relation.ReflTransGen (Includes w root) text inner → IsDisciplined inner)
    (he : ∀ inner, Relation.TransGen (Includes w root) text inner → EndsOutside inner)
    (h : expand w root limit text = .ok out) :
    ∃ parts, LinesBecome (StandsFor w root limit) .outside (lines text) parts ∧
      out = parts.flatten ∧
      ∀ n, lines out = lines (parts.take n).flatten ++ lines (parts.drop n).flatten ∧
        finalState .outside (lines (parts.take n).flatten) =
          finalState .outside ((lines text).take n) := by
  obtain ⟨parts, hparts, rfl⟩ := linesBecome_expand h
  refine ⟨parts, hparts, rfl, ?_⟩
  have hends : LinesBecome (fun _ out => EndsOutside out) .outside (lines text) parts := by
    apply hparts.mono
    rintro target htarget out ⟨inner, hnames, hout⟩
    have hi : Includes w root text inner := ⟨target, htarget, hnames⟩
    have hscan : finalState .outside (lines out) = finalState .outside (lines inner) :=
      finalState_expandAt (fun x hx => hd x (.head hi hx)) (fun x hx => he x (.head hi hx)) hout
    exact hscan.trans (he inner (.single hi))
  exact hends.inStep (hd text .refl)

/-- A block that lacks its last line break. -/
def blockText : List Char :=
  List.replicate 3 fenceMark ++ ['\n', 'x', '\n'] ++ List.replicate 3 fenceMark

/-- The file that holds the block. -/
def blockFile : FileName := ⟨"block", by decide⟩

/-- The workspace with this file. -/
def enclosing : Workspace where
  tree := FileTree.empty.insert [blockFile] (.file (String.ofList blockText).toUTF8)
  start := []
  sealed := []

/-- The block is included between blanks, and a block of the text itself is left open. -/
def indentedText : List Char :=
  ['\t'] ++ written blockFile.text.toList ++ [' ', '\n'] ++ List.replicate 4 fenceMark ++ ['\n']

theorem expand_inStep_indented :
    (∀ inner, Relation.ReflTransGen (Includes enclosing ⟨"."⟩) indentedText inner →
      IsDisciplined inner) ∧
    (∀ inner, Relation.TransGen (Includes enclosing ⟨"."⟩) indentedText inner →
      EndsOutside inner) ∧
    ∃ out, expand enclosing ⟨"."⟩ 1 indentedText = .ok out ∧
      ∃ parts, LinesBecome (StandsFor enclosing ⟨"."⟩ 1) .outside (lines indentedText) parts ∧
        out = parts.flatten ∧
        ∀ n, lines out = lines (parts.take n).flatten ++ lines (parts.drop n).flatten ∧
          finalState .outside (lines (parts.take n).flatten) =
            finalState .outside ((lines indentedText).take n) := by
  have ht : targets indentedText = [blockFile.text.toList] := by decide +kernel
  have hleaf : targets blockText = [] := by decide +kernel
  have hn : Names enclosing ⟨"."⟩ blockFile.text.toList blockText :=
    ⟨[blockFile], String.ofList blockText, by decide +kernel, by decide +kernel,
      by decide +kernel⟩
  have hd : ∀ inner, Relation.ReflTransGen (Includes enclosing ⟨"."⟩) indentedText inner →
      IsDisciplined inner := by
    intro inner hreached
    rcases Relation.reflTransGen_iff_eq_or_transGen.1 hreached with rfl | hreached
    · decide +kernel
    · obtain rfl := eq_of_reaches_single ht hn hleaf hreached
      decide +kernel
  have he : ∀ inner, Relation.TransGen (Includes enclosing ⟨"."⟩) indentedText inner →
      EndsOutside inner := by
    intro inner hreached
    obtain rfl := eq_of_reaches_single ht hn hleaf hreached
    decide +kernel
  have hout : expand enclosing ⟨"."⟩ 1 indentedText = .ok (['\t'] ++ blockText ++ [' ', '\n'] ++
      List.replicate 4 fenceMark ++ ['\n']) := by decide +kernel
  exact ⟨hd, he, _, hout, expand_inStep hd he hout⟩

end AgentDocs.Template
