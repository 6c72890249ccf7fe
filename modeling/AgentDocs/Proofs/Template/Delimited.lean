import AgentDocs.Proofs.Template.Blocks
import AgentDocs.Proofs.Template.LineEndings

/-!
# Header and body of an expansion

A header stands between two delimiter lines, and a body behind them. Where no line of the header is
a fence or holds a directive, the expansion of the text is the expansion of the body behind the same
header: no included text shows in the header or moves the place where the body begins.

* `isDelimiter_iff`, `split_eq_some_iff`: headers and bodies by their lines.
* `expand_delimited`: the expansion of a text with a header.
* `Project.compile_delimited`: the document that a template with a header makes.
-/

namespace AgentDocs.Template

open AgentDocs.Files AgentDocs.Text

/-! ## Delimiter lines -/

/-- A line delimits where nothing but characters of line ends follows the delimiter. -/
theorem isDelimiter_iff {line : List Char} :
    isDelimiter line = true ↔
      ∃ ends, line = delimiter ++ ends ∧ ∀ c ∈ ends, isLineEnd c = true := by
  rw [isDelimiter, beq_iff_eq, dropEndWhile]
  constructor
  · intro h
    refine ⟨(line.reverse.takeWhile isLineEnd).reverse, ?_, fun c hc => ?_⟩
    · rw [← h, ← List.reverse_append, List.takeWhile_append_dropWhile, List.reverse_reverse]
    · exact List.mem_takeWhile_imp (List.mem_reverse.1 hc)
  · rintro ⟨ends, rfl, hends⟩
    rw [List.reverse_append, List.dropWhile_append_of_pos (by simpa using hends)]
    rfl

/-- A text is one line that delimits. -/
structure IsDelimiterLine (line : List Char) : Prop where
  single : lines line = [line]
  delimits : isDelimiter line = true

/-- A line takes no part in expansion: it is no fence and holds no directive. -/
structure IsPlain (line : List Char) : Prop where
  no_fence : Fence.parse? line = none
  no_directive : hasDirective line = false

theorem hasDirective_of_notMem {line : List Char} (h : '\x7b' ∉ line) :
    hasDirective line = false := by
  rw [Bool.eq_false_iff, ne_eq, hasDirective_iff]
  rintro ⟨left, target, right, rfl, -⟩
  exact h (by simp [written, opener])

theorem isPlain_of_isDelimiter {line : List Char} (h : isDelimiter line = true) :
    IsPlain line := by
  obtain ⟨ends, rfl, hends⟩ := isDelimiter_iff.1 h
  refine ⟨rfl, hasDirective_of_notMem fun hm => ?_⟩
  rcases List.mem_append.1 hm with hm | hm
  · exact absurd hm (by decide)
  · exact absurd (hends _ hm) (by decide)

section
variable {ls : List (List Char)}

theorem finalState_of_isPlain (h : ∀ line ∈ ls, IsPlain line) :
    finalState .outside ls = .outside := by
  induction ls with
  | nil => rfl
  | cons line rest ih =>
    rw [List.forall_mem_cons] at h
    rw [finalState_cons, ScanState.step_of_parse_eq_none h.1.no_fence, ih h.2]

theorem hasDirectiveAfter_of_isPlain (h : ∀ line ∈ ls, IsPlain line) :
    hasDirectiveAfter .outside ls = false := by
  induction ls with
  | nil => rfl
  | cons line rest ih =>
    rw [List.forall_mem_cons] at h
    rw [hasDirectiveAfter, ScanState.step_of_parse_eq_none h.1.no_fence, ih h.2,
      h.1.no_directive, Bool.and_false, Bool.or_false]

end

/-! ## Headers and bodies by their lines -/

theorem cutAtDelimiter_eq_some_iff {ls before after : List (List Char)} :
    cutAtDelimiter ls = some (before, after) ↔
      ∃ line, ls = before ++ line :: after ∧ isDelimiter line = true ∧
        ∀ l ∈ before, isDelimiter l = false := by
  induction ls generalizing before with
  | nil => simp [cutAtDelimiter]
  | cons first rest ih =>
    rw [cutAtDelimiter]
    cases hd : isDelimiter first with
    | true =>
      constructor
      · rintro ⟨⟩
        exact ⟨first, rfl, hd, by simp⟩
      · rintro ⟨line, hl, -, hb⟩
        cases before with
        | nil =>
          cases hl
          rfl
        | cons x more =>
          cases hl
          rw [List.forall_mem_cons, hd] at hb
          cases hb.1
    | false =>
      rw [if_neg (by simp), Option.map_eq_some_iff]
      constructor
      · rintro ⟨⟨front, back⟩, hcut, heq⟩
        cases heq
        obtain ⟨line, rfl, hline, hb⟩ := ih.1 hcut
        exact ⟨line, rfl, hline, List.forall_mem_cons.2 ⟨hd, hb⟩⟩
      · rintro ⟨line, hl, hline, hb⟩
        cases before with
        | nil =>
          cases hl
          rw [hline] at hd
          cases hd
        | cons x more =>
          cases hl
          exact ⟨(more, after), ih.2 ⟨line, rfl, hline, (List.forall_mem_cons.1 hb).2⟩, rfl⟩

/-- A text is a header between its first line and the next line that delimits, with a body behind
it. -/
structure Delimited (text opening header closing body : List Char) : Prop where
  text_eq : text = opening ++ header ++ closing ++ body
  opens : IsDelimiterLine opening
  opening_ends : EndsLine opening
  header_ends : header = [] ∨ EndsLine header
  header_free : ∀ line ∈ lines header, isDelimiter line = false
  closes : IsDelimiterLine closing
  closing_ends : EndsLine closing ∨ body = []

section
variable {text opening header closing body : List Char}

theorem Delimited.lines_front (h : Delimited text opening header closing body) :
    lines (opening ++ header ++ closing) = opening :: (lines header ++ [closing]) := by
  have hfront : lines (opening ++ header) = opening :: lines header := by
    rw [lines_append h.opening_ends, h.opens.single, List.singleton_append]
  have hends : EndsLine (opening ++ header) := by
    rcases h.header_ends with rfl | hh
    · rw [List.append_nil]
      exact h.opening_ends
    · exact hh.append_left opening
  rw [lines_append hends, hfront, h.closes.single, List.cons_append]

theorem Delimited.lines_text (h : Delimited text opening header closing body) :
    lines text = lines (opening ++ header ++ closing) ++ lines body := by
  rw [h.text_eq]
  rcases h.closing_ends with hc | rfl
  · exact lines_append (hc.append_left _) body
  · rw [List.append_nil]
    exact (List.append_nil _).symm

/-- Lines that are followed by others end. -/
theorem endsLine_of_lines_eq {above below : List (List Char)} {line : List Char}
    (h : lines text = above ++ below) (hb : below ≠ []) (hl : line ∈ above) : EndsLine line := by
  have hm : line ∈ (lines text).dropLast := by
    rw [h, List.dropLast_append_of_ne_nil hb]
    exact List.mem_append_left _ hl
  exact endsLine_of_mem_dropLast hm

/-- Lines of a text that are followed by others are the lines of what they make joined. -/
theorem lines_flatten_of_lines_eq (front : List (List Char)) {above below : List (List Char)}
    (h : lines text = front ++ (above ++ below)) (hb : below ≠ []) :
    lines above.flatten = above ∧ (above.flatten = [] ∨ EndsLine above.flatten) := by
  have hends : ∀ line ∈ above, EndsLine line := fun line hl =>
    endsLine_of_lines_eq (h.trans (List.append_assoc ..).symm) hb (List.mem_append_right _ hl)
  have hsingle : ∀ line ∈ above, lines line = [line] := by
    intro line hl
    have hm : line ∈ lines text := by simp [h, hl]
    exact lines_of_mem_lines hm
  exact ⟨lines_flatten_of_single fun line hl => ⟨hsingle line hl, hends line hl⟩,
    endsLine_flatten hends⟩

theorem delimited_of_lines_eq {above below : List (List Char)}
    (h : lines text = opening :: (above ++ closing :: below)) (ho : isDelimiter opening = true)
    (hc : isDelimiter closing = true) (hfree : ∀ line ∈ above, isDelimiter line = false) :
    Delimited text opening above.flatten closing below.flatten := by
  obtain ⟨hheader, hends⟩ := lines_flatten_of_lines_eq [opening] h (by simp)
  have hopening : opening ∈ lines text := by simp [h]
  have hclosing : closing ∈ lines text := by simp [h]
  have habove : lines text = [opening] ++ (above ++ closing :: below) := h
  have hthrough : lines text = (opening :: (above ++ [closing])) ++ below := by simp [h]
  refine ⟨?_, ⟨lines_of_mem_lines hopening, ho⟩, ?_, hends, ?_,
    ⟨lines_of_mem_lines hclosing, hc⟩, ?_⟩
  · rw [← flatten_lines text, hthrough]
    simp
  · exact endsLine_of_lines_eq habove (by simp) List.mem_cons_self
  · rwa [hheader]
  · by_cases hb : below = []
    · exact .inr (by simp [hb])
    · exact .inl (endsLine_of_lines_eq hthrough hb (by simp))

/-- `text` has a header where it is delimited, and the two parts are then those of its lines. -/
theorem split_eq_some_iff :
    split text = ⟨some header, body⟩ ↔
      ∃ opening closing, Delimited text opening header closing body := by
  constructor
  · intro h
    rw [split] at h
    split at h
    · cases h
    · next first rest hl =>
      split at h
      · next hfirst =>
        split at h
        · next above below hcut =>
          obtain ⟨closing, rfl, hclosing, hfree⟩ := cutAtDelimiter_eq_some_iff.1 hcut
          simp only [Parts.mk.injEq, Option.some.injEq] at h
          obtain ⟨rfl, rfl⟩ := h
          exact ⟨first, closing, delimited_of_lines_eq hl hfirst hclosing hfree⟩
        · cases h
      · cases h
  · rintro ⟨opening, closing, h⟩
    have hl : lines text = opening :: (lines header ++ closing :: lines body) := by
      rw [h.lines_text, h.lines_front]
      simp
    have hcut : cutAtDelimiter (lines header ++ closing :: lines body) =
        some (lines header, lines body) :=
      cutAtDelimiter_eq_some_iff.2 ⟨closing, rfl, h.closes.delimits, h.header_free⟩
    simp only [split, hl, h.opens.delimits, if_true, hcut, flatten_lines]

/-! ## The expansion of a text with a header -/

/-- A text whose header takes no part in expansion expands behind its header, as its `body` does
alone. -/
theorem expand_delimited (h : Delimited text opening header closing body)
    (hp : ∀ line ∈ lines header, IsPlain line) (w : Workspace) (root : PathName) (limit : Nat) :
    expand w root limit text =
      (expand w root limit body).map ((opening ++ header ++ closing) ++ ·) := by
  have hplain : ∀ line ∈ lines (opening ++ header ++ closing), IsPlain line := by
    rw [h.lines_front, List.forall_mem_cons, List.forall_mem_append, List.forall_mem_singleton]
    exact ⟨isPlain_of_isDelimiter h.opens.delimits, hp,
      isPlain_of_isDelimiter h.closes.delimits⟩
  have hfront : expand w root limit (opening ++ header ++ closing) =
      .ok (opening ++ header ++ closing) :=
    expand_of_hasUnresolved (hasDirectiveAfter_of_isPlain hplain) w root limit
  have hrow : expand w root limit (opening ++ header ++ closing ++ body) =
      inRow (expand w root limit (opening ++ header ++ closing)) (expand w root limit body) :=
    expandAt_append (h.text_eq ▸ h.lines_text) (finalState_of_isPlain hplain)
  rw [h.text_eq, hrow, hfront]
  rfl

theorem Delimited.expanded (h : Delimited text opening header closing body) {w : Workspace}
    {root : PathName} {limit : Nat} {out : List Char} (ho : expand w root limit body = .ok out) :
    Delimited (opening ++ header ++ closing ++ out) opening header closing out := by
  refine { h with text_eq := rfl, closing_ends := h.closing_ends.imp_right ?_ }
  rintro rfl
  cases ho
  rfl

end

end AgentDocs.Template

namespace AgentDocs

open AgentDocs.Files AgentDocs.Template

/-- A template whose header has no fence and no directive on any line compiles exactly where its
body expands alone, with the failure of the body otherwise. Its expansion has the same header with
the expanded body behind it, and of the header only the description shows in the document. -/
theorem Project.compile_delimited (p : Project) (w : Workspace) (t : Template)
    {header body : List Char} (hs : split t.text.toList = ⟨some header, body⟩)
    (hp : ∀ line ∈ Text.lines header, IsPlain line) :
    (∀ out, expand w p.root p.settings.depthLimit t.text.toList = .ok out →
      ∃ expanded, expand w p.root p.settings.depthLimit body = .ok expanded ∧
        split out = ⟨some header, expanded⟩) ∧
    p.compile w t = (expand w p.root p.settings.depthLimit body).map fun expanded =>
      { identity := t.identity
        header := .make t.identity
          (((description? header).map String.ofList).getD (defaultDescription t.identity))
          (p.handoffs.handoffs t.identity.scope t.identity.command p.registry)
        body := expanded
        descriptionDefaulted := (description? header).isNone } := by
  obtain ⟨opening, closing, h⟩ := split_eq_some_iff.1 hs
  have hsplit : ∀ expanded, expand w p.root p.settings.depthLimit body = .ok expanded →
      split (opening ++ header ++ closing ++ expanded) = ⟨some header, expanded⟩ :=
    fun expanded he => split_eq_some_iff.2 ⟨opening, closing, h.expanded he⟩
  rw [Project.compile, expand_delimited h hp]
  cases he : expand w p.root p.settings.depthLimit body with
  | error e =>
    refine ⟨fun out ho => ?_, rfl⟩
    cases ho
  | ok expanded =>
    constructor
    · rintro out ⟨⟩
      exact ⟨expanded, rfl, hsplit expanded he⟩
    · simp only [Except.map, AgentDocument.compile, hsplit expanded he, Option.bind_some,
        Option.isNone_map]

/-- A project on one file, `f`, with a header of its own. -/
def headed : Workspace where
  tree := FileTree.empty.insert [fenceFile] (.file "---\ndescription: other\n---\n".toUTF8)
  start := []
  sealed := []

/-- A template that includes the file right behind its header. -/
def headedTemplate : Template where
  identity := ⟨"pm", "x"⟩
  kind := .role
  path := ⟨"templates/commands/pm/x.md"⟩
  text := "---\r\ndescription: given\n---\n\x7b\x7bINCLUDE:f\x7d\x7d"

theorem Project.compile_delimited_headed :
    split headedTemplate.text.toList =
        ⟨some "description: given\n".toList, written fenceFile.text.toList⟩ ∧
      (∀ line ∈ Text.lines "description: given\n".toList, IsPlain line) ∧
      ∃ d, fencedProject.compile headed headedTemplate = .ok d ∧
        d.header.description = "given" ∧
        d.body = "---\ndescription: other\n---\n".toList := by
  have hs : split headedTemplate.text.toList =
      ⟨some "description: given\n".toList, written fenceFile.text.toList⟩ := by decide +kernel
  have hp : ∀ line ∈ Text.lines "description: given\n".toList, IsPlain line := by
    intro line hl
    obtain rfl := List.mem_singleton.1 hl
    exact ⟨by decide +kernel, by decide +kernel⟩
  have hbody : expand headed ⟨"."⟩ 10 (written fenceFile.text.toList) =
      .ok "---\ndescription: other\n---\n".toList := by decide +kernel
  have hd : description? "description: given\n".toList = some "given".toList := by
    decide +kernel
  have hcompile := (Project.compile_delimited fencedProject headed headedTemplate hs hp).2
  have hexpand : expand headed fencedProject.root fencedProject.settings.depthLimit
      (written fenceFile.text.toList) = .ok "---\ndescription: other\n---\n".toList := hbody
  rw [hexpand, hd] at hcompile
  exact ⟨hs, hp, _, hcompile, by decide +kernel, rfl⟩

end AgentDocs
