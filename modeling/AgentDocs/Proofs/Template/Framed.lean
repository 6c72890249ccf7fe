import AgentDocs.Proofs.Template.Delimited
import AgentDocs.Yaml.Tag

/-!
# Texts framed by delimiters

A text has a header where its first line delimits and a later line does so too. The header is what
stands between the first line and the next one that delimits, the body is what stands behind it, and
there is no second way to cut the text so. Nothing of the text is lost but the two lines.

The parts are slices of the bytes of the text. Offsets that are counted up line by line fall on the
boundaries of the parts, whatever characters the lines hold.

* `IsEnded`, `Delimits`, `Framed`: lines and frames by their characters.
* `framed_iff_delimited`: the same by the cutting of a text into lines.
* `sliced_eq`: the parts as slices of the bytes.
* `split_lossless`: a text is split where it is framed.
-/

namespace AgentDocs.Template

open AgentDocs.Text AgentDocs.Yaml

/-! ## Lines by their characters -/

/-- A line is ended: its last character is a line feed, and no other one is. -/
def IsEnded (line : List Char) : Prop := ∃ content, line = content ++ ['\n'] ∧ '\n' ∉ content

/-- The first line of a text that goes on with `rest`. A line feed ends it, or the text does. -/
def IsFirstLine (line rest : List Char) : Prop :=
  IsEnded line ∨ line ≠ [] ∧ '\n' ∉ line ∧ rest = []

/-- Nothing but carriage returns and line feeds follows the delimiter. -/
def Delimits (line : List Char) : Prop :=
  ∃ ends, line = delimiter ++ ends ∧ ∀ c ∈ ends, c = '\r' ∨ c = '\n'

/-- A text is a first line that delimits, whole lines of which none delimits, a line that delimits,
and the rest. -/
structure Framed (text opening header closing body : List Char) : Prop where
  text_eq : text = opening ++ header ++ closing ++ body
  opens_text : IsFirstLine opening (header ++ closing ++ body)
  opening_delimits : Delimits opening
  header_lines : ∃ ls : List (List Char),
    header = ls.flatten ∧ ∀ line ∈ ls, IsEnded line ∧ ¬ Delimits line
  closes_header : IsFirstLine closing body
  closing_delimits : Delimits closing

section
variable {text line rest opening header closing body : List Char}

theorem delimits_iff : Delimits line ↔ isDelimiter line = true := by
  rw [isDelimiter_iff, Delimits]
  simp only [isLineEnd, Bool.or_eq_true, beq_iff_eq, or_comm]

theorem isEnded_iff : IsEnded line ↔ lines line = [line] ∧ EndsLine line := by
  constructor
  · rintro ⟨content, rfl, h⟩
    exact ⟨lines_append_feed h [], List.getLast?_concat⟩
  · rintro ⟨hl, he⟩
    obtain ⟨content, rfl⟩ := List.getLast?_eq_some_iff.1 he
    have hline : IsLine (content ++ ['\n']) :=
      isLine_of_mem_lines (hl ▸ List.mem_singleton_self _)
    exact ⟨content, rfl, by simpa [IsLine] using hline⟩

theorem isFirstLine_iff :
    IsFirstLine line rest ↔ lines line = [line] ∧ (EndsLine line ∨ rest = []) := by
  constructor
  · rintro (h | ⟨hne, hn, hr⟩)
    · exact ⟨(isEnded_iff.1 h).1, .inl (isEnded_iff.1 h).2⟩
    · exact ⟨lines_of_notMem hne hn, .inr hr⟩
  · rintro ⟨hl, hr⟩
    by_cases he : EndsLine line
    · exact .inl (isEnded_iff.2 ⟨hl, he⟩)
    · have hne : line ≠ [] := lines_ne_nil (hl ▸ List.mem_singleton_self line)
      have hline : IsLine line := isLine_of_mem_lines (hl ▸ List.mem_singleton_self line)
      refine .inr ⟨hne, fun hn => ?_, hr.resolve_left he⟩
      rw [← List.dropLast_concat_getLast hne, List.mem_append, List.mem_singleton] at hn
      rcases hn with hn | hn
      · exact hline hn
      · exact he (by rw [EndsLine, List.getLast?_eq_some_getLast hne, ← hn])

theorem endsLine_of_mem_lines (h : EndsLine text) (hl : line ∈ lines text) : EndsLine line := by
  obtain ⟨above, below, hlines⟩ := List.append_of_mem hl
  by_cases hb : below = []
  · have htext : text = above.flatten ++ line := by
      rw [← flatten_lines text, hlines, hb, List.flatten_append, List.flatten_singleton]
    rw [htext] at h
    exact (endsLine_append_iff (lines_ne_nil hl)).1 h
  · have habove : lines text = (above ++ [line]) ++ below := by simp [hlines]
    exact endsLine_of_lines_eq habove hb (by simp)

/-- Ended lines with `p` make a text that is empty or ends its last line, and they are its lines. -/
theorem exists_isEnded_iff {p : List Char → Prop} :
    (∃ ls : List (List Char), text = ls.flatten ∧ ∀ line ∈ ls, IsEnded line ∧ p line) ↔
      (text = [] ∨ EndsLine text) ∧ ∀ line ∈ lines text, p line := by
  constructor
  · rintro ⟨ls, rfl, h⟩
    have hline : ∀ line ∈ ls, lines line = [line] ∧ EndsLine line :=
      fun line hl => isEnded_iff.1 (h line hl).1
    rw [lines_flatten_of_single hline]
    exact ⟨endsLine_flatten fun line hl => (hline line hl).2, fun line hl => (h line hl).2⟩
  · rintro ⟨he, hp⟩
    refine ⟨lines text, (flatten_lines text).symm, fun line hl => ⟨?_, hp line hl⟩⟩
    rcases he with rfl | he
    · cases hl
    · exact isEnded_iff.2 ⟨lines_of_mem_lines hl, endsLine_of_mem_lines he hl⟩

/-! ## Frames by lines -/

theorem Framed.delimited (h : Framed text opening header closing body) :
    Delimited text opening header closing body := by
  obtain ⟨hopening, hends⟩ := isFirstLine_iff.1 h.opens_text
  obtain ⟨hclosing, hclosed⟩ := isFirstLine_iff.1 h.closes_header
  obtain ⟨hheader, hfree⟩ := exists_isEnded_iff.1 h.header_lines
  have hne : closing ≠ [] := lines_ne_nil (hclosing ▸ List.mem_singleton_self closing)
  exact {
    text_eq := h.text_eq
    opens := ⟨hopening, delimits_iff.1 h.opening_delimits⟩
    -- The text cannot end with the first line: the line that closes the header is behind it.
    opening_ends := hends.resolve_right (by simp [hne])
    header_ends := hheader
    header_free := fun line hl => Bool.eq_false_iff.2 (mt delimits_iff.2 (hfree line hl))
    closes := ⟨hclosing, delimits_iff.1 h.closing_delimits⟩
    closing_ends := hclosed }

theorem Delimited.framed (h : Delimited text opening header closing body) :
    Framed text opening header closing body where
  text_eq := h.text_eq
  opens_text := isFirstLine_iff.2 ⟨h.opens.single, .inl h.opening_ends⟩
  opening_delimits := delimits_iff.2 h.opens.delimits
  header_lines := exists_isEnded_iff.2 ⟨h.header_ends, fun line hl =>
    mt delimits_iff.1 (Bool.eq_false_iff.1 (h.header_free line hl))⟩
  closes_header := isFirstLine_iff.2 ⟨h.closes.single, h.closing_ends⟩
  closing_delimits := delimits_iff.2 h.closes.delimits

theorem framed_iff_delimited :
    Framed text opening header closing body ↔ Delimited text opening header closing body :=
  ⟨Framed.delimited, Delimited.framed⟩

/-- The parts of a `text` are those of its split, and what is left between them is the two lines. -/
theorem Delimited.unique {opening' header' closing' body' : List Char}
    (h : Delimited text opening header closing body)
    (h' : Delimited text opening' header' closing' body') :
    opening = opening' ∧ header = header' ∧ closing = closing' ∧ body = body' := by
  have hsplit : split text = ⟨some header, body⟩ := split_eq_some_iff.2 ⟨_, _, h⟩
  rw [split_eq_some_iff.2 ⟨_, _, h'⟩] at hsplit
  obtain ⟨rfl, rfl⟩ : header' = header ∧ body' = body := by simpa using hsplit
  have hlines := h.lines_text
  rw [h.lines_front, h'.lines_text, h'.lines_front] at hlines
  obtain ⟨rfl, -⟩ := List.cons.inj hlines
  have htext := h.text_eq
  rw [h'.text_eq] at htext
  have hclosing : closing' = closing := by simpa using htext
  exact ⟨rfl, rfl, hclosing.symm, rfl⟩

/-- Where `split` gives no header, all of the text is body. -/
theorem split_eq_none_or (text : List Char) :
    split text = ⟨none, text⟩ ∨ ∃ header body, split text = ⟨some header, body⟩ := by
  unfold split
  split
  · exact .inl rfl
  · split
    · split
      · exact .inr ⟨_, _, rfl⟩
      · exact .inl rfl
    · exact .inl rfl

end

/-! ## Parts as slices -/

/-- The number of bytes of a text. -/
def size (text : List Char) : Nat := (textBytes text).length

/-- The bytes of a header that begins at `start` and of the body behind it, for lines that begin at
`offset`. Every line moves the offset by its size until one delimits. -/
def slicedFrom (content : List UInt8) (start offset : Nat) :
    List (List Char) → Option (List UInt8 × List UInt8)
  | [] => none
  | line :: rest =>
    if isDelimiter line then
      some (content.extract start offset, content.drop (offset + size line))
    else slicedFrom content start (offset + size line) rest

/-- The header and the body of a text as slices of its bytes. -/
def sliced (text : List Char) : Option (List UInt8) × List UInt8 :=
  match lines text with
  | [] => (none, textBytes text)
  | first :: rest =>
    if isDelimiter first then
      match slicedFrom (textBytes text) (size first) (size first) rest with
      | some (header, body) => (some header, body)
      | none => (none, textBytes text)
    else (none, textBytes text)

theorem textBytes_append (a b : List Char) : textBytes (a ++ b) = textBytes a ++ textBytes b :=
  List.flatMap_append

theorem size_append (a b : List Char) : size (a ++ b) = size a + size b := by
  rw [size, textBytes_append, List.length_append]
  rfl

theorem extract_textBytes (a b c : List Char) :
    (textBytes (a ++ b ++ c)).extract (size a) (size (a ++ b)) = textBytes b := by
  rw [List.extract_eq_take_drop, size_append, Nat.add_sub_cancel_left, List.append_assoc,
    textBytes_append, textBytes_append, size, size, List.drop_left, List.take_left]

theorem drop_textBytes (a b : List Char) : (textBytes (a ++ b)).drop (size a) = textBytes b := by
  rw [textBytes_append, size, List.drop_left]

/-- The offset is behind the lines that have `passed`, so that no slice cuts a character. -/
theorem slicedFrom_eq (first passed : List Char) (ls : List (List Char)) :
    slicedFrom (textBytes (first ++ passed ++ ls.flatten)) (size first) (size (first ++ passed))
        ls =
      (cutAtDelimiter ls).map fun (before, after) =>
        (textBytes (passed ++ before.flatten), textBytes after.flatten) := by
  -- What has been passed grows by a line in every step, so it is not fixed in the induction.
  induction ls generalizing passed with
  | nil => rfl
  | cons line rest ih =>
    have hpassed : size (first ++ passed) + size line = size (first ++ passed ++ line) :=
      (size_append _ _).symm
    rw [slicedFrom, cutAtDelimiter, hpassed]
    cases isDelimiter line with
    | true =>
      rw [if_pos rfl, if_pos rfl, extract_textBytes, List.flatten_cons, ← List.append_assoc,
        drop_textBytes]
      simp
    | false =>
      rw [if_neg (by simp), if_neg (by simp), List.flatten_cons, ← List.append_assoc,
        List.append_assoc first, ih, Option.map_map]
      simp [Function.comp_def]

theorem sliced_eq (text : List Char) :
    sliced text = ((split text).header.map textBytes, textBytes (split text).body) := by
  unfold sliced split
  cases hl : lines text with
  | nil => rfl
  | cons first rest =>
    have htext : text = first ++ [] ++ rest.flatten := by
      rw [← flatten_lines text, hl, List.append_nil, List.flatten_cons]
    have hsliced := slicedFrom_eq first [] rest
    rw [← htext, List.append_nil] at hsliced
    simp only [hsliced]
    cases isDelimiter first with
    | false => rfl
    | true => cases cutAtDelimiter rest <;> rfl

/-! ## Splitting -/

/-- A text is split into header and body exactly where they are framed in it, which they are in one
way at most, and any other text is all body. Slices at offsets give the same parts. -/
theorem split_lossless (text : List Char) :
    (∀ header body, split text = ⟨some header, body⟩ ↔
      ∃ opening closing, Framed text opening header closing body) ∧
    (∀ opening header closing body opening' header' closing' body',
      Framed text opening header closing body → Framed text opening' header' closing' body' →
        opening = opening' ∧ header = header' ∧ closing = closing' ∧ body = body') ∧
    ((∀ opening header closing body, ¬ Framed text opening header closing body) →
      split text = ⟨none, text⟩) ∧
    sliced text = ((split text).header.map textBytes, textBytes (split text).body) := by
  refine ⟨fun header body => ?_, fun _ _ _ _ _ _ _ _ h h' => h.delimited.unique h'.delimited,
    fun hnone => ?_, sliced_eq text⟩
  · simp only [split_eq_some_iff, framed_iff_delimited]
  · refine (split_eq_none_or text).resolve_right ?_
    rintro ⟨header, body, hs⟩
    obtain ⟨opening, closing, h⟩ := split_eq_some_iff.1 hs
    exact hnone _ _ _ _ h.framed

/-- A text with three lines that delimit. The first one has two carriage returns, and the last one
has no line feed. -/
def repeated : List Char := "---\r\r\né\n---\n---".toList

theorem framed_repeated :
    Framed repeated "---\r\r\n".toList "é\n".toList "---\n".toList "---".toList where
  text_eq := by decide
  opens_text := .inl ⟨"---\r\r".toList, by decide, by decide⟩
  opening_delimits := ⟨['\r', '\r', '\n'], by decide, by simp⟩
  header_lines := by
    have hline : IsEnded "é\n".toList := ⟨['é'], by decide, by decide⟩
    have hfree : ¬ Delimits "é\n".toList := mt delimits_iff.1 (by decide)
    exact ⟨["é\n".toList], by decide, List.forall_mem_singleton.2 ⟨hline, hfree⟩⟩
  closes_header := .inl ⟨"---".toList, by decide, by decide⟩
  closing_delimits := ⟨['\n'], by decide, by simp⟩

/-- The second line that delimits closes the header. A line with a space behind the delimiter does
not. -/
theorem split_lossless_repeated :
    split repeated = ⟨some "é\n".toList, "---".toList⟩ ∧
      (∀ opening header closing body, Framed repeated opening header closing body →
        closing = "---\n".toList) ∧
      (∀ opening header closing body,
        ¬ Framed "---\n--- \n".toList opening header closing body) ∧
      split "---\n--- \n".toList = ⟨none, "---\n--- \n".toList⟩ := by
  have hnone : ∀ opening header closing body,
      ¬ Framed "---\n--- \n".toList opening header closing body := by
    intro opening header closing body h
    have hsplit := ((split_lossless _).1 header body).2 ⟨opening, closing, h⟩
    have hbody : (split "---\n--- \n".toList).header = none := by decide
    rw [hsplit] at hbody
    cases hbody
  refine ⟨((split_lossless _).1 _ _).2 ⟨_, _, framed_repeated⟩, fun _ _ _ _ h => ?_, hnone,
    (split_lossless _).2.2.1 hnone⟩
  exact ((split_lossless _).2.1 _ _ _ _ _ _ _ _ h framed_repeated).2.2.1

end AgentDocs.Template
