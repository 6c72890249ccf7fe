import Mathlib.Data.List.Basic
import AgentDocs.Text.Line

/-!
# The lines of joined texts

Texts that are joined behind a line break keep their lines. A character that is put behind a text is
a line of its own where the text ends its last line, and it lengthens that line where it does not.

* `lines_append`, `lines_flatten`: texts that end their lines, joined.
* `lines_of_notMem`, `lines_append_feed`: texts of one line.
* `lines_of_mem_lines`, `endsLine_of_mem_dropLast`: a line of a text is one line, and all but the
  last one are ended.
* `lines_concat`: one more character.
* `lineContents_append`: one more line.
-/

namespace AgentDocs.Text

/-- A text ends with a line break. -/
def EndsLine (text : List Char) : Prop := text.getLast? = some '\n'

theorem endsLine_cons_iff {c : Char} {text : List Char} (h : text ≠ []) :
    EndsLine (c :: text) ↔ EndsLine text := by
  rw [EndsLine, EndsLine, List.getLast?_cons_of_ne_nil h]

theorem EndsLine.append_left {b : List Char} (h : EndsLine b) (a : List Char) :
    EndsLine (a ++ b) := by
  rw [EndsLine, List.getLast?_append, h]
  rfl

theorem endsLine_append_cases {a b : List Char} (h : EndsLine (a ++ b)) :
    EndsLine b ∨ b = [] ∧ EndsLine a := by
  by_cases hb : b = []
  · rw [hb, List.append_nil] at h
    exact .inr ⟨hb, h⟩
  · rw [EndsLine, List.getLast?_append_of_ne_nil _ hb] at h
    exact .inl h

theorem endsLine_append_iff {a b : List Char} (hb : b ≠ []) : EndsLine (a ++ b) ↔ EndsLine b := by
  rw [EndsLine, EndsLine, List.getLast?_append_of_ne_nil _ hb]

theorem lines_eq_nil_iff {text : List Char} : lines text = [] ↔ text = [] := by
  constructor
  · intro h
    rw [← flatten_lines text, h, List.flatten_nil]
  · rintro rfl
    rfl

theorem lines_feed (rest : List Char) : lines ('\n' :: rest) = ['\n'] :: lines rest := rfl

/-- A character `c` other than a line break is put in front of the first line, if there is one. -/
theorem lines_cons {c : Char} (hc : c ≠ '\n') (rest : List Char) :
    (rest = [] ∧ lines (c :: rest) = [[c]]) ∨
      ∃ line more, lines rest = line :: more ∧ lines (c :: rest) = (c :: line) :: more := by
  cases hl : lines rest with
  | nil => exact .inl ⟨lines_eq_nil_iff.1 hl, by simp [lines, hc, hl]⟩
  | cons line more => exact .inr ⟨line, more, rfl, by simp [lines, hc, hl]⟩

theorem lines_append {a : List Char} (h : EndsLine a) (b : List Char) :
    lines (a ++ b) = lines a ++ lines b := by
  induction a with
  | nil => cases h
  | cons c rest ih =>
    by_cases hr : rest = []
    · obtain rfl : c = '\n' := by simpa [hr, EndsLine] using h
      rw [hr]
      rfl
    · have hrest := ih ((endsLine_cons_iff hr).1 h)
      by_cases hc : c = '\n'
      · subst hc
        rw [List.cons_append, lines_feed, lines_feed, hrest, List.cons_append]
      · rcases lines_cons hc rest with ⟨hn, -⟩ | ⟨line, more, hl, hcons⟩
        · exact absurd hn hr
        · rw [List.cons_append, hcons]
          rw [hl, List.cons_append] at hrest
          simp [lines, hc, hrest]

/-- The lines of `texts` of which all but the last one end their lines. -/
theorem lines_flatten {texts : List (List Char)} (h : ∀ text ∈ texts.dropLast, EndsLine text) :
    lines texts.flatten = texts.flatMap lines := by
  induction texts with
  | nil => rfl
  | cons text rest ih =>
    by_cases hr : rest = []
    · simp [hr]
    · rw [List.dropLast_cons_of_ne_nil hr, List.forall_mem_cons] at h
      rw [List.flatten_cons, lines_append h.1, ih h.2, List.flatMap_cons]

/-- Texts `ls` of one ended line each are the lines of what they make joined. -/
theorem lines_flatten_of_single {ls : List (List Char)}
    (h : ∀ line ∈ ls, lines line = [line] ∧ EndsLine line) : lines ls.flatten = ls := by
  rw [lines_flatten fun line hl => (h line (List.dropLast_subset _ hl)).2,
    List.flatMap_congr fun line hl => (h line hl).1, List.flatMap_singleton']

theorem endsLine_flatten {ls : List (List Char)} (h : ∀ line ∈ ls, EndsLine line) :
    ls.flatten = [] ∨ EndsLine ls.flatten := by
  rcases List.eq_nil_or_concat ls with rfl | ⟨front, last, rfl⟩
  · exact .inl rfl
  · rw [List.concat_eq_append, List.flatten_append, List.flatten_singleton]
    exact .inr ((h last (by simp)).append_left _)

theorem lines_of_mem_lines {text line : List Char} (h : line ∈ lines text) :
    lines line = [line] := by
  induction text generalizing line with
  | nil => cases h
  | cons c rest ih =>
    by_cases hc : c = '\n'
    · subst hc
      rw [lines_feed] at h
      rcases List.mem_cons.1 h with rfl | h
      · rfl
      · exact ih h
    · rcases lines_cons hc rest with ⟨-, hcons⟩ | ⟨first, more, hl, hcons⟩
      · rw [hcons, List.mem_singleton] at h
        simp [h, lines]
      · rw [hcons] at h
        rw [hl] at ih
        rcases List.mem_cons.1 h with rfl | h
        · simp [lines, hc, ih List.mem_cons_self]
        · exact ih (List.mem_cons_of_mem _ h)

theorem endsLine_of_mem_dropLast {text line : List Char} (h : line ∈ (lines text).dropLast) :
    EndsLine line := by
  induction text generalizing line with
  | nil => cases h
  | cons c rest ih =>
    by_cases hc : c = '\n'
    · subst hc
      rw [lines_feed] at h
      by_cases hr : lines rest = []
      · simp [hr] at h
      · rw [List.dropLast_cons_of_ne_nil hr] at h
        rcases List.mem_cons.1 h with rfl | h
        · rfl
        · exact ih h
    · rcases lines_cons hc rest with ⟨-, hcons⟩ | ⟨first, more, hl, hcons⟩
      · rw [hcons] at h
        cases h
      · by_cases hm : more = []
        · simp [hcons, hm] at h
        · have hfirst : first ∈ lines rest := by
            rw [hl]
            exact List.mem_cons_self
          rw [hcons, List.dropLast_cons_of_ne_nil hm] at h
          rw [hl, List.dropLast_cons_of_ne_nil hm] at ih
          rcases List.mem_cons.1 h with rfl | h
          · exact (endsLine_cons_iff (lines_ne_nil hfirst)).2 (ih List.mem_cons_self)
          · exact ih (List.mem_cons_of_mem _ h)

/-- A character `c` behind a text is a line of its own, or it lengthens the last line. -/
theorem lines_concat (text : List Char) (c : Char) :
    lines (text ++ [c]) = lines text ++ [[c]] ∨
      ∃ front last, lines text = front ++ [last] ∧
        lines (text ++ [c]) = front ++ [last ++ [c]] := by
  induction text with
  | nil =>
    left
    simp [lines]
  | cons d rest ih =>
    by_cases hd : d = '\n'
    · subst hd
      rw [List.cons_append, lines_feed, lines_feed]
      rcases ih with h | ⟨front, last, hl, h⟩
      · left
        rw [h, List.cons_append]
      · right
        exact ⟨['\n'] :: front, last, by rw [hl, List.cons_append],
          by rw [h, List.cons_append]⟩
    · rcases lines_cons hd rest with ⟨rfl, hcons⟩ | ⟨first, more, hl, hcons⟩
      · right
        exact ⟨[], [d], hcons, by simp [lines, hd]⟩
      · rw [List.cons_append, hcons]
        rw [hl] at ih
        rcases ih with h | ⟨front, last, hfront, h⟩
        · left
          simp [lines, hd, h]
        · right
          cases front with
          | nil =>
            simp only [List.nil_append, List.cons.injEq] at hfront h
            obtain ⟨rfl, rfl⟩ := hfront
            exact ⟨[], d :: first, rfl, by simp [lines, hd, h]⟩
          | cons line front =>
            simp only [List.cons_append, List.cons.injEq] at hfront h
            obtain ⟨rfl, rfl⟩ := hfront
            exact ⟨(d :: first) :: front, last, rfl, by simp [lines, hd, h]⟩

/-! ## A line in front of a text -/

section
variable {text more eol : List Char}

theorem lines_append_feed (h : '\n' ∉ text) (more : List Char) :
    lines (text ++ '\n' :: more) = (text ++ ['\n']) :: lines more := by
  induction text with
  | nil => rfl
  | cons c rest ih =>
    obtain ⟨hc, hrest⟩ := not_or.1 (mt List.mem_cons.2 h)
    rcases lines_cons (Ne.symm hc) (rest ++ '\n' :: more) with ⟨hn, -⟩ | ⟨line, below, hl, hcons⟩
    · simp at hn
    · rw [ih hrest] at hl
      obtain ⟨rfl, rfl⟩ := List.cons.inj hl
      exact hcons

theorem lines_of_notMem (hne : text ≠ []) (h : '\n' ∉ text) : lines text = [text] := by
  induction text with
  | nil => exact absurd rfl hne
  | cons c rest ih =>
    obtain ⟨hc, hrest⟩ := not_or.1 (mt List.mem_cons.2 h)
    rcases lines_cons (Ne.symm hc) rest with ⟨rfl, hcons⟩ | ⟨line, below, hl, hcons⟩
    · exact hcons
    · have hr : rest ≠ [] := by
        rintro rfl
        cases hl
      rw [ih hr hrest] at hl
      obtain ⟨rfl, rfl⟩ := List.cons.inj hl
      exact hcons

theorem withoutBreak_append (h : text.getLast? ≠ some '\r')
    (heol : eol = ['\n'] ∨ eol = ['\r', '\n']) :
    withoutBreak (text ++ eol) = text := by
  rw [List.getLast?_eq_head?_reverse] at h
  rcases heol with rfl | rfl
  · rw [withoutBreak, List.reverse_append, List.reverse_singleton, List.singleton_append]
    split
    · next rest hr =>
      rw [(List.cons.inj hr).2] at h
      exact absurd rfl h
    · next rest _ hr => rw [← (List.cons.inj hr).2, List.reverse_reverse]
    · next _ hne => exact absurd rfl (hne _)
  · simp [withoutBreak]

/-- A line, `text` with its break `eol`, is the first one of the lines in front of which it stands.
-/
theorem lineContents_append (hfeed : '\n' ∉ text) (hreturn : text.getLast? ≠ some '\r')
    (heol : eol = ['\n'] ∨ eol = ['\r', '\n']) :
    lineContents (text ++ (eol ++ more)) = text :: lineContents more := by
  have hlines : lines (text ++ (eol ++ more)) = (text ++ eol) :: lines more := by
    rcases heol with rfl | rfl
    · exact lines_append_feed hfeed more
    · have hreturned : '\n' ∉ text ++ ['\r'] := by simpa using hfeed
      simpa using lines_append_feed hreturned more
  rw [lineContents, hlines, List.map_cons, withoutBreak_append hreturn heol, lineContents]

end

end AgentDocs.Text
