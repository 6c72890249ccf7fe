/-!
# Lines and line breaks

A text is cut into lines that keep their line feed, so that joining them gives the text back.
Carriage returns are brought to line feeds by one rule for the whole project.

* `flatten_lines`: the lines of a text joined are the text.
* `carriageReturn_notMem_normalizeBreaks`: a normalized text holds no carriage return.
-/

namespace AgentDocs.Text

/-! ## Lines -/

/-- The lines of a text, each with its line feed; the last one may lack it. -/
def lines : List Char → List (List Char)
  | [] => []
  | c :: rest =>
    if c = '\n' then [c] :: lines rest
    else match lines rest with
      | [] => [[c]]
      | line :: more => (c :: line) :: more

theorem flatten_lines (text : List Char) : (lines text).flatten = text := by
  induction text with
  | nil => rfl
  | cons c rest ih =>
    unfold lines
    split
    · simp [ih]
    · split
      · next h => rw [h] at ih; simp at ih; simp [← ih]
      · next line more h => rw [h] at ih; simp at ih; simp [← ih]

theorem lines_ne_nil {text line : List Char} (h : line ∈ lines text) : line ≠ [] := by
  induction text generalizing line with
  | nil => cases h
  | cons c rest ih =>
    unfold lines at h
    split at h
    · rcases List.mem_cons.1 h with rfl | h
      · simp
      · exact ih h
    · split at h
      · simp at h; simp [h]
      · next l m hl =>
        rcases List.mem_cons.1 h with rfl | h
        · simp
        · exact ih (by rw [hl]; exact List.mem_cons_of_mem _ h)

/-- A line without its break: one line feed, and one carriage return in front of it. -/
def withoutBreak (line : List Char) : List Char :=
  match line.reverse with
  | '\n' :: '\r' :: rest => rest.reverse
  | '\n' :: rest => rest.reverse
  | _ => line

/-- The contents of the lines of a text, without their breaks. -/
def lineContents (text : List Char) : List (List Char) := (lines text).map withoutBreak

/-! ## Line breaks -/

/-- Every carriage return in front of a line feed is dropped. -/
def joinPairedBreaks : List Char → List Char
  | [] => []
  | '\r' :: '\n' :: rest => '\n' :: joinPairedBreaks rest
  | c :: rest => c :: joinPairedBreaks rest

/-- Every carriage return becomes a line feed. -/
def convertLoneBreaks (text : List Char) : List Char :=
  text.map fun c => if c = '\r' then '\n' else c

/-- A text with line feeds as its only line breaks: pairs are joined first, then the carriage
returns that stand alone are converted. -/
def normalizeBreaks (text : List Char) : List Char :=
  if text.contains '\r' then convertLoneBreaks (joinPairedBreaks text) else text

/-- `normalizeBreaks` on strings. -/
def normalized (s : String) : String := String.ofList (normalizeBreaks s.toList)

theorem carriageReturn_notMem_convertLoneBreaks (text : List Char) :
    '\r' ∉ convertLoneBreaks text := by
  intro h
  obtain ⟨c, -, hc⟩ := List.mem_map.1 h
  split at hc
  · exact absurd hc (by decide)
  · next hne => exact hne hc

theorem carriageReturn_notMem_normalizeBreaks (text : List Char) :
    '\r' ∉ normalizeBreaks text := by
  unfold normalizeBreaks
  split
  · exact carriageReturn_notMem_convertLoneBreaks _
  · next h => simpa using h

end AgentDocs.Text
