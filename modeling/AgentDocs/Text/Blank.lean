/-!
# Blank characters

The Unicode property White_Space and the trimming of texts by it. Texts are lists of characters
here, so that every rule is a statement about lists.

* `trimMatches_append_append`: trimming takes the surroundings of a text and no more.
-/

namespace AgentDocs.Text

/-- The characters that have the Unicode property White_Space. -/
def isBlank (c : Char) : Bool :=
  let n := c.toNat
  (9 ≤ n && n ≤ 13) || n == 0x20 || n == 0x85 || n == 0xA0 || n == 0x1680 ||
    (0x2000 ≤ n && n ≤ 0x200A) || n == 0x2028 || n == 0x2029 || n == 0x202F ||
    n == 0x205F || n == 0x3000

/-- A text without the blank characters at its start. -/
def trimStart (text : List Char) : List Char := text.dropWhile isBlank

/-- A text without the characters at its end that satisfy `p`. -/
def dropEndWhile (p : Char → Bool) (text : List Char) : List Char :=
  (text.reverse.dropWhile p).reverse

/-- A text without the blank characters at its end. -/
def trimEnd (text : List Char) : List Char := dropEndWhile isBlank text

/-- A text without the blank characters at both ends. -/
def trim (text : List Char) : List Char := trimEnd (trimStart text)

/-- A text without the characters at both ends that satisfy `p`. -/
def trimMatches (p : Char → Bool) (text : List Char) : List Char :=
  dropEndWhile p (text.dropWhile p)

/-- A string without the blank characters at both ends. -/
def trimmed (s : String) : String := String.ofList (trim s.toList)

theorem dropWhile_eq_nil_iff {p : Char → Bool} {text : List Char} :
    text.dropWhile p = [] ↔ ∀ c ∈ text, p c = true := by
  induction text with
  | nil => simp
  | cons c rest ih => by_cases h : p c = true <;> simp [h, ih]

theorem dropEndWhile_eq_nil_iff {p : Char → Bool} {text : List Char} :
    dropEndWhile p text = [] ↔ ∀ c ∈ text, p c = true := by
  rw [dropEndWhile, List.reverse_eq_nil_iff, dropWhile_eq_nil_iff]
  simp only [List.mem_reverse]

section
variable {p : Char → Bool} {a b text : List Char}

theorem dropEndWhile_append_of_pos (hb : ∀ c ∈ b, p c = true) :
    dropEndWhile p (a ++ b) = dropEndWhile p a := by
  rw [dropEndWhile, dropEndWhile, List.reverse_append, List.dropWhile_append_of_pos]
  simpa only [List.mem_reverse] using hb

theorem dropEndWhile_append (hb : dropEndWhile p b ≠ []) :
    dropEndWhile p (a ++ b) = a ++ dropEndWhile p b := by
  have hb : (b.reverse.dropWhile p).isEmpty = false := by simpa [dropEndWhile] using hb
  rw [dropEndWhile, dropEndWhile, List.reverse_append, List.dropWhile_append, hb]
  simp

theorem dropEndWhile_eq_self (h : text.getLast?.any p = false) : dropEndWhile p text = text := by
  rw [List.getLast?_eq_head?_reverse] at h
  rw [dropEndWhile]
  cases hr : text.reverse with
  | nil => exact (List.reverse_eq_nil_iff.1 hr).symm
  | cons c rest =>
    rw [hr] at h
    rw [List.dropWhile_cons_of_neg (by simpa using h), ← hr, List.reverse_reverse]

/-- Trimming the end of `b` does not reach back over the last character of `a`, which is kept. -/
theorem dropEndWhile_append_of_getLast? (ha : a.getLast?.any p = false) :
    dropEndWhile p (a ++ b) = a ++ dropEndWhile p b := by
  by_cases hb : dropEndWhile p b = []
  · rw [dropEndWhile_append_of_pos (dropEndWhile_eq_nil_iff.1 hb), dropEndWhile_eq_self ha, hb,
      List.append_nil]
  · exact dropEndWhile_append hb

/-- Of a `text` between `a` and `b`, which are trimmed, `text` is left. -/
theorem trimMatches_append_append (ha : ∀ c ∈ a, p c = true) (hb : ∀ c ∈ b, p c = true)
    (hfirst : text.head?.any p = false) (hlast : text.getLast?.any p = false) :
    trimMatches p (a ++ text ++ b) = text := by
  rw [trimMatches, List.append_assoc, List.dropWhile_append_of_pos ha]
  cases text with
  | nil =>
    rw [List.nil_append, dropWhile_eq_nil_iff.2 hb]
    rfl
  | cons c rest =>
    have hc : ¬ p c = true := by simpa using hfirst
    rw [List.cons_append, List.dropWhile_cons_of_neg hc, ← List.cons_append,
      dropEndWhile_append_of_pos hb, dropEndWhile_eq_self hlast]

end

end AgentDocs.Text
