import Mathlib.Logic.ExistsUnique
import AgentDocs.Text.Line

/-!
# Line breaks

A line ends with a carriage return and a line feed, with a carriage return alone or with a line feed
alone. Read from left to right every text is one sequence of contents with one break between two of
them, and normalizing writes this sequence with line feeds: two texts are normalized to the same
text exactly where they are read as the same sequence.

* `convertLoneBreaks_joinPairedBreaks`, `normalizeBreaks_eq_onePass`: two replacements, one pass.
* `reads_iff`: the sequence of contents that a text is read as.
* `normalizeBreaks_exact`: what normalizing keeps of a text, and what it does not.
-/

namespace AgentDocs.Text

/-! ## Texts without carriage returns -/

section
variable {text a : List Char}

theorem convertLoneBreaks_of_notMem (h : '\r' ∉ text) : convertLoneBreaks text = text := by
  refine List.map_congr_left (fun c hc => ?_) |>.trans (List.map_id text)
  have hne : c ≠ '\r' := fun he => h (he ▸ hc)
  simp [hne]

theorem joinPairedBreaks_append (h : '\r' ∉ a) (b : List Char) :
    joinPairedBreaks (a ++ b) = a ++ joinPairedBreaks b := by
  induction a with
  | nil => rfl
  | cons c rest ih =>
    rw [List.mem_cons, not_or] at h
    rw [List.cons_append, joinPairedBreaks, ih h.2, List.cons_append]
    intro _ hr _
    exact h.1 hr.symm

theorem normalizeBreaks_of_notMem (h : '\r' ∉ text) : normalizeBreaks text = text := by
  rw [normalizeBreaks, if_neg (by simpa using h)]

/-- What stands in front of the first carriage return, `a`, is normalized already. -/
theorem normalizeBreaks_append (h : '\r' ∉ a) (b : List Char) :
    normalizeBreaks (a ++ b) = a ++ normalizeBreaks b := by
  have hc : (a ++ b).contains '\r' = b.contains '\r' := by
    have ha : a.contains '\r' = false := by simpa using h
    rw [List.contains_append, ha, Bool.false_or]
  rw [normalizeBreaks, normalizeBreaks, hc, joinPairedBreaks_append h]
  split
  · rw [convertLoneBreaks, List.map_append, ← convertLoneBreaks, convertLoneBreaks_of_notMem h]
    rfl
  · rfl

theorem normalizeBreaks_idempotent (text : List Char) :
    normalizeBreaks (normalizeBreaks text) = normalizeBreaks text :=
  normalizeBreaks_of_notMem (carriageReturn_notMem_normalizeBreaks text)

end

/-! ## One pass -/

/-- A text in one pass from left to right, with a line feed for every break. -/
def onePass : List Char → List Char
  | [] => []
  | '\r' :: '\n' :: rest => '\n' :: onePass rest
  | '\r' :: rest => '\n' :: onePass rest
  | c :: rest => c :: onePass rest

/-- A carriage return is still in front of its line feed when the first replacement comes to it. -/
theorem convertLoneBreaks_joinPairedBreaks (text : List Char) :
    convertLoneBreaks (joinPairedBreaks text) = onePass text := by
  fun_induction onePass text with
  | case1 => rfl
  | case2 rest ih =>
    rw [joinPairedBreaks, ← ih]
    rfl
  | case3 rest hfeed ih =>
    rw [joinPairedBreaks, ← ih]
    · rfl
    · intro more _ he
      exact hfeed more he
  | case4 c rest _ hreturn ih =>
    have hc : c ≠ '\r' := hreturn
    rw [joinPairedBreaks, ← ih]
    · simp [convertLoneBreaks, hc]
    · intro _ he _
      exact hc he

theorem normalizeBreaks_eq_onePass (text : List Char) : normalizeBreaks text = onePass text := by
  rw [← convertLoneBreaks_joinPairedBreaks]
  by_cases h : '\r' ∈ text
  · rw [normalizeBreaks, if_pos (by simpa using h)]
  · have hjoin : joinPairedBreaks text = text := by
      simpa [joinPairedBreaks] using joinPairedBreaks_append h []
    rw [normalizeBreaks_of_notMem h, hjoin, convertLoneBreaks_of_notMem h]

/-! ## Contents and breaks -/

/-- A text has no character that breaks a line. -/
def Unbroken (text : List Char) : Prop := '\r' ∉ text ∧ '\n' ∉ text

/-- A break stands in front of a text. A carriage return is one without a line feed only where no
line feed follows. -/
inductive BreaksBefore : List Char → List Char → Prop
  | pair (rest : List Char) : BreaksBefore ['\r', '\n'] rest
  | carriageReturn {rest : List Char} (h : rest.head? ≠ some '\n') : BreaksBefore ['\r'] rest
  | lineFeed (rest : List Char) : BreaksBefore ['\n'] rest

/-- A text is read from left to right as contents with one break between two of them. -/
inductive Reads : List Char → List (List Char) → Prop
  | last {content : List Char} (h : Unbroken content) : Reads content [content]
  | line {content eol rest : List Char} {contents : List (List Char)} (h : Unbroken content)
      (heol : BreaksBefore eol rest) (hrest : Reads rest contents) :
      Reads (content ++ eol ++ rest) (content :: contents)

section
variable {text eol rest : List Char} {contents : List (List Char)}

theorem Reads.ne_nil (h : Reads text contents) : contents ≠ [] := by
  cases h <;> exact List.cons_ne_nil _ _

theorem Reads.unbroken (h : Reads text contents) : ∀ content ∈ contents, Unbroken content := by
  induction h with
  | last h => exact List.forall_mem_singleton.2 h
  | line h _ _ ih => exact List.forall_mem_cons.2 ⟨h, ih⟩

/-- One more character `c`, which is no break, lengthens the first content. -/
theorem Reads.exists_cons {c : Char} (hc : Unbroken [c]) (h : Reads text contents) :
    ∃ contents, Reads (c :: text) contents := by
  have hcons : ∀ {content}, Unbroken content → Unbroken (c :: content) := by
    intro content hu
    simp only [Unbroken, List.mem_cons, List.not_mem_nil, or_false, not_or] at hc hu ⊢
    exact ⟨⟨hc.1, hu.1⟩, hc.2, hu.2⟩
  cases h with
  | last hu => exact ⟨_, .last (hcons hu)⟩
  | line hu heol hrest => exact ⟨_, .line (hcons hu) heol hrest⟩

/-- A break `eol` in front of a text makes one more line, which is empty. -/
theorem BreaksBefore.reads (heol : BreaksBefore eol rest) (h : Reads rest contents) :
    Reads (eol ++ rest) ([] :: contents) :=
  .line ⟨List.not_mem_nil, List.not_mem_nil⟩ heol h

theorem exists_reads (text : List Char) : ∃ contents, Reads text contents := by
  -- The pass has one case for each break, and one for the characters that are kept, line feeds
  -- included.
  fun_induction onePass text with
  | case1 => exact ⟨_, .last ⟨List.not_mem_nil, List.not_mem_nil⟩⟩
  | case2 rest ih =>
    obtain ⟨contents, h⟩ := ih
    exact ⟨_, (BreaksBefore.pair rest).reads h⟩
  | case3 rest hfeed ih =>
    obtain ⟨contents, h⟩ := ih
    have hhead : rest.head? ≠ some '\n' := by
      intro he
      obtain ⟨more, rfl⟩ := List.head?_eq_some_iff.1 he
      exact hfeed more rfl
    exact ⟨_, (BreaksBefore.carriageReturn hhead).reads h⟩
  | case4 c rest _ hreturn ih =>
    obtain ⟨contents, h⟩ := ih
    by_cases hc : c = '\n'
    · subst hc
      exact ⟨_, (BreaksBefore.lineFeed rest).reads h⟩
    · have hu : Unbroken [c] := by
        simp only [Unbroken, List.mem_singleton]
        exact ⟨Ne.symm hreturn, Ne.symm hc⟩
      exact h.exists_cons hu

/-- A break `eol` of any spelling is written as a line feed. -/
theorem BreaksBefore.normalizeBreaks_append (h : BreaksBefore eol rest) :
    normalizeBreaks (eol ++ rest) = '\n' :: normalizeBreaks rest := by
  simp only [normalizeBreaks_eq_onePass]
  cases h with
  | pair => rfl
  | carriageReturn hhead =>
    cases rest with
    | nil => rfl
    | cons c more =>
      have hc : c ≠ '\n' := by simpa using hhead
      simp [onePass, hc]
  | lineFeed => simp [onePass]

/-- The `contents` of a text are kept, and between them stand line feeds. -/
theorem Reads.normalizeBreaks_eq (h : Reads text contents) :
    normalizeBreaks text = ['\n'].intercalate contents := by
  induction h with
  | last h => rw [normalizeBreaks_of_notMem h.1, List.intercalate_singleton]
  | line h heol hrest ih =>
    rw [List.intercalate_cons_of_ne_nil hrest.ne_nil, List.append_assoc,
      Text.normalizeBreaks_append h.1, heol.normalizeBreaks_append, ih, List.append_assoc]
    rfl

theorem Reads.splitOn_eq (h : Reads text contents) :
    (normalizeBreaks text).splitOn '\n' = contents := by
  rw [h.normalizeBreaks_eq]
  exact List.splitOn_intercalate '\n' (fun content hc => (h.unbroken content hc).2) h.ne_nil

/-- A text is read in one way, which `normalizeBreaks` shows. -/
theorem reads_iff : Reads text contents ↔ contents = (normalizeBreaks text).splitOn '\n' := by
  constructor
  · intro h
    exact h.splitOn_eq.symm
  · rintro rfl
    obtain ⟨contents, h⟩ := exists_reads text
    rwa [h.splitOn_eq]

end

/-- Two texts are normalized to the same text exactly where they are read as the same contents, with
a pair, any other carriage return and any other line feed as one break each. Every text is read in
one way, and its normal form is the text in one pass, whether by the replacements or, where it has
no carriage return, as it stands. -/
theorem normalizeBreaks_exact :
    (∀ x y, normalizeBreaks x = normalizeBreaks y ↔
      ∃ contents, Reads x contents ∧ Reads y contents) ∧
    ∀ text,
      (∃! contents, Reads text contents) ∧
      (∀ contents, Reads text contents → onePass text = ['\n'].intercalate contents) ∧
      '\r' ∉ normalizeBreaks text ∧
      normalizeBreaks (normalizeBreaks text) = normalizeBreaks text ∧
      normalizeBreaks text = onePass text ∧
      convertLoneBreaks (joinPairedBreaks text) = onePass text ∧
      ('\r' ∉ text → text = onePass text) := by
  refine ⟨fun x y => ⟨fun h => ?_, ?_⟩, fun text => ⟨?_, fun contents h => ?_,
    carriageReturn_notMem_normalizeBreaks text, normalizeBreaks_idempotent text,
    normalizeBreaks_eq_onePass text, convertLoneBreaks_joinPairedBreaks text, fun h => ?_⟩⟩
  · exact ⟨_, reads_iff.2 rfl, reads_iff.2 (by rw [h])⟩
  · rintro ⟨contents, hx, hy⟩
    rw [hx.normalizeBreaks_eq, hy.normalizeBreaks_eq]
  · exact ⟨_, reads_iff.2 rfl, fun _ h => reads_iff.1 h⟩
  · rw [← normalizeBreaks_eq_onePass, h.normalizeBreaks_eq]
  · rw [← normalizeBreaks_eq_onePass, normalizeBreaks_of_notMem h]

/-- Runs of carriage returns and line feeds with as many breaks, and two that differ in it. -/
theorem normalizeBreaks_exact_runs :
    (∃ contents, Reads "a\r\r\n\n\rb\r".toList contents ∧
        Reads "a\n\r\n\r\r\nb\n".toList contents) ∧
      (¬ ∃ contents, Reads "\n\r".toList contents ∧ Reads "\r\n".toList contents) ∧
      '\r' ∉ "plain\n".toList ∧ "plain\n".toList = onePass "plain\n".toList := by
  have hplain : '\r' ∉ "plain\n".toList := by decide
  refine ⟨(normalizeBreaks_exact.1 _ _).1 (by decide), fun h => ?_, hplain,
    (normalizeBreaks_exact.2 _).2.2.2.2.2.2 hplain⟩
  exact absurd ((normalizeBreaks_exact.1 _ _).2 h) (by decide)

end AgentDocs.Text
