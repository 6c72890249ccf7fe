import AgentDocs.Proofs.Text.Joined
import AgentDocs.Template.Fence

/-!
# The scan of a text

A scan sees nothing but the fences of a text. Blanks in front of a text and behind it, line breaks
among them, leave its fences as they are.

* `finalState_append`, `finalState_eq_foldl`: the state behind some lines.
* `finalState_of_blank`: blanks around a text.
-/

namespace AgentDocs.Template

open AgentDocs.Text

/-! ## Lines in a row -/

theorem finalState_cons (state : ScanState) (line : List Char) (rest : List (List Char)) :
    finalState state (line :: rest) = finalState (state.step line) rest := rfl

theorem finalState_append (state : ScanState) (a b : List (List Char)) :
    finalState state (a ++ b) = finalState (finalState state a) b :=
  List.foldl_append

/-- The `state` behind some lines is told by the fences among them. -/
theorem finalState_eq_foldl (state : ScanState) (ls : List (List Char)) :
    finalState state ls = (ls.filterMap Fence.parse?).foldl ScanState.onFence state := by
  induction ls generalizing state with
  | nil => rfl
  | cons line rest ih =>
    rw [finalState_cons, ih, ScanState.step]
    cases hf : Fence.parse? line with
    | none => rw [List.filterMap_cons_none hf]
    | some fence => rw [List.filterMap_cons_some hf, List.foldl_cons]

/-! ## Blanks at the ends of a line -/

section
variable {c : Char} (hc : isBlank c = true)
include hc

theorem trimStart_concat (text : List Char) :
    trimStart (text ++ [c]) = [] ∧ trimStart text = [] ∨
      trimStart (text ++ [c]) = trimStart text ++ [c] := by
  unfold trimStart
  rw [List.dropWhile_append]
  by_cases h : text.dropWhile isBlank = []
  · left
    simp [h, hc]
  · right
    simp [h]

theorem trim_concat (text : List Char) : trim (text ++ [c]) = trim text := by
  unfold trim trimEnd dropEndWhile
  rcases trimStart_concat hc text with ⟨h, hn⟩ | h
  · rw [h, hn]
  · simp [h, hc]

theorem parse?_cons (line : List Char) : Fence.parse? (c :: line) = Fence.parse? line := by
  have hstart : trimStart (c :: line) = trimStart line := List.dropWhile_cons_of_pos hc
  simp only [Fence.parse?, hstart]

theorem parse?_concat (line : List Char) : Fence.parse? (line ++ [c]) = Fence.parse? line := by
  have hmark : (c == fenceMark) = false := by
    rw [beq_eq_false_iff_ne]
    rintro rfl
    exact absurd hc (by decide)
  rcases trimStart_concat hc line with ⟨h, hn⟩ | h
  · simp only [Fence.parse?, h, hn]
  · have htake : (trimStart line ++ [c]).takeWhile (· == fenceMark) =
        (trimStart line).takeWhile (· == fenceMark) := by
      rw [List.takeWhile_append]
      split
      · next hall =>
        have hself : (trimStart line).takeWhile (· == fenceMark) <+: trimStart line :=
          List.takeWhile_prefix _
        simp [hmark, hself.eq_of_length hall]
      · rfl
    have hdrop : (trimStart line ++ [c]).dropWhile (· == fenceMark) =
        (trimStart line).dropWhile (· == fenceMark) ++ [c] := by
      rw [List.dropWhile_append]
      split
      · next hnil => simp [hmark, List.isEmpty_iff.1 hnil]
      · rfl
    simp only [Fence.parse?, h, htake, hdrop, trim_concat hc]

end

/-! ## Blanks at the ends of a text -/

/-- The fences of a text, in order. -/
def fences (text : List Char) : List Fence := (lines text).filterMap Fence.parse?

theorem parse?_single {c : Char} (hc : isBlank c = true) : Fence.parse? [c] = none := by
  rw [parse?_cons hc]
  rfl

theorem fences_cons {c : Char} (hc : isBlank c = true) (text : List Char) :
    fences (c :: text) = fences text := by
  unfold fences
  by_cases hn : c = '\n'
  · subst hn
    rw [lines_feed, List.filterMap_cons_none (parse?_single hc)]
  · rcases lines_cons hn text with ⟨rfl, hcons⟩ | ⟨line, more, hl, hcons⟩
    · rw [hcons, List.filterMap_cons_none (parse?_single hc)]
      rfl
    · rw [hcons, hl, List.filterMap_cons, List.filterMap_cons, parse?_cons hc]

theorem fences_concat {c : Char} (hc : isBlank c = true) (text : List Char) :
    fences (text ++ [c]) = fences text := by
  unfold fences
  rcases lines_concat text c with h | ⟨front, last, hl, h⟩
  · rw [h, List.filterMap_append, List.filterMap_cons_none (parse?_single hc),
      List.filterMap_nil, List.append_nil]
  · rw [h, hl, List.filterMap_append, List.filterMap_append, List.filterMap_cons,
      List.filterMap_cons, parse?_concat hc]

theorem fences_of_blank_left {before : List Char} (h : ∀ c ∈ before, isBlank c = true)
    (text : List Char) : fences (before ++ text) = fences text := by
  induction before with
  | nil => rfl
  | cons c rest ih =>
    rw [List.forall_mem_cons] at h
    rw [List.cons_append, fences_cons h.1, ih h.2]

theorem fences_of_blank_right {after : List Char} (h : ∀ c ∈ after, isBlank c = true)
    (text : List Char) : fences (text ++ after) = fences text := by
  induction after generalizing text with
  | nil => rw [List.append_nil]
  | cons c rest ih =>
    rw [List.forall_mem_cons] at h
    have hcons : text ++ c :: rest = (text ++ [c]) ++ rest := by simp
    rw [hcons, ih h.2, fences_concat h.1]

/-- Blanks `before` and `after` a text do not show in the scan. -/
theorem finalState_of_blank {before after : List Char} (hb : ∀ c ∈ before, isBlank c = true)
    (ha : ∀ c ∈ after, isBlank c = true) (state : ScanState) (text : List Char) :
    finalState state (lines (before ++ text ++ after)) = finalState state (lines text) := by
  have hfences : fences (before ++ text ++ after) = fences text := by
    rw [fences_of_blank_right ha, fences_of_blank_left hb]
  unfold fences at hfences
  rw [finalState_eq_foldl, finalState_eq_foldl, hfences]

end AgentDocs.Template
