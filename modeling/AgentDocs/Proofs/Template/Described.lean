import AgentDocs.Proofs.Text.Joined
import AgentDocs.Proofs.Yaml.Field
import AgentDocs.Template.Frontmatter
import AgentDocs.Yaml.Scalar.Written

/-!
# The description of a header that cannot be read

A header begins with a field that would be read if it stood alone. If what follows keeps the header
from being read, the description is what the fallback finds on the first line: the same one, unless
the fallback trims more than the spaces and the quotes around the scalar. It trims every blank
character and every quote it meets at either end.

* `trimMatches_trim_of_spells`, `eq_of_description?`: both ways lead to the text of the scalar.
* `description?_append_of_not_isValid`: the description is kept.
* `description?_append_ne`: scalars of which the fallback trims too much, or too little.
-/

namespace AgentDocs.Template

open AgentDocs.Text AgentDocs.Yaml

section
variable {v text more eol d : List Char} {style : Style}

/-! ## The value on its line -/

/-- The quotes that the fallback takes off. -/
def isQuote (c : Char) : Bool := c == '"' || c == '\''

theorem isQuote_quote (single : Bool) : isQuote (quote single) = true := by
  cases single <;> decide

theorem isBlank_of_isSpaces (h : IsSpaces text) : ∀ c ∈ text, isBlank c = true := by
  intro c hc
  rcases (by simpa [isSpace] using h c hc : c = ' ' ∨ c = '\t') with rfl | rfl <;> decide

/-- What the fallback makes of the value `v` is its scalar, if neither end of that is a quote and no
end of a plain one is blank. -/
theorem trimMatches_trim_of_spells (h : Spells v style text)
    (hquotes : hasAtEnds isQuote text = false)
    (hblanks : style = .plain → hasAtEnds isBlank text = false) :
    trimMatches isQuote (trim (' ' :: v)) = text := by
  rw [hasAtEnds, Bool.or_eq_false_iff] at hquotes
  have hstart (front : List Char) (h : IsSpaces front) : ∀ c ∈ ' ' :: front, isBlank c = true :=
    isBlank_of_isSpaces (List.forall_mem_cons.2 ⟨by decide, h⟩)
  change trimMatches isQuote (trimMatches isBlank (' ' :: v)) = text
  cases h with
  | @plain front _ back hfront h hback =>
    have hblanks := hblanks rfl
    rw [hasAtEnds, Bool.or_eq_false_iff] at hblanks
    have htrim : trimMatches isBlank (' ' :: (front ++ (text ++ back))) = text := by
      simpa using trimMatches_append_append (hstart front hfront) (isBlank_of_isSpaces hback)
        hblanks.1 hblanks.2
    rw [htrim]
    simpa using trimMatches_append_append (a := []) (b := []) nofun nofun hquotes.1 hquotes.2
  | @quoted single front _ back hfront h hback =>
    have hquote : isBlank (quote single) = false := by cases single <;> decide
    have htrim : trimMatches isBlank
        (' ' :: (front ++ quote single :: (text ++ quote single :: back))) =
          quote single :: (text ++ [quote single]) := by
      have hfirst : (quote single :: (text ++ [quote single])).head?.any isBlank = false := hquote
      have hlast : (quote single :: (text ++ [quote single])).getLast?.any isBlank = false := by
        rw [← List.cons_append, List.getLast?_concat]
        exact hquote
      simpa using trimMatches_append_append (hstart front hfront) (isBlank_of_isSpaces hback)
        hfirst hlast
    have hends : ∀ c ∈ [quote single], isQuote c = true := by simp [isQuote_quote]
    rw [htrim]
    exact trimMatches_append_append hends hends hquotes.1 hquotes.2

theorem describedOnLine?_field (hbreak : ∀ c ∈ v, isBreak c = false)
    (heol : eol = ['\n'] ∨ eol = ['\r', '\n']) :
    describedOnLine? (field ++ v ++ (eol ++ more)) =
      some (trimMatches isQuote (trim (' ' :: v))) := by
  have hfield : field.all (!isBreak ·) = true := by decide
  have hline : ∀ c ∈ field ++ v, isBreak c = false :=
    List.forall_mem_append.2 ⟨by simpa using hfield, hbreak⟩
  have hfeed : '\n' ∉ field ++ v := fun h => absurd (hline _ h) (by decide)
  have hreturn : (field ++ v).getLast? ≠ some '\r' := fun h =>
    absurd (hline _ (List.mem_of_getLast? h)) (by decide)
  rw [describedOnLine?, lineContents_append hfeed hreturn heol]
  rfl

/-! ## The value in the header -/

theorem eq_of_description? (h : Spells v style text) (hvalid : IsValid (field ++ v))
    (hd : description? (field ++ v) = some d) : d = text := by
  obtain ⟨value, hvalid⟩ := hvalid
  obtain ⟨w, hw, rfl⟩ := Value.ofText_field h hvalid
  have hraw : rawDescription? (field ++ v) = w.text?.map String.toList := by
    rw [rawDescription?, hvalid]
    rfl
  rw [description?, hraw, Option.filter_eq_some_iff] at hd
  obtain ⟨s, hs, rfl⟩ := Option.map_eq_some_iff.1 hd.1
  rw [Value.eq_of_text?_ofScalar hw hs, String.toList_ofList]

/-- A header that begins with a field which can be read, but cannot be read itself, is described as
the field alone is, if neither end of the description `d` is a quote and, where it is written plain,
no end of it is blank. -/
theorem description?_append_of_not_isValid (h : Spells v style text) (hvalid : IsValid (field ++ v))
    (hd : description? (field ++ v) = some d) (hquotes : hasAtEnds isQuote d = false)
    (hblanks : style = .plain → hasAtEnds isBlank d = false)
    (heol : eol = ['\n'] ∨ eol = ['\r', '\n'])
    (hinvalid : ¬ IsValid (field ++ v ++ (eol ++ more))) :
    description? (field ++ v ++ (eol ++ more)) = some d := by
  obtain rfl := eq_of_description? h hvalid hd
  rw [description?, Option.filter_eq_some_iff] at hd ⊢
  refine ⟨?_, hd.2⟩
  have hline : describedOnLine? (field ++ v ++ (eol ++ more)) = some d := by
    rw [describedOnLine?_field h.isBreak heol, trimMatches_trim_of_spells h hquotes hblanks]
  rw [rawDescription?]
  split
  · next hvalue => exact absurd ⟨_, hvalue⟩ hinvalid
  · next hvalue => exact absurd ⟨_, hvalue⟩ hinvalid
  · exact hline

theorem description?_append_of_not_isValid_plain :
    description? (field ++ "  say \"it's\" so\t".toList ++ ("\r\n".toList ++ "x: [\r\n".toList)) =
      some "say \"it's\" so".toList := by
  have hspells : Spells ("  ".toList ++ ("say \"it's\" so".toList ++ "\t".toList)) .plain
      "say \"it's\" so".toList := .plain (by decide) (by decide) (by decide)
  exact description?_append_of_not_isValid hspells (by decide +kernel) (by decide +kernel)
    (by decide) (by decide) (.inr rfl) (by decide +kernel)

/-- A plain scalar that ends with a quote. -/
def endsQuoted : List Char := "say \"hi\"".toList

/-- A plain scalar that ends with a blank character which is no space: one that keeps words
together. -/
def endsBlank : List Char := "so\u00A0".toList

/-- A plain scalar that nothing is trimmed of. -/
def plainWord : List Char := "so".toList

/-- A line with a bracket that is never closed. -/
def unclosed : List Char := "\nx: [\n".toList

/-- The same line behind a carriage return, which ends the line before it for the lexer only. -/
def returned : List Char := "\rx: [\n".toList

/-- A quote at one end of a description is lost, and so is a blank character at an end of one that
is written plain. A line that ends with a carriage return alone is taken with the next one. -/
theorem description?_append_ne :
    (Spells endsQuoted .plain endsQuoted ∧ IsValid (field ++ endsQuoted) ∧
      description? (field ++ endsQuoted) = some endsQuoted ∧
      ¬ IsValid (field ++ endsQuoted ++ unclosed) ∧
      description? (field ++ endsQuoted ++ unclosed) ≠ some endsQuoted) ∧
    (Spells endsBlank .plain endsBlank ∧ IsValid (field ++ endsBlank) ∧
      description? (field ++ endsBlank) = some endsBlank ∧
      ¬ IsValid (field ++ endsBlank ++ unclosed) ∧
      description? (field ++ endsBlank ++ unclosed) ≠ some endsBlank) ∧
    Spells plainWord .plain plainWord ∧ IsValid (field ++ plainWord) ∧
      description? (field ++ plainWord) = some plainWord ∧
      ¬ IsValid (field ++ plainWord ++ returned) ∧
      description? (field ++ plainWord ++ returned) ≠ some plainWord :=
  ⟨⟨.of_isPlain (by decide), by decide +kernel⟩, ⟨.of_isPlain (by decide), by decide +kernel⟩,
    .of_isPlain (by decide), by decide +kernel⟩

end

end AgentDocs.Template
