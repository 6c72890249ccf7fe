import Mathlib.Data.List.Basic
import AgentDocs.Proofs.Text.Joined
import AgentDocs.Yaml.Scalar.Written

/-!
# What written texts leave alone

Whatever a text holds, its written form shows no carriage return, and no line of it begins with two
hyphens: a literal indents its lines, and the other forms stay on one line. A field therefore never
makes a line that marks a document or delimits a header.

The written form does not always end its last line. `endLine` takes any break at the end of a text
for the end of a line, and a literal may end with a separator of lines or of paragraphs, which ends
no line.

* `inert_written`, `inertLines_textField`, `inertLines_listField`: what fields are made of.
* `endsLine_endLine_written_iff`: the texts after which a line is not ended.
-/

namespace AgentDocs.Yaml

open AgentDocs.Text

/-! ## Texts that mark nothing -/

/-- A text may stand at the start of a line: it is empty, or one of its first two characters is not
a hyphen. -/
def Begins (text : List Char) : Prop := text ≠ [] → ∃ c ∈ text.take 2, c ≠ '-'

/-- A text shows no character that has to be escaped, and what follows a line feed in it may stand
at the start of a line. -/
structure Inert (text : List Char) : Prop where
  printable : ∀ c ∈ text, isPrintable c = true
  begins_after : ∀ front rest, text = front ++ '\n' :: rest → Begins rest

/-- A text is inert where it stands at the start of a line. -/
structure InertLines (text : List Char) : Prop extends Inert text where
  begins : Begins text

/-- A text shows no character that has to be escaped, and no line feed. -/
def OnOneLine (text : List Char) : Prop := ∀ c ∈ text, isPrintable c = true ∧ c ≠ '\n'

/-- A text may stand in front of another one on the first of its lines. -/
structure IsLabel (text : List Char) : Prop where
  on_one_line : OnOneLine text
  begins : Begins text

-- The instances run over the characters of the text; a search might find one that runs over all
-- characters there are.
instance (text : List Char) : Decidable (Begins text) :=
  have : Decidable (∃ c ∈ text.take 2, c ≠ '-') := List.decidableBEx (· ≠ '-') (text.take 2)
  inferInstanceAs (Decidable (text ≠ [] → ∃ c ∈ text.take 2, c ≠ '-'))

instance (text : List Char) : Decidable (OnOneLine text) :=
  List.decidableBAll (fun c => isPrintable c = true ∧ c ≠ '\n') text

instance (text : List Char) : Decidable (IsLabel text) :=
  decidable_of_iff (OnOneLine text ∧ Begins text) ⟨fun h => ⟨h.1, h.2⟩, fun h => ⟨h.1, h.2⟩⟩

section
variable {a b text : List Char}

theorem begins_nil : Begins [] := fun h => absurd rfl h

theorem begins_cons {c : Char} (h : c ≠ '-') (rest : List Char) : Begins (c :: rest) :=
  fun _ => ⟨c, by simp, h⟩

theorem Begins.append (ha : Begins a) (hb : a = [] → Begins b) : Begins (a ++ b) := by
  by_cases hn : a = []
  · subst hn
    exact hb rfl
  · intro _
    obtain ⟨c, hc, hne⟩ := ha hn
    refine ⟨c, ?_, hne⟩
    rw [List.take_append]
    exact List.mem_append_left _ hc

theorem OnOneLine.append (ha : OnOneLine a) (hb : OnOneLine b) : OnOneLine (a ++ b) :=
  List.forall_mem_append.2 ⟨ha, hb⟩

theorem OnOneLine.not_endsLine (h : OnOneLine text) : ¬ EndsLine text :=
  fun he => (h _ (List.mem_of_getLast? he)).2 rfl

/-- A text `b` behind the start of a line ends the line where it ends one on its own. -/
theorem OnOneLine.endsLine_append_iff (h : OnOneLine a) : EndsLine (a ++ b) ↔ EndsLine b := by
  refine ⟨fun he => ?_, fun he => he.append_left a⟩
  rcases endsLine_append_cases he with hb | ⟨-, ha⟩
  · exact hb
  · exact absurd ha h.not_endsLine

theorem OnOneLine.inert (h : OnOneLine text) : Inert text where
  printable c hc := (h c hc).1
  begins_after front rest he := by
    have hm : '\n' ∈ text := by simp [he]
    exact absurd rfl (h _ hm).2

theorem inert_nil : Inert [] := OnOneLine.inert (by simp [OnOneLine])

/-- Inert texts joined are inert, unless `a` ends a line and `b` cannot begin a line. -/
theorem Inert.append (ha : Inert a) (hb : Inert b) (h : EndsLine a → Begins b) :
    Inert (a ++ b) where
  printable := List.forall_mem_append.2 ⟨ha.printable, hb.printable⟩
  begins_after front rest he := by
    rcases List.append_eq_append_iff.1 he with ⟨more, hf, hrest⟩ | ⟨more, hf, hrest⟩
    · exact hb.begins_after more rest hrest
    · cases more with
      | nil => exact hb.begins_after [] rest (by simpa using hrest.symm)
      | cons c more =>
        obtain ⟨rfl, rfl⟩ := List.cons.inj hrest
        exact (ha.begins_after front more hf).append fun hn => h (by simp [hf, hn, EndsLine])

theorem OnOneLine.append_inert (ha : OnOneLine a) (hb : Inert b) : Inert (a ++ b) :=
  ha.inert.append hb fun he => absurd he ha.not_endsLine

theorem InertLines.append (ha : InertLines a) (hb : InertLines b) : InertLines (a ++ b) where
  toInert := ha.toInert.append hb.toInert fun _ => hb.begins
  begins := ha.begins.append fun _ => hb.begins

theorem inertLines_nil : InertLines [] := ⟨inert_nil, begins_nil⟩

theorem inertLines_flatten {texts : List (List Char)} (h : ∀ text ∈ texts, InertLines text) :
    InertLines texts.flatten := by
  induction texts with
  | nil => exact inertLines_nil
  | cons text rest ih =>
    rw [List.forall_mem_cons] at h
    exact h.1.append (ih h.2)

theorem inertLines_flatMap {α : Type} {items : List α} {f : α → List Char}
    (h : ∀ item ∈ items, InertLines (f item)) : InertLines (items.flatMap f) := by
  rw [List.flatMap_def]
  exact inertLines_flatten (List.forall_mem_map.2 h)

theorem IsLabel.append (ha : IsLabel a) (hb : IsLabel b) : IsLabel (a ++ b) :=
  ⟨ha.on_one_line.append hb.on_one_line, ha.begins.append fun _ => hb.begins⟩

/-- An inert text `b` stands inert behind the label `a`. -/
theorem IsLabel.before (ha : IsLabel a) (hb : Inert b) (hn : a ≠ []) : InertLines (a ++ b) where
  toInert := ha.on_one_line.append_inert hb
  begins := ha.begins.append fun h => absurd h hn

theorem inert_feed : Inert ['\n'] where
  printable := List.forall_mem_singleton.2 rfl
  begins_after front rest he := by
    have hlen : 1 = front.length + (rest.length + 1) := by
      simpa using congrArg List.length he
    have hr : rest = [] := List.eq_nil_of_length_eq_zero (by omega)
    exact hr ▸ begins_nil

theorem Inert.endLine (h : Inert text) : Inert (endLine text) := by
  rw [Yaml.endLine]
  split
  · exact h
  · exact h.append inert_feed fun _ => begins_cons (by decide) []

end

/-! ## The forms -/

section
variable {s : List Char}

theorem printable_of_isRaw (h : isRaw s = true) : ∀ c ∈ s, isPrintable c = true :=
  List.all_eq_true.1 (Bool.and_eq_true_iff.1 h).1

theorem Form.of_eq_literal_iff :
    Form.of s = .literal ↔
      '\n' ∈ s ∧ isRaw s = true ∧ s.getLast?.any isBlankSpace = false := by
  unfold Form.of
  split
  · next hm =>
    rw [List.contains_iff_mem] at hm
    split <;> simp_all
  · next hm =>
    rw [List.contains_iff_mem] at hm
    split
    · simp [hm]
    · split <;> simp [hm]

/-- A text that is written plain or in single quotes shows on one line. -/
theorem onOneLine_of_form (h : Form.of s = .plain ∨ Form.of s = .singleQuoted) : OnOneLine s := by
  unfold Form.of at h
  split at h
  · split at h <;> simp at h
  · next hm =>
    rw [List.contains_iff_mem] at hm
    split at h
    · simp at h
    · next hraw =>
      rw [Bool.or_eq_true, not_or, Bool.not_eq_true', Bool.not_eq_false] at hraw
      exact fun c hc => ⟨printable_of_isRaw hraw.1 c hc, fun he => hm (he ▸ hc)⟩

/-- A text with a break is not written plain. -/
theorem any_isBreak_of_form (h : Form.of s = .plain) : s.any isBreak = false := by
  unfold Form.of at h
  split at h
  · split at h <;> cases h
  · split at h
    · cases h
    · split at h
      · next hp => simp_all
      · cases h

end

/-! ### Quoted texts -/

theorem onOneLine_spaces (n : Nat) : OnOneLine (spaces n) := by
  intro c hc
  rw [List.eq_of_mem_replicate hc]
  decide

theorem eq_space_of_mem {indent : Nat} {afterBreak : Bool} {x : Char}
    (h : x ∈ if afterBreak then spaces indent else []) : x = ' ' := by
  split at h
  · exact List.eq_of_mem_replicate h
  · cases h

theorem mem_singleQuotedBody {indent : Nat} {afterBreak : Bool} {s : List Char} {x : Char}
    (h : x ∈ singleQuotedBody indent afterBreak s) : x ∈ s ∨ x = ' ' ∨ x = '\'' := by
  induction s generalizing afterBreak with
  | nil => exact .inr (.inl (eq_space_of_mem h))
  | cons c rest ih =>
    rw [singleQuotedBody] at h
    split at h
    · rcases List.mem_cons.1 h with rfl | h
      · exact .inl List.mem_cons_self
      · exact (ih h).imp_left (List.mem_cons_of_mem c)
    · rw [List.mem_append, List.mem_append] at h
      obtain (h | h) | h := h
      · exact .inr (.inl (eq_space_of_mem h))
      · split at h
        · exact .inr (.inr (by simpa using h))
        · exact .inl (List.mem_singleton.1 h ▸ List.mem_cons_self)
      · exact (ih h).imp_left (List.mem_cons_of_mem c)

theorem onOneLine_singleQuotedBody {s : List Char} (h : OnOneLine s) (indent : Nat)
    (afterBreak : Bool) : OnOneLine (singleQuotedBody indent afterBreak s) := by
  intro x hx
  rcases mem_singleQuotedBody hx with hm | rfl | rfl
  · exact h x hm
  · decide
  · decide

theorem onOneLine_hexDigits (n width : Nat) : OnOneLine (hexDigits n width) := by
  have hdigit : ∀ k < 16, isPrintable (hexDigit k) = true ∧ hexDigit k ≠ '\n' := by decide
  induction width generalizing n with
  | zero => simp [hexDigits, OnOneLine]
  | succ width ih =>
    rw [hexDigits]
    refine (ih (n / 16)).append ?_
    exact List.forall_mem_singleton.2 (hdigit (n % 16) (Nat.mod_lt n (by decide)))

theorem onOneLine_escape (c : Char) : OnOneLine (escape c) := by
  have hcode : ∀ mark n width, OnOneLine ['\\', mark] →
      OnOneLine ('\\' :: mark :: hexDigits n width) := fun _ _ _ h =>
    h.append (onOneLine_hexDigits _ _)
  unfold escape
  split
  -- The letters first; the escapes by number remain.
  any_goals decide
  dsimp only
  split
  · exact hcode 'x' _ _ (by decide)
  · split
    · exact hcode 'u' _ _ (by decide)
    · exact hcode 'U' _ _ (by decide)

theorem onOneLine_doubleQuotedBody (s : List Char) : OnOneLine (doubleQuotedBody s) := by
  intro x hx
  obtain ⟨c, -, hx⟩ := List.mem_flatMap.1 hx
  split at hx
  · exact onOneLine_escape c x hx
  · next hc =>
    obtain rfl := List.mem_singleton.1 hx
    simp only [Bool.or_eq_true, Bool.not_eq_true', not_or, Bool.not_eq_false] at hc
    refine ⟨hc.1.1.1, ?_⟩
    rintro rfl
    exact hc.1.1.2 rfl

/-! ### Literals -/

theorem onOneLine_literalMarks (s : List Char) : OnOneLine (literalMarks s) := by
  unfold literalMarks
  dsimp only
  refine OnOneLine.append (by split <;> decide) ?_
  split
  · decide
  · split
    · decide
    · split
      · decide
      · split <;> decide

/-- Every line of a literal is indented, or it begins with the break that ends it, as `afterBreak`
tells. -/
theorem inert_literalBody {indent : Nat} {s : List Char} (hi : 0 < indent)
    (h : ∀ c ∈ s, isPrintable c = true) (afterBreak : Bool) :
    Inert (literalBody indent afterBreak s) ∧
      (afterBreak = true → Begins (literalBody indent afterBreak s)) := by
  induction s generalizing afterBreak with
  | nil => exact ⟨inert_nil, fun _ => begins_nil⟩
  | cons c rest ih =>
    rw [List.forall_mem_cons] at h
    rw [literalBody]
    split
    · next hb =>
      obtain ⟨hrest, hbegins⟩ := ih h.2 true
      refine ⟨?_, fun _ => begins_cons (by rintro rfl; cases hb) _⟩
      by_cases hc : c = '\n'
      · subst hc
        exact inert_feed.append hrest fun _ => hbegins rfl
      · have hline : OnOneLine [c] := List.forall_mem_singleton.2 ⟨h.1, hc⟩
        exact hline.append_inert hrest
    · next hb =>
      obtain ⟨hrest, -⟩ := ih h.2 false
      have hline : OnOneLine ((if afterBreak then spaces indent else []) ++ [c]) := by
        refine OnOneLine.append (fun x hx => ?_) (List.forall_mem_singleton.2 ⟨h.1, ?_⟩)
        · rw [eq_space_of_mem hx]
          decide
        · rintro rfl
          exact hb rfl
      rw [List.append_cons]
      refine ⟨hline.append_inert hrest, ?_⟩
      rintro rfl
      obtain ⟨n, rfl⟩ := Nat.exists_eq_add_one.2 hi
      exact begins_cons (by decide) _

theorem getLast?_literalBody (indent : Nat) (afterBreak : Bool) (s : List Char) :
    (literalBody indent afterBreak s).getLast? = s.getLast? := by
  induction s generalizing afterBreak with
  | nil => rfl
  | cons c rest ih =>
    have hrest : ∀ b, (c :: literalBody indent b rest).getLast? = (c :: rest).getLast? := by
      intro b
      rw [List.getLast?_cons, List.getLast?_cons, ih]
    rw [literalBody]
    split
    · exact hrest true
    · rw [List.getLast?_append, hrest false]
      simp [List.getLast?_cons]

/-! ## Written texts and fields -/

section
variable {indent : Nat} {name : String}

theorem inert_written (hi : 0 < indent) (s : List Char) : Inert (written indent s) := by
  unfold written
  split
  · next hf => exact (onOneLine_of_form (.inl hf)).inert
  · next hf =>
    have hbody := onOneLine_singleQuotedBody (onOneLine_of_form (.inr hf)) indent false
    have hopen : OnOneLine ['\''] := by decide
    exact ((hopen.append hbody).append (by decide)).inert
  · have hopen : OnOneLine ['"'] := by decide
    exact ((hopen.append (onOneLine_doubleQuotedBody s)).append (by decide)).inert
  · next hf =>
    obtain ⟨-, hraw, -⟩ := Form.of_eq_literal_iff.1 hf
    obtain ⟨hbody, hbegins⟩ := inert_literalBody hi (printable_of_isRaw hraw) true
    have hopen : OnOneLine ['|'] := by decide
    rw [List.append_cons]
    refine Inert.append ?_ hbody fun _ => hbegins rfl
    exact (hopen.append (onOneLine_literalMarks s)).inert.append inert_feed fun _ =>
      begins_cons (by decide) []

theorem isLabel_spaces (n : Nat) : IsLabel (spaces n) := by
  refine ⟨onOneLine_spaces n, ?_⟩
  cases n with
  | zero => exact begins_nil
  | succ n => exact begins_cons (by decide) _

theorem inertLines_item {text : List Char} (h : Inert text) (indent : Nat) :
    InertLines (spaces indent ++ '-' :: ' ' :: text) := by
  have hmark : IsLabel (spaces indent ++ ['-', ' ']) := (isLabel_spaces indent).append (by decide)
  rw [List.append_cons, List.append_cons, List.append_assoc (spaces indent)]
  exact hmark.before h (by simp)

theorem inertLines_textField (h : IsLabel name.toList) (indent : Nat) (value : String) :
    InertLines (textField indent name value) := by
  have hlabel : IsLabel (name.toList ++ [':', ' ']) := h.append (by decide)
  rw [textField, List.append_cons, List.append_cons, List.append_assoc name.toList]
  exact hlabel.before (inert_written (Nat.succ_pos _) _).endLine (by simp)

theorem inertLines_flagField (h : IsLabel name.toList) (value : Bool) :
    InertLines (flagField name value) := by
  have hline : IsLabel (name.toList ++ ':' :: ' ' :: (if value then "true" else "false").toList) :=
    h.append (by cases value <;> decide +kernel)
  exact hline.before inert_feed (by simp)

theorem inertLines_listField (h : IsLabel name.toList) (indent : Nat) (values : List String) :
    InertLines (listField indent name values) := by
  have hlabel : IsLabel (name.toList ++ [':']) := h.append (by decide)
  rw [listField, List.append_cons, List.append_cons]
  refine (hlabel.before inert_feed (by simp)).append (inertLines_flatMap fun value _ => ?_)
  exact inertLines_item (inert_written (Nat.succ_pos _) _).endLine indent

theorem inertLines_itemFields {fields : List (List Char)} (h : ∀ f ∈ fields, InertLines f)
    (indent : Nat) : InertLines (itemFields indent fields) := by
  cases fields with
  | nil => exact inertLines_nil
  | cons first rest =>
    rw [List.forall_mem_cons] at h
    refine (inertLines_item h.1.toInert indent).append (inertLines_flatMap fun field hf => ?_)
    exact (isLabel_spaces _).before (h.2 field hf).toInert (by simp [spaces])

end

/-! ## Ends of lines -/

/-- A text is written as a literal that ends with a separator of lines or of paragraphs. -/
structure EndsInSeparator (s : List Char) : Prop where
  multiline : '\n' ∈ s
  raw : isRaw s = true
  last : s.getLast? = some '\u2028' ∨ s.getLast? = some '\u2029'

theorem endsLine_endLine_iff {text : List Char} :
    EndsLine (endLine text) ↔ ∀ c ∈ text.getLast?, isBreak c = true → c = '\n' := by
  rw [endLine, EndsLine]
  cases h : text.getLast? with
  | none => simp
  | some c =>
    cases hb : isBreak c with
    | true => simp [hb, h]
    | false => simp [hb]

/-- A break `c` that may stand raw is the line feed or one of the two separators. -/
theorem eq_of_isBreak {c : Char} (hb : isBreak c = true) (hp : isPrintable c = true) :
    c = '\n' ∨ c = '\u2028' ∨ c = '\u2029' := by
  simp only [isBreak, Bool.or_eq_true, beq_iff_eq] at hb
  rcases hb with (((rfl | rfl) | rfl) | rfl) | rfl
  · exact .inl rfl
  · cases hp
  · cases hp
  · exact .inr (.inl rfl)
  · exact .inr (.inr rfl)

theorem EndsInSeparator.form {s : List Char} (h : EndsInSeparator s) : Form.of s = .literal := by
  refine Form.of_eq_literal_iff.2 ⟨h.multiline, h.raw, ?_⟩
  rcases h.last with hl | hl <;> rw [hl] <;> decide

theorem endsInSeparator_iff {s : List Char} (h : Form.of s = .literal) :
    EndsInSeparator s ↔ ∃ c ∈ s.getLast?, isBreak c = true ∧ c ≠ '\n' := by
  obtain ⟨hm, hraw, -⟩ := Form.of_eq_literal_iff.1 h
  constructor
  · rintro ⟨-, -, hl | hl⟩
    · exact ⟨_, hl, by decide⟩
    · exact ⟨_, hl, by decide⟩
  · rintro ⟨c, hc, hb, hne⟩
    refine ⟨hm, hraw, ?_⟩
    have hp := printable_of_isRaw hraw c (List.mem_of_getLast? hc)
    rcases eq_of_isBreak hb hp with rfl | rfl | rfl
    · exact absurd rfl hne
    · exact .inl hc
    · exact .inr hc

theorem getLast?_written_literal {s : List Char} (h : Form.of s = .literal) (indent : Nat) :
    (written indent s).getLast? = s.getLast? := by
  have hne : s ≠ [] := List.ne_nil_of_mem (Form.of_eq_literal_iff.1 h).1
  simp only [written, h]
  rw [List.append_cons, List.getLast?_append, getLast?_literalBody,
    List.getLast?_eq_some_getLast hne]
  rfl

/-- The form `written` for a text that is no literal ends with no break. -/
theorem isBreak_of_getLast?_written {s : List Char} (h : Form.of s ≠ .literal) {indent : Nat}
    {c : Char} (hc : c ∈ (written indent s).getLast?) : isBreak c = false := by
  unfold written at hc
  split at hc
  · next hf =>
    have hany := any_isBreak_of_form hf
    rw [List.any_eq_false] at hany
    simpa using hany c (List.mem_of_getLast? hc)
  · rw [List.getLast?_append] at hc
    cases hc
    rfl
  · rw [List.getLast?_append] at hc
    cases hc
    rfl
  · next hf => exact absurd hf h

theorem endsLine_endLine_written_iff {indent : Nat} {s : List Char} :
    EndsLine (endLine (written indent s)) ↔ ¬ EndsInSeparator s := by
  rw [endsLine_endLine_iff]
  by_cases hf : Form.of s = .literal
  · rw [getLast?_written_literal hf, endsInSeparator_iff hf]
    push Not
    rfl
  · refine iff_of_true (fun c hc hb => ?_) fun h => hf h.form
    rw [isBreak_of_getLast?_written hf hc] at hb
    cases hb

theorem endsLine_flagField (name : String) (value : Bool) : EndsLine (flagField name value) := by
  rw [flagField, EndsLine, List.getLast?_concat]

theorem listField_concat (indent : Nat) (name : String) (values : List String) (value : String) :
    listField indent name (values ++ [value]) =
      listField indent name values ++
        (spaces indent ++ ['-', ' '] ++ endLine (written (indent + 2) value.toList)) := by
  simp [listField]

/-- A list of texts ends its last line as the last of its `values` does. -/
theorem endsLine_listField_iff (indent : Nat) (name : String) (values : List String) :
    EndsLine (listField indent name values) ↔
      ∀ value ∈ values.getLast?, ¬ EndsInSeparator value.toList := by
  rcases List.eq_nil_or_concat values with rfl | ⟨rest, last, rfl⟩
  · simp [listField, EndsLine, List.getLast?_append]
  · have hmark : OnOneLine (spaces indent ++ ['-', ' ']) :=
      (onOneLine_spaces indent).append (by decide)
    rw [List.concat_eq_append, listField_concat, endsLine_append_iff (by simp),
      hmark.endsLine_append_iff, endsLine_endLine_written_iff, List.getLast?_concat]
    simp

end AgentDocs.Yaml
