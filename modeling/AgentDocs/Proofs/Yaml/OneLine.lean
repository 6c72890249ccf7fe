import Mathlib.Data.List.Basic
import Mathlib.Data.List.TakeWhile
import AgentDocs.Text.Blank
import AgentDocs.Yaml.Lexer

/-!
# Scalars on one line

On one line the gaps of a scalar are spaces, and all of them are kept: a plain scalar is read as it
stands up to its last word, and so is a quoted scalar without escapes up to its closing quote.

* `isPlain`, `isQuotable`: the texts that stand for themselves, without quotes and between quotes.
* `readPlain_eq`: reading the first, word by word.
* `readQuoted_eq`: reading the others.
-/

namespace AgentDocs.Yaml

open AgentDocs.Text

/-! ## Texts that stand for themselves -/

/-- The characters that mean something in front of a text. -/
def indicators : List Char :=
  ['-', '?', ':', ',', '[', ']', '\x7b', '\x7d', '#', '&', '*', '!', '|', '>', '\'', '"', '%', '@',
    '\x60']

/-- A plain scalar may begin so: with no space, and with an indicator only where that is one of
three that can belong to a word, and does. -/
def beginsPlain : List Char → Bool
  | [] => false
  | c :: rest =>
    !isSpace c && (!indicators.contains c || (c == '-' || c == '?' || c == ':') && !endsWord rest)

/-- Nothing in a text ends a plain scalar on one line: it shows no line break, no comment behind a
space, and no colon at the end of a word. -/
def isRunning : List Char → Bool
  | [] => true
  | c :: rest =>
    !isBreak c && !(isSpace c && rest.head? == some '#') && !(c == ':' && endsWord rest) &&
      isRunning rest

/-- A word or the end of the text stands here, and no gap and no comment. -/
def startsWord (text : List Char) : Bool := text.head?.all fun c => !isSpace c && c != '#'

/-- A text is a plain scalar on one line, with no spaces around it. -/
def isPlain (text : List Char) : Bool :=
  beginsPlain text && isRunning text && !text.getLast?.any isSpace

/-- The quote that a scalar stands between. -/
def quote (single : Bool) : Char := if single then '\'' else '"'

/-- A text stands for itself between two quotes on one line: it shows no line break, no such quote,
and between double quotes no backslash. -/
def isQuotable (single : Bool) (text : List Char) : Bool :=
  text.all fun c => !isBreak c && c != quote single && (single || c != '\\')

/-- A text holds nothing but spaces. -/
def IsSpaces (text : List Char) : Prop := ∀ c ∈ text, isSpace c = true

instance (text : List Char) : Decidable (IsSpaces text) :=
  List.decidableBAll (isSpace · = true) text

section
variable {text a b : List Char} {c : Char}

theorem isSpaces_nil : IsSpaces [] := nofun

theorem isRunning_cons : isRunning (c :: text) = true ↔
    isBreak c = false ∧ ¬(isSpace c = true ∧ text.head? = some '#') ∧
      ¬(c = ':' ∧ endsWord text = true) ∧ isRunning text = true := by
  rw [isRunning]
  cases isBreak c <;> cases isSpace c <;> cases endsWord text <;> simp [and_assoc]

theorem isBreak_of_isSpace (h : isSpace c = true) : isBreak c = false := by
  rcases (by simpa [isSpace] using h : c = ' ' ∨ c = '\t') with rfl | rfl <;> decide

theorem isRunning_right (h : isRunning (a ++ b) = true) : isRunning b = true := by
  induction a with
  | nil => exact h
  | cons c a ih => exact ih (isRunning_cons.1 h).2.2.2

theorem isRunning_dropWhile (h : isRunning text = true) (p : Char → Bool) :
    isRunning (text.dropWhile p) = true := by
  rw [← List.takeWhile_append_dropWhile (p := p) (l := text)] at h
  exact isRunning_right h

theorem isBreak_head?_of_isRunning (h : isRunning text = true) :
    text.head?.any isBreak = false := by
  cases text with
  | nil => rfl
  | cons c rest => exact (isRunning_cons.1 h).1

theorem isBreak_of_isRunning (h : isRunning text = true) : ∀ c ∈ text, isBreak c = false := by
  induction text with
  | nil => exact nofun
  | cons c rest ih =>
    obtain ⟨hc, -, -, hrest⟩ := isRunning_cons.1 h
    exact List.forall_mem_cons.2 ⟨hc, ih hrest⟩

theorem isRunning_of_isSpaces (h : IsSpaces text) : isRunning text = true := by
  induction text with
  | nil => rfl
  | cons c rest ih =>
    obtain ⟨hc, hrest⟩ := List.forall_mem_cons.1 h
    refine isRunning_cons.2 ⟨isBreak_of_isSpace hc, ?_, ?_, ih hrest⟩
    · rintro ⟨-, hhash⟩
      have := hrest _ (List.mem_of_mem_head? hhash)
      exact absurd this (by decide)
    · rintro ⟨rfl, -⟩
      exact absurd hc (by decide)

/-- Spaces `b` behind a text end nothing that the end of the text does not end. -/
theorem isRunning_append (h : isRunning a = true) (hb : IsSpaces b) :
    isRunning (a ++ b) = true := by
  induction a with
  | nil => exact isRunning_of_isSpaces hb
  | cons c a ih =>
    obtain ⟨hbreak, hcomment, hcolon, ha⟩ := isRunning_cons.1 h
    rw [List.cons_append]
    refine isRunning_cons.2 ⟨hbreak, ?_, ?_, ih ha⟩
    · rintro ⟨hc, hhash⟩
      cases a with
      | nil => exact absurd (hb _ (List.mem_of_mem_head? hhash)) (by decide)
      | cons d a => exact hcomment ⟨hc, hhash⟩
    · rintro ⟨hc, hend⟩
      cases a with
      | nil => exact hcolon ⟨hc, rfl⟩
      | cons d a => exact hcolon ⟨hc, hend⟩

theorem not_hash_of_isRunning (h : isRunning (a ++ b) = true) (ha : IsSpaces a) (hne : a ≠ []) :
    b.head? ≠ some '#' := by
  induction a with
  | nil => exact absurd rfl hne
  | cons c a ih =>
    obtain ⟨hc, hrest⟩ := List.forall_mem_cons.1 ha
    obtain ⟨-, hcomment, -, hrun⟩ := isRunning_cons.1 h
    by_cases hn : a = []
    · subst hn
      exact fun hhash => hcomment ⟨hc, hhash⟩
    · exact ih hrun hrest hn

theorem isSpaces_takeWhile (text : List Char) : IsSpaces (text.takeWhile isSpace) :=
  fun _ hc => List.mem_takeWhile_imp hc

/-- What stands behind a gap is a word, no comment: in `c :: text` a `#` follows no space. -/
theorem startsWord_dropWhile (h : isRunning (c :: text) = true) (hc : isSpace c = true) :
    startsWord ((c :: text).dropWhile isSpace) = true := by
  have hgap : (c :: text).takeWhile isSpace ≠ [] := by simp [hc]
  rw [← List.takeWhile_append_dropWhile (p := isSpace) (l := c :: text)] at h
  have hhash := not_hash_of_isRunning h (isSpaces_takeWhile _) hgap
  have hspace := List.head?_dropWhile_not isSpace (c :: text)
  cases hr : (c :: text).dropWhile isSpace with
  | nil => rfl
  | cons x rest => simp_all [startsWord]

theorem beginsPlain_cases (h : beginsPlain (c :: text) = true) :
    isSpace c = false ∧
      (c ∉ indicators ∨ (c = '-' ∨ c = '?' ∨ c = ':') ∧ endsWord text = false) := by
  simpa [beginsPlain, or_assoc] using h

theorem startsWord_of_beginsPlain (h : beginsPlain text = true) (back : List Char) :
    startsWord (text ++ back) = true := by
  cases text with
  | nil => cases h
  | cons c text =>
    obtain ⟨hspace, hindicator⟩ := beginsPlain_cases h
    have hhash : c ≠ '#' := by
      rintro rfl
      simp [indicators] at hindicator
    simp [startsWord, hspace, hhash]

theorem beginsPlain_append (h : beginsPlain (c :: text) = true) (back : List Char) :
    beginsPlain (c :: (text ++ back)) = true := by
  cases text with
  | nil =>
    obtain ⟨hspace, hindicator | ⟨-, hends⟩⟩ := beginsPlain_cases h
    · simp [beginsPlain, hspace, hindicator]
    · cases hends
  | cons d text => exact h

theorem isSpace_of_dropWhile_eq_cons (h : text.dropWhile (!isSpace ·) = c :: a) :
    isSpace c = true := by
  simpa [h] using List.head?_dropWhile_not (!isSpace ·) text

end

/-! ## Gaps -/

section
variable {c : Cursor} {limit fuel : Nat}

theorem Cursor.rest_skipWhile (c : Cursor) (p : Char → Bool) :
    (c.skipWhile p).rest = c.rest.dropWhile p := by
  have h : (c.rest.takeWhile p ++ c.rest.dropWhile p).drop (c.rest.takeWhile p).length =
      c.rest.dropWhile p := List.drop_left
  rwa [List.takeWhile_append_dropWhile] at h

theorem Cursor.column_le_skipWhile (c : Cursor) (p : Char → Bool) :
    c.column ≤ (c.skipWhile p).column :=
  Nat.le_add_right _ _

/-- Inside a line there is no document marker. -/
theorem Cursor.atAnyMarker_eq_false (h : c.column ≠ 0) : c.atAnyMarker = false := by
  simp [atAnyMarker, atMarker, h]

/-- A gap that does not end its line is made of spaces, and `Gap.read` stops behind them. -/
theorem Gap.read_eq (h : (c.rest.dropWhile isSpace).head?.any isBreak = false) :
    Gap.read limit fuel c = .ok (⟨c.rest.takeWhile isSpace, []⟩, c.skipWhile isSpace) := by
  have hstop : Gap.readBreaks limit fuel (c.skipWhile isSpace) = .ok ([], c.skipWhile isSpace) := by
    have hspace := List.head?_dropWhile_not isSpace c.rest
    rw [← c.rest_skipWhile] at h hspace
    cases fuel with
    | zero => rfl
    | succ fuel =>
      cases hrest : (c.skipWhile isSpace).rest with
      | nil => simp [readBreaks, hrest]
      | cons x rest =>
        rw [hrest] at h hspace
        simp_all [readBreaks]
  exact congrArg (Except.map fun r : List Char × Cursor =>
    ((⟨c.rest.takeWhile isSpace, r.1⟩ : Gap), r.2)) hstop

end

/-! ## Plain scalars -/

section
variable {text : List Char} {c : Cursor} {g : Gap} {limit fuel : Nat}

theorem plainRun_eq (h : isRunning text = true) :
    plainRun false text = .ok (text.takeWhile (!isSpace ·)) := by
  induction text with
  | nil => rfl
  | cons c rest ih =>
    obtain ⟨hbreak, -, hcolon, hrest⟩ := isRunning_cons.1 h
    by_cases hc : isSpace c = true
    · simp [plainRun, hc]
    · simp_all [plainRun, Except.map]

theorem takeWhile_ne_nil_of_startsWord (hword : startsWord text = true) (hne : text ≠ []) :
    text.takeWhile (!isSpace ·) ≠ [] := by
  obtain ⟨x, rest, rfl⟩ := List.exists_cons_of_ne_nil hne
  have hx := (Bool.and_eq_true_iff.1 hword).1
  simp [hx]

/-- When spaces at the end of a line are trimmed, the first word of `text` is kept. -/
theorem dropEndWhile_of_startsWord (front : List Char) (hword : startsWord text = true)
    (hne : text ≠ []) :
    dropEndWhile isSpace (front ++ text) =
      front ++ text.takeWhile (!isSpace ·) ++
        dropEndWhile isSpace (text.dropWhile (!isSpace ·)) := by
  have hlast : (front ++ text.takeWhile (!isSpace ·)).getLast?.any isSpace = false := by
    rw [List.getLast?_append_of_ne_nil _ (takeWhile_ne_nil_of_startsWord hword hne),
      Option.any_eq_false]
    intro x hx
    simpa using List.mem_takeWhile_imp (List.mem_of_getLast? hx)
  rw [← dropEndWhile_append_of_getLast? hlast, List.append_assoc,
    List.takeWhile_append_dropWhile]

theorem plainRest_nil (hbreaks : g.breaks = []) (hcolumn : c.column ≠ 0)
    (hrest : c.rest = []) :
    plainRest false limit (fuel + 1) c g = .ok ([], false, c.advance 0) := by
  have hnext (p : Char → Bool) : c.next? p = false := by simp [Cursor.next?, hrest]
  have hnext' (p : Char → Bool) : (c.advance 0).next? p = false := by
    simp [Cursor.next?, Cursor.advance, hrest]
  simp [plainRest, Cursor.atAnyMarker_eq_false hcolumn, hnext, hrest, plainRun, hnext', hbreaks]

/-- A plain scalar goes on with the gap `g` in front of a word, the word, and what follows it on its
line. -/
theorem plainRest_word (hcolumn : c.column ≠ 0) (hlimit : limit ≤ c.column)
    (hrun : isRunning c.rest = true) (hne : c.rest ≠ []) (hword : startsWord c.rest = true) :
    plainRest false limit (fuel + 1) c g =
      if (c.rest.dropWhile (!isSpace ·)).isEmpty then
        .ok (g.text ++ c.rest.takeWhile (!isSpace ·), false, c.skipWhile (!isSpace ·))
      else
        (plainRest false limit fuel ((c.skipWhile (!isSpace ·)).skipWhile isSpace)
          ⟨(c.rest.dropWhile (!isSpace ·)).takeWhile isSpace, []⟩).map fun (text, brokeLine, c') =>
            (g.text ++ c.rest.takeWhile (!isSpace ·) ++ text, brokeLine, c') := by
  obtain ⟨x, rest, hrest⟩ := List.exists_cons_of_ne_nil hne
  obtain ⟨hspace, hhash⟩ : isSpace x = false ∧ x ≠ '#' := by
    simpa [startsWord, hrest] using hword
  have hnext : c.next? (· == '#') = false := by simp [Cursor.next?, hrest, hhash]
  have hsome : (c.rest.takeWhile (!isSpace ·)).isEmpty = false := by simp [hrest, hspace]
  set c₁ := c.skipWhile (!isSpace ·) with hc₁
  have hadvance : c.advance (c.rest.takeWhile (!isSpace ·)).length = c₁ := rfl
  have hrest₁ : c₁.rest = c.rest.dropWhile (!isSpace ·) := c.rest_skipWhile _
  have hrun₁ := isRunning_dropWhile hrun (!isSpace ·)
  rw [plainRest, Cursor.atAnyMarker_eq_false hcolumn, hnext, plainRun_eq hrun]
  simp only [Bool.or_self, Bool.false_eq_true, if_false, hsome, hadvance]
  rw [← hrest₁] at hrun₁ ⊢
  cases hmore : c₁.rest with
  | nil => simp [Cursor.next?, hmore, Gap.empty]
  | cons y more =>
    have hy : isSpace y = true := isSpace_of_dropWhile_eq_cons (hrest₁ ▸ hmore)
    have hread : Gap.read limit fuel c₁ =
        .ok (⟨c₁.rest.takeWhile isSpace, []⟩, c₁.skipWhile isSpace) :=
      Gap.read_eq (isBreak_head?_of_isRunning (isRunning_dropWhile hrun₁ isSpace))
    have hcolumn₂ : ¬ (c₁.skipWhile isSpace).column < limit :=
      Nat.not_lt.2 (hlimit.trans ((c.column_le_skipWhile _).trans (c₁.column_le_skipWhile _)))
    simp [Cursor.next?, hmore, hy, hread, hcolumn₂]

/-- Word by word, what is left of a line is taken up to its last word, and the gap `g` in front of
it with the first one. -/
theorem plainRest_eq (hbreaks : g.breaks = []) (hspaces : IsSpaces g.spaces)
    (hfuel : c.rest.length < fuel) (hcolumn : c.column ≠ 0) (hlimit : limit ≤ c.column)
    (hrun : isRunning c.rest = true) (hword : startsWord c.rest = true) :
    ∃ c', plainRest false limit fuel c g =
      .ok (dropEndWhile isSpace (g.spaces ++ c.rest), false, c') ∧ c'.rest = [] := by
  -- A word holds a character at least, so one unit of fuel is enough for it and its gap.
  induction fuel generalizing c g with
  | zero => omega
  | succ fuel ih =>
    by_cases hne : c.rest = []
    · refine ⟨c.advance 0, ?_, by simp [Cursor.advance, hne]⟩
      rw [plainRest_nil hbreaks hcolumn hne, hne, List.append_nil,
        dropEndWhile_eq_nil_iff.2 hspaces]
    rw [plainRest_word hcolumn hlimit hrun hne hword, Gap.text_of_breaks_eq_nil hbreaks,
      dropEndWhile_of_startsWord g.spaces hword hne]
    cases hmore : c.rest.dropWhile (!isSpace ·) with
    | nil => exact ⟨_, by simp [dropEndWhile], (c.rest_skipWhile _).trans hmore⟩
    | cons y rest =>
      have hspace : isSpace y = true := isSpace_of_dropWhile_eq_cons hmore
      have hrun₁ : isRunning (y :: rest) = true := hmore ▸ isRunning_dropWhile hrun _
      set c₂ := (c.skipWhile (!isSpace ·)).skipWhile isSpace with hc₂
      have hrest₂ : c₂.rest = (y :: rest).dropWhile isSpace := by
        rw [hc₂, Cursor.rest_skipWhile, Cursor.rest_skipWhile, hmore]
      have hcolumn₂ : c.column ≤ c₂.column :=
        (c.column_le_skipWhile _).trans (Cursor.column_le_skipWhile _ _)
      have hcut₂ : (y :: rest).takeWhile isSpace ++ c₂.rest = y :: rest := by
        rw [hrest₂, List.takeWhile_append_dropWhile]
      have hfuel₂ : c₂.rest.length < fuel := by
        have hword₁ := List.length_pos_iff.2 (takeWhile_ne_nil_of_startsWord hword hne)
        have hline := congrArg List.length
          (List.takeWhile_append_dropWhile (p := (!isSpace ·)) (l := c.rest))
        have hgap := congrArg List.length hcut₂
        rw [hmore] at hline
        simp only [List.length_append] at hline hgap
        omega
      obtain ⟨c', hc', hrest'⟩ := ih (c := c₂) (g := ⟨(y :: rest).takeWhile isSpace, []⟩) rfl
        (isSpaces_takeWhile _) hfuel₂ (by omega) (by omega)
        (hrest₂ ▸ isRunning_dropWhile hrun₁ isSpace) (hrest₂ ▸ startsWord_dropWhile hrun₁ hspace)
      refine ⟨c', ?_, hrest'⟩
      rw [hc', hcut₂]
      simp [Except.map]

/-- A plain scalar `text` on one line is read as it stands, and the spaces `back` behind it are left
out. -/
theorem readPlain_eq {back : List Char} (hrest : c.rest = text ++ back) (h : isPlain text = true)
    (hback : IsSpaces back) (hcolumn : c.column ≠ 0) (hlimit : limit ≤ c.column) :
    ∃ c', readPlain false limit c = .ok (text, false, c') ∧ c'.rest = [] := by
  obtain ⟨⟨hbegin, hrun⟩, hlast⟩ :
      (beginsPlain text = true ∧ isRunning text = true) ∧ text.getLast?.any isSpace = false := by
    simpa only [isPlain, Bool.and_eq_true, Bool.not_eq_true'] using h
  obtain ⟨c', hc', hrest'⟩ := plainRest_eq (c := c) (g := Gap.empty) rfl
    (fun x hx => nomatch hx) (Nat.lt_succ_self _) hcolumn hlimit
    (hrest ▸ isRunning_append hrun hback) (hrest ▸ startsWord_of_beginsPlain hbegin back)
  refine ⟨c', ?_, hrest'⟩
  rw [readPlain, hc', Gap.empty, List.nil_append, hrest, dropEndWhile_append_of_pos hback,
    dropEndWhile_eq_self hlast]

end

/-! ## Quoted scalars -/

section
variable {single : Bool} {text run tail back a b : List Char} {c : Cursor} {fuel : Nat}
  {p : Char → Bool}

theorem isQuotable_iff : isQuotable single text = true ↔
    ∀ c ∈ text, isBreak c = false ∧ c ≠ quote single ∧ (single = false → c ≠ '\\') := by
  cases single <;> simp [isQuotable, and_assoc]

theorem isSpace_quote (single : Bool) : isSpace (quote single) = false := by
  cases single <;> decide

/-- A word `run` between quotes is read up to `tail`, where nothing more of it stands. -/
theorem quotedRun_eq (hrun : isQuotable single run = true) (hword : ∀ c ∈ run, isSpace c = false)
    (htail : ∀ n, quotedRun single n tail = .ok ([], 0)) (hfuel : run.length ≤ fuel) :
    quotedRun single fuel (run ++ tail) = .ok (run, run.length) := by
  induction run generalizing fuel with
  | nil => exact htail fuel
  | cons c run ih =>
    cases fuel with
    | zero => cases hfuel
    | succ fuel =>
      obtain ⟨hspace, hword⟩ := List.forall_mem_cons.1 hword
      obtain ⟨⟨hbreak, hquote, hescape⟩, hrun⟩ := List.forall_mem_cons.1 (isQuotable_iff.1 hrun)
      have := ih (isQuotable_iff.2 hrun) hword (Nat.le_of_succ_le_succ hfuel)
      cases single <;> simp_all [quotedRun, quote, Except.map]

theorem quotedRun_quote (hback : IsSpaces back) (n : Nat) :
    quotedRun single n (quote single :: back) = .ok ([], 0) := by
  cases n with
  | zero => rfl
  | succ n =>
    have hhead : back.head? ≠ some '\'' := fun h =>
      absurd (hback _ (List.mem_of_mem_head? h)) (by decide)
    cases single <;> simp [quotedRun, quote, isSpace, isBreak, hhead]

theorem quotedRun_space {y : Char} (hy : isSpace y = true) (n : Nat) :
    quotedRun single n (y :: tail) = .ok ([], 0) := by
  cases n with
  | zero => rfl
  | succ n => simp [quotedRun, hy]

theorem takeWhile_append_of_head? (h : b.head?.any p = false) :
    (a ++ b).takeWhile p = a.takeWhile p := by
  induction a with
  | nil => cases b <;> simp_all
  | cons c a ih => by_cases hc : p c = true <;> simp [hc, ih]

theorem dropWhile_append_of_head? (h : b.head?.any p = false) :
    (a ++ b).dropWhile p = a.dropWhile p ++ b := by
  induction a with
  | nil => cases b <;> simp_all
  | cons c a ih => by_cases hc : p c = true <;> simp [hc, ih]

theorem isQuotable_dropWhile (h : isQuotable single text = true) (p : Char → Bool) :
    isQuotable single (text.dropWhile p) = true :=
  isQuotable_iff.2 fun c hc => isQuotable_iff.1 h c (List.dropWhile_subset p hc)

theorem isQuotable_takeWhile (h : isQuotable single text = true) (p : Char → Bool) :
    isQuotable single (text.takeWhile p) = true :=
  isQuotable_iff.2 fun c hc => isQuotable_iff.1 h c (List.takeWhile_subset p hc)

/-- A gap in front of a closing quote, or of a word in front of one, is made of spaces. -/
theorem Gap.read_quoted {limit : Nat} (hrest : c.rest = text ++ quote single :: back)
    (h : isQuotable single text = true) :
    Gap.read limit fuel c = .ok (⟨text.takeWhile isSpace, []⟩, c.skipWhile isSpace) := by
  have hquote : (quote single :: back).head?.any isSpace = false := isSpace_quote single
  rw [Gap.read_eq, hrest, takeWhile_append_of_head? hquote]
  rw [hrest, dropWhile_append_of_head? hquote]
  have hbreaks := isQuotable_iff.1 (isQuotable_dropWhile h isSpace)
  cases hr : text.dropWhile isSpace with
  | nil => cases single <;> rfl
  | cons x rest => exact (hbreaks x (by simp [hr])).1

theorem Cursor.rest_advance_takeWhile (h : c.rest = text ++ tail) (p : Char → Bool) :
    (c.advance (text.takeWhile p).length).rest = text.dropWhile p ++ tail := by
  rw [← List.takeWhile_append_dropWhile (p := p) (l := text), List.append_assoc] at h
  rw [advance, h, List.drop_left]

/-- Quoted text goes on with a word, and ends there at its quote or goes on behind a gap. -/
theorem quotedRest_word (hrest : c.rest = text ++ quote single :: back)
    (h : isQuotable single text = true) (hback : IsSpaces back) (hcolumn : c.column ≠ 0)
    (hfuel : text.length ≤ fuel) {c₁ : Cursor}
    (hc₁ : c₁ = c.advance (text.takeWhile (!isSpace ·)).length) :
    quotedRest single (fuel + 1) c =
      if (text.dropWhile (!isSpace ·)).isEmpty then
        .ok (text.takeWhile (!isSpace ·), c₁.advance 1)
      else
        (quotedRest single fuel (c₁.skipWhile isSpace)).map fun (more, c') =>
          (text.takeWhile (!isSpace ·) ++ (text.dropWhile (!isSpace ·)).takeWhile isSpace ++ more,
            c') := by
  have hsome : c.rest.isEmpty = false := by simp [hrest]
  have hrest₁ : c₁.rest = text.dropWhile (!isSpace ·) ++ quote single :: back :=
    hc₁ ▸ Cursor.rest_advance_takeWhile hrest _
  have hcut : c.rest = text.takeWhile (!isSpace ·) ++ c₁.rest := by
    rw [hrest, hrest₁, ← List.append_assoc, List.takeWhile_append_dropWhile]
  have hrun (htail : ∀ n, quotedRun single n c₁.rest = .ok ([], 0)) :
      quotedRun single fuel c.rest =
        .ok (text.takeWhile (!isSpace ·), (text.takeWhile (!isSpace ·)).length) := by
    have hword : ∀ x ∈ text.takeWhile (!isSpace ·), isSpace x = false := fun x hx => by
      simpa using List.mem_takeWhile_imp hx
    have hlength := (List.takeWhile_sublist (l := text) (!isSpace ·)).length_le
    rw [hcut]
    exact quotedRun_eq (isQuotable_takeWhile h _) hword htail (by omega)
  rw [quotedRest, Cursor.atAnyMarker_eq_false hcolumn, hsome]
  simp only [Bool.false_eq_true, if_false]
  cases hmore : text.dropWhile (!isSpace ·) with
  | nil =>
    rw [hmore, List.nil_append] at hrest₁
    rw [hrun (hrest₁ ▸ quotedRun_quote hback)]
    simp [← hc₁, Cursor.next?, hrest₁, quote]
  | cons y more =>
    have hspace : isSpace y = true := isSpace_of_dropWhile_eq_cons hmore
    have hread : Gap.read 0 fuel c₁ =
        .ok (⟨(y :: more).takeWhile isSpace, []⟩, c₁.skipWhile isSpace) :=
      Gap.read_quoted (hmore ▸ hrest₁) (hmore ▸ isQuotable_dropWhile h (!isSpace ·))
    rw [hmore, List.cons_append] at hrest₁
    rw [hrun (hrest₁ ▸ quotedRun_space hspace)]
    have hquote : y ≠ if single then '\'' else '"' := by
      rintro rfl
      rw [← quote, isSpace_quote] at hspace
      cases hspace
    have hescape : y ≠ '\\' := by
      rintro rfl
      exact absurd hspace (by decide)
    simp [← hc₁, Cursor.next?, hrest₁, hquote, hescape, hread, Gap.text_of_breaks_eq_nil]

/-- Word by word, what is left of `text` is taken up to the closing quote. -/
theorem quotedRest_eq (hrest : c.rest = text ++ quote single :: back)
    (h : isQuotable single text = true) (hback : IsSpaces back) (hcolumn : c.column ≠ 0)
    (hfuel : text.length < fuel) :
    ∃ c', quotedRest single fuel c = .ok (text, c') ∧ c'.rest = back := by
  -- The word may be empty, since a gap may stand behind the quote; then the gap is not.
  induction fuel generalizing c text with
  | zero => cases hfuel
  | succ fuel ih =>
    rw [quotedRest_word hrest h hback hcolumn (Nat.le_of_lt_succ hfuel) rfl]
    set c₁ := c.advance (text.takeWhile (!isSpace ·)).length with hc₁
    have hrest₁ : c₁.rest = text.dropWhile (!isSpace ·) ++ quote single :: back :=
      Cursor.rest_advance_takeWhile hrest _
    have hcut := List.takeWhile_append_dropWhile (p := (!isSpace ·)) (l := text)
    cases hmore : text.dropWhile (!isSpace ·) with
    | nil =>
      rw [hmore, List.append_nil] at hcut
      rw [hmore, List.nil_append] at hrest₁
      exact ⟨c₁.advance 1, by simp [hcut], by simp [Cursor.advance, hrest₁]⟩
    | cons y more =>
      have hcolumn₂ : (c₁.skipWhile isSpace).column ≠ 0 := by
        have hword : c.column ≤ c₁.column := Nat.le_add_right _ _
        have hgap := c₁.column_le_skipWhile isSpace
        omega
      have hrest₂ : (c₁.skipWhile isSpace).rest =
          (y :: more).dropWhile isSpace ++ quote single :: back := by
        rw [Cursor.rest_skipWhile, hrest₁, hmore]
        exact dropWhile_append_of_head? (isSpace_quote single)
      have hfuel₂ : ((y :: more).dropWhile isSpace).length < fuel := by
        have hlength := congrArg List.length hcut
        have hgap := (List.dropWhile_sublist (l := more) isSpace).length_le
        rw [List.dropWhile_cons_of_pos (isSpace_of_dropWhile_eq_cons hmore)]
        simp only [hmore, List.length_append, List.length_cons] at hlength
        omega
      have hmore₂ := isQuotable_dropWhile (isQuotable_dropWhile h (!isSpace ·)) isSpace
      rw [hmore] at hmore₂
      obtain ⟨c', hc', hrest'⟩ := ih hrest₂ hmore₂ hcolumn₂ hfuel₂
      refine ⟨c', ?_, hrest'⟩
      rw [hc', if_neg (by simp)]
      simp only [Except.map]
      rw [List.append_assoc, List.takeWhile_append_dropWhile, ← hmore, hcut]

/-- A quoted scalar on one line is read as the `text` that stands between its quotes. -/
theorem readQuoted_eq (hrest : c.rest = quote single :: (text ++ quote single :: back))
    (h : isQuotable single text = true) (hback : IsSpaces back) :
    ∃ c', readQuoted single c = .ok (text, c') ∧ c'.rest = back := by
  have hrest₁ : (c.advance 1).rest = text ++ quote single :: back := by
    simp [Cursor.advance, hrest]
  refine quotedRest_eq hrest₁ h hback ?_ ?_
  · simp [Cursor.advance]
  · rw [hrest]
    simp only [List.length_cons, List.length_append]
    omega

end

end AgentDocs.Yaml
