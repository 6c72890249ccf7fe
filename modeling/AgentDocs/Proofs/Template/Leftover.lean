import Mathlib.Data.List.TakeWhile
import AgentDocs.Agent.Identity
import AgentDocs.Proofs.Files.Walk
import AgentDocs.Template.Expansion

/-!
# Directives that are left over

An expansion is put together from stretches, each copied in one piece from a line of the template
or of an included file. A directive that a fresh scan of the result finds was either put together
from several stretches, or it was copied from inside a fence that the scan of the result no longer
sees. Nothing else is left over.

* `expandAt_eq_stretchesAt`: the stretches joined are the expansion.
* `hasDirective_iff`, `hasUnresolved_iff`: what the two checks find, said by positions.
* `isFree_of_stretchesAt`: no stretch of text holds a directive.
* `hasUnresolved_expand_iff`: exactly when something is left over.
-/

namespace AgentDocs.Template

open AgentDocs.Files AgentDocs.Text

/-! ## Occurrences of directives -/

/-- The directive with a target, as it is written. -/
def written (target : List Char) : List Char := opener ++ target ++ closer

/-- A directive is written somewhere in a text. -/
def Holds (text : List Char) : Prop :=
  ∃ left target right, text = left ++ written target ++ right ∧ '\x7d' ∉ target

theorem directive?_written {target : List Char} (h : '\x7d' ∉ target) (right : List Char) :
    directive? (written target ++ right) = some (target, right) := by
  obtain ⟨ht, hd⟩ := Identity.takeWhile_append_of_notMem h (t := '\x7d' :: right)
  have ho : written target ++ right = opener ++ (target ++ '\x7d' :: '\x7d' :: right) := by
    simp [written, closer]
  rw [ho, directive?, if_pos (List.isPrefixOf_iff_prefix.2 (List.prefix_append _ _))]
  simp only [List.drop_left]
  rw [ht, hd]
  simp [closer]

theorem notMem_of_directive? {text target rest : List Char}
    (h : directive? text = some (target, rest)) : '\x7d' ∉ target := by
  unfold directive? at h
  split at h
  · simp only at h
    split at h
    · simp only [Option.some.injEq, Prod.mk.injEq] at h
      obtain ⟨rfl, -⟩ := h
      intro hm
      simpa using List.mem_takeWhile_imp hm
    · cases h
  · cases h

/-- A `text` from which no directive can be read at any place holds none. -/
theorem not_holds_of_suffixes {text : List Char}
    (h : ∀ s, s ≠ [] → s <:+ text → directive? s = none) : ¬ Holds text := by
  rintro ⟨left, target, right, rfl, ht⟩
  have hs := h (written target ++ right) (by simp [written, opener])
    ⟨left, by rw [List.append_assoc]⟩
  rw [directive?_written ht] at hs
  cases hs

theorem pieces_cons_of_none {c : Char} {rest : List Char} (h : directive? (c :: rest) = none) :
    pieces (c :: rest) = .character c :: pieces rest := by
  rw [pieces]
  split
  · next hs => rw [h] at hs; cases hs
  · rfl

theorem pieces_of_some {text target rest : List Char} (h : directive? text = some (target, rest)) :
    pieces text = .directive target :: pieces rest := by
  rw [pieces]
  split
  · next hs => rw [h] at hs; cases hs; rfl
  · next hs => rw [h] at hs; cases hs

theorem pieces_nil : pieces [] = [] := by
  rw [pieces]
  split
  · next hs => revert hs; simp [directive?, opener]
  · rfl

/-- Cutting `line` into pieces finds a directive exactly where the line holds one. -/
theorem hasDirective_iff (line : List Char) : hasDirective line = true ↔ Holds line := by
  constructor
  · intro h
    obtain ⟨piece, hp, hd⟩ := List.any_eq_true.1 h
    clear h
    fun_induction pieces line with
    | case1 text target rest h _ ih =>
      rw [eq_of_directive? h]
      rcases List.mem_cons.1 hp with rfl | hp
      · exact ⟨[], target, rest, by simp [written], notMem_of_directive? h⟩
      · obtain ⟨left, target', right, he, hn⟩ := ih hp
        exact ⟨written target ++ left, target', right, by simp [he, written], hn⟩
    | case2 => cases hp
    | case3 c rest _ ih =>
      rcases List.mem_cons.1 hp with rfl | hp
      · cases hd
      · obtain ⟨left, target, right, he, hn⟩ := ih hp
        exact ⟨c :: left, target, right, by simp [he], hn⟩
  · rintro ⟨left, target, right, rfl, ht⟩
    induction left with
    | nil =>
      rw [hasDirective, List.nil_append, pieces_of_some (directive?_written ht right)]
      rfl
    | cons c left ih =>
      rw [List.cons_append, List.cons_append]
      rcases hd : directive? (c :: (left ++ written target ++ right)) with _ | ⟨found, rest⟩
      · rw [hasDirective, pieces_cons_of_none hd, List.any_cons]
        simpa [hasDirective] using ih
      · rw [hasDirective, pieces_of_some hd]
        rfl

/-- A directive with a target stands behind `before` on a text line of a text. -/
def Leftover (text before target : List Char) : Prop :=
  ∃ above line below left right, lines text = above ++ line :: below ∧
    (finalState .outside above).kind line = .text ∧ line = left ++ written target ++ right ∧
    '\x7d' ∉ target ∧ before = above.flatten ++ left

theorem hasDirectiveAfter_iff (state : ScanState) (ls : List (List Char)) :
    hasDirectiveAfter state ls = true ↔ ∃ above line below, ls = above ++ line :: below ∧
      (finalState state above).kind line = .text ∧ Holds line := by
  induction ls generalizing state with
  | nil => simp [hasDirectiveAfter]
  | cons line rest ih =>
    simp only [hasDirectiveAfter, Bool.or_eq_true, Bool.and_eq_true, decide_eq_true_eq,
      hasDirective_iff, ih]
    constructor
    · rintro (⟨hk, hh⟩ | ⟨above, line', below, rfl, hk, hh⟩)
      · exact ⟨[], line, rest, rfl, hk, hh⟩
      · exact ⟨line :: above, line', below, rfl, hk, hh⟩
    · rintro ⟨above, line', below, he, hk, hh⟩
      rcases above with _ | ⟨first, above⟩
      · cases he
        exact .inl ⟨hk, hh⟩
      · cases he
        exact .inr ⟨above, line', below, rfl, hk, hh⟩

/-- The check of `text` finds something exactly where a directive is left over. -/
theorem hasUnresolved_iff (text : List Char) :
    hasUnresolved text = true ↔ ∃ before target, Leftover text before target := by
  rw [hasUnresolved, hasDirectiveAfter_iff]
  constructor
  · rintro ⟨above, line, below, hl, hk, left, target, right, he, ht⟩
    exact ⟨_, target, above, line, below, left, right, hl, hk, he, ht, rfl⟩
  · rintro ⟨_, target, above, line, below, left, right, hl, hk, he, ht, -⟩
    exact ⟨above, line, below, hl, hk, left, target, right, he, ht⟩

theorem hasUnresolved_of_notMem {text : List Char} (h : '\x7b' ∉ text) :
    hasUnresolved text = false := by
  rw [Bool.eq_false_iff, ne_eq, hasUnresolved_iff]
  rintro ⟨before, target, above, line, below, left, right, hl, -, rfl, -⟩
  refine h ?_
  rw [← flatten_lines text, hl]
  simp [written, opener]

/-! ## Stretches -/

/-- A part of an expansion that is copied in one piece, from a line of a kind. -/
structure Stretch where
  kind : LineKind
  text : List Char

/-- The text of some stretches. -/
def assembled (stretches : List Stretch) : List Char := stretches.flatMap Stretch.text

/-- The stretches for pieces of a text line, where the characters `before` wait to be copied. -/
def stretchPieces (inclusion : List Char → Except Error (List Stretch)) (before : List Char) :
    List Piece → Except Error (List Stretch)
  | [] => .ok [⟨.text, before⟩]
  | .character c :: rest => stretchPieces inclusion (before ++ [c]) rest
  | .directive target :: rest =>
    match inclusion target with
    | .error e => .error e
    | .ok inner =>
      (stretchPieces inclusion [] rest).map fun more => ⟨.text, before⟩ :: (inner ++ more)

/-- The stretches for a line met in a state of the scan. -/
def stretchScanned (inclusion : List Char → Except Error (List Stretch)) (state : ScanState)
    (line : List Char) : Except Error (List Stretch) :=
  match state.kind line with
  | .verbatim => .ok [⟨.verbatim, line⟩]
  | .text => stretchPieces inclusion [] (pieces line)

/-- The stretches for some lines that follow a state of the scan. -/
def stretchLines (inclusion : List Char → Except Error (List Stretch)) :
    ScanState → List (List Char) → Except Error (List Stretch)
  | _, [] => .ok []
  | state, line :: rest =>
    match stretchScanned inclusion state line with
    | .error e => .error e
    | .ok first => (stretchLines inclusion (state.step line) rest).map (first ++ ·)

/-- The stretches of the file that a directive asks for. -/
def stretchIncluded (w : Workspace) (root : PathName)
    (stretch : List Char → List Char → Except Error (List Stretch)) (target : List Char) :
    Except Error (List Stretch) :=
  let requested := trim target
  match locate w root requested with
  | .error e => .error e
  | .ok l =>
    match w.textAt l with
    | .error e => .error (.file e)
    | .ok text => stretch requested text.toList

/-- The stretches of the expansion of a text, as `expandAt` puts them together. -/
def stretchesAt (w : Workspace) (root : PathName) (limit : Nat) :
    Nat → List Char → List Char → Except Error (List Stretch)
  | 0, origin, _ => .error (.depthExceeded (String.ofList origin) limit)
  | levels + 1, _, text =>
    stretchLines (stretchIncluded w root (stretchesAt w root limit levels)) .outside (lines text)

/-! ## The stretches joined -/

section
variable {inclusion : List Char → Except Error (List Char)}
  {stretched : List Char → Except Error (List Stretch)}

theorem pieces_of_hasOpener {line : List Char} (h : hasOpener line = false) :
    pieces line = line.map .character := by
  induction line with
  | nil => exact pieces_nil
  | cons c rest ih =>
    rw [hasOpener, Bool.or_eq_false_iff] at h
    have hd : directive? (c :: rest) = none := by simp [directive?, h.1]
    rw [pieces_cons_of_none hd, ih h.2, List.map_cons]

theorem expandPieces_characters (line : List Char) :
    expandPieces inclusion (line.map .character) = .ok line := by
  induction line with
  | nil => rfl
  | cons c rest ih => rw [List.map_cons, expandPieces, ih]; rfl

theorem expandLine_eq (line : List Char) :
    expandLine inclusion line = expandPieces inclusion (pieces line) := by
  unfold expandLine
  split
  · rfl
  · next h => rw [pieces_of_hasOpener (by simpa using h), expandPieces_characters]

/-! ## Texts without directives -/

theorem pieces_of_hasDirective {line : List Char} (h : hasDirective line = false) :
    pieces line = line.map .character := by
  rw [hasDirective] at h
  fun_induction pieces line with
  | case1 => simp at h
  | case2 => rfl
  | case3 c rest _ ih => rw [List.map_cons, ih (by simpa using h)]

theorem expandLines_of_hasDirectiveAfter {state : ScanState} {ls : List (List Char)}
    (h : hasDirectiveAfter state ls = false) :
    expandLines inclusion state ls = .ok ls.flatten := by
  induction ls generalizing state with
  | nil => rfl
  | cons line rest ih =>
    rw [hasDirectiveAfter, Bool.or_eq_false_iff] at h
    have hline : expandScanned inclusion state line = .ok line := by
      unfold expandScanned
      cases hk : state.kind line with
      | verbatim => rfl
      | text =>
        have hd : hasDirective line = false := by simpa [hk] using h.1
        dsimp only
        rw [expandLine_eq, pieces_of_hasDirective hd, expandPieces_characters]
    rw [expandLines, hline, ih h.2]
    rfl

/-- A text without directives on its text lines expands to itself, whatever `w` holds. -/
theorem expand_of_hasUnresolved {text : List Char} (h : hasUnresolved text = false)
    (w : Workspace) (root : PathName) (limit : Nat) : expand w root limit text = .ok text := by
  rw [expand, expandAt, expandLines_of_hasDirectiveAfter h, flatten_lines]

theorem expand_of_directive {w : Workspace} {root : PathName} {text target : List Char}
    {l : Location} {found : String} (hlines : lines text = [text])
    (hkind : ScanState.outside.kind text = .text) (hpieces : pieces text = [.directive target])
    (hl : locate w root (trim target) = .ok l) (hfound : w.textAt l = .ok found)
    (h : hasUnresolved found.toList = false) (levels : Nat) :
    expand w root (levels + 1) text = .ok found.toList := by
  have hincluded : included w root (expandAt w root (levels + 1) (levels + 1)) target =
      .ok found.toList := by
    simp only [included, hl, hfound, expandAt, expandLines_of_hasDirectiveAfter h, flatten_lines]
  have hline : expandScanned (included w root (expandAt w root (levels + 1) (levels + 1)))
      .outside text = .ok found.toList := by
    simp only [expandScanned, hkind, expandLine_eq, hpieces, expandPieces, hincluded, Except.map,
      List.append_nil]
  rw [expand, expandAt, hlines, expandLines, hline]
  simp only [expandLines, Except.map, List.append_nil]

/-! ## The stretches of texts with directives -/

theorem assembled_append (first rest : List Stretch) :
    assembled (first ++ rest) = assembled first ++ assembled rest := by
  simp [assembled]

theorem stretchPieces_assembled
    (h : ∀ target, inclusion target = (stretched target).map assembled) (before : List Char)
    (ps : List Piece) :
    (stretchPieces stretched before ps).map assembled =
      (expandPieces inclusion ps).map (before ++ ·) := by
  induction ps generalizing before with
  | nil => simp [stretchPieces, expandPieces, Except.map, assembled]
  | cons p rest ih =>
    cases p with
    | character c =>
      rw [stretchPieces, ih, expandPieces]
      cases expandPieces inclusion rest <;> simp [Except.map]
    | directive target =>
      have hrest := ih []
      rw [stretchPieces, expandPieces, h]
      cases stretched target with
      | error e => rfl
      | ok inner =>
        cases hs : stretchPieces stretched [] rest <;>
          cases he : expandPieces inclusion rest <;>
          simp_all [Except.map, assembled]

theorem stretchLines_assembled
    (h : ∀ target, inclusion target = (stretched target).map assembled) (state : ScanState)
    (ls : List (List Char)) :
    (stretchLines stretched state ls).map assembled = expandLines inclusion state ls := by
  induction ls generalizing state with
  | nil => rfl
  | cons line rest ih =>
    have hline : (stretchScanned stretched state line).map assembled =
        expandScanned inclusion state line := by
      unfold stretchScanned expandScanned
      cases state.kind line with
      | verbatim => simp [Except.map, assembled]
      | text =>
        simp only [expandLine_eq, stretchPieces_assembled h]
        cases expandPieces inclusion (pieces line) <;> simp [Except.map]
    rw [stretchLines, expandLines, ← hline, ← ih]
    cases stretchScanned stretched state line with
    | error e => rfl
    | ok first =>
      cases stretchLines stretched (state.step line) rest <;>
        simp [Except.map, assembled_append]

end

theorem expandAt_eq_stretchesAt (w : Workspace) (root : PathName) (limit levels : Nat)
    (origin text : List Char) :
    expandAt w root limit levels origin text =
      (stretchesAt w root limit levels origin text).map assembled := by
  induction levels generalizing origin text with
  | zero => rfl
  | succ levels ih =>
    rw [expandAt, stretchesAt]
    refine (stretchLines_assembled (fun target => ?_) .outside (lines text)).symm
    simp only [included, stretchIncluded]
    cases locate w root (trim target) with
    | error e => rfl
    | ok l =>
      dsimp only
      cases w.textAt l with
      | error e => rfl
      | ok inner => exact ih (trim target) inner.toList

/-! ## Stretches of text -/

/-- Stretches of text in which no directive is written. -/
def IsFree (stretches : List Stretch) : Prop :=
  ∀ s ∈ stretches, s.kind = .text → ¬ Holds s.text

theorem IsFree.append {first rest : List Stretch} (hf : IsFree first) (hr : IsFree rest) :
    IsFree (first ++ rest) := by
  intro s hs
  rcases List.mem_append.1 hs with hs | hs
  · exact hf s hs
  · exact hr s hs

section
variable {stretched : List Char → Except Error (List Stretch)}

/-- Reading from inside `before`, which begins no directive, goes on into the rest, so a directive
that could be read from the beginning alone could be read from the whole. -/
theorem not_holds_of_before {before text : List Char}
    (h : ∀ s, s ≠ [] → s <:+ before → directive? (s ++ text) = none) : ¬ Holds before := by
  rintro ⟨left, target, right, rfl, ht⟩
  have hs := h (written target ++ right) (by simp [written, opener])
    ⟨left, by rw [List.append_assoc]⟩
  rw [List.append_assoc, directive?_written ht] at hs
  cases hs

theorem isFree_of_stretchPieces
    (h : ∀ target inner, stretched target = .ok inner → IsFree inner) {before text : List Char}
    (hb : ∀ s, s ≠ [] → s <:+ before → directive? (s ++ text) = none) {out : List Stretch}
    (ho : stretchPieces stretched before (pieces text) = .ok out) : IsFree out := by
  have hfree : IsFree [⟨.text, before⟩] := by
    intro s hs _
    rw [List.mem_singleton.1 hs]
    exact not_holds_of_before hb
  fun_induction pieces text generalizing before out with
  | case1 text target rest hd _ ih =>
    rw [stretchPieces] at ho
    cases hi : stretched target with
    | error e => simp [hi] at ho
    | ok inner =>
      simp only [hi] at ho
      cases hr : stretchPieces stretched [] (pieces rest) with
      | error e => simp [hr, Except.map] at ho
      | ok more =>
        simp only [hr, Except.map, Except.ok.injEq] at ho
        rw [← ho]
        have hmore : IsFree more := by
          refine ih (fun s hs hsuf => absurd (List.suffix_nil.1 hsuf) hs) hr fun s hs _ => ?_
          rw [List.mem_singleton.1 hs]
          exact not_holds_of_suffixes fun s hs hsuf => absurd (List.suffix_nil.1 hsuf) hs
        exact hfree.append ((h target inner hi).append hmore)
  | case2 =>
    cases ho
    exact hfree
  | case3 c rest hd ih =>
    rw [stretchPieces] at ho
    have hb' : ∀ s, s ≠ [] → s <:+ before ++ [c] → directive? (s ++ rest) = none := by
      intro s hs hsuf
      obtain ⟨init, last, rfl⟩ : ∃ init last, s = init ++ [last] :=
        ⟨_, _, (List.dropLast_concat_getLast hs).symm⟩
      obtain ⟨hi, hl⟩ : init <:+ before ∧ last = c := by
        obtain ⟨front, hf⟩ := hsuf
        rw [← List.append_assoc] at hf
        obtain ⟨h1, h2⟩ := List.append_inj' hf rfl
        exact ⟨⟨front, h1⟩, by simpa using h2⟩
      subst hl
      rw [List.append_assoc, List.singleton_append]
      by_cases hn : init = []
      · rw [hn]
        exact hd
      · exact hb init hn hi
    refine ih hb' ho fun s hs _ => ?_
    rw [List.mem_singleton.1 hs]
    exact not_holds_of_before hb'

theorem isFree_of_stretchLines
    (h : ∀ target inner, stretched target = .ok inner → IsFree inner) {state : ScanState}
    {ls : List (List Char)} {out : List Stretch}
    (ho : stretchLines stretched state ls = .ok out) : IsFree out := by
  induction ls generalizing state out with
  | nil => cases ho; intro s hs; cases hs
  | cons line rest ih =>
    rw [stretchLines] at ho
    cases hf : stretchScanned stretched state line with
    | error e => simp [hf] at ho
    | ok first =>
      simp only [hf] at ho
      cases hr : stretchLines stretched (state.step line) rest with
      | error e => simp [hr, Except.map] at ho
      | ok more =>
        simp only [hr, Except.map, Except.ok.injEq] at ho
        rw [← ho]
        refine IsFree.append ?_ (ih hr)
        unfold stretchScanned at hf
        split at hf
        · cases hf
          intro s hs hk
          rw [List.mem_singleton.1 hs] at hk
          cases hk
        · exact isFree_of_stretchPieces h
            (fun s hs hsuf => absurd (List.suffix_nil.1 hsuf) hs) hf

end

/-- No directive is copied in one piece from a text line into `out`. -/
theorem isFree_of_stretchesAt {w : Workspace} {root : PathName} {limit levels : Nat}
    {origin text : List Char} {out : List Stretch}
    (h : stretchesAt w root limit levels origin text = .ok out) : IsFree out := by
  induction levels generalizing origin text out with
  | zero => cases h
  | succ levels ih =>
    rw [stretchesAt] at h
    refine isFree_of_stretchLines (fun target inner hi => ?_) h
    simp only [stretchIncluded] at hi
    split at hi
    · cases hi
    · split at hi
      · cases hi
      · exact ih hi

/-! ## What is left over -/

/-- A stretch of an expansion holds the directive that stands behind `before`. -/
def StandsIn (stretches : List Stretch) (s : Stretch) (before target : List Char) : Prop :=
  ∃ earlier later left right, stretches = earlier ++ s :: later ∧
    before = assembled earlier ++ left ∧ s.text = left ++ written target ++ right

/-- A directive is put together from the texts of several stretches. -/
def Spliced (stretches : List Stretch) (before target : List Char) : Prop :=
  ∀ s, ¬ StandsIn stretches s before target

/-- A directive is copied from a line inside a fence. -/
def Unfenced (stretches : List Stretch) (before target : List Char) : Prop :=
  ∃ s, s.kind = .verbatim ∧ StandsIn stretches s before target

/-- Something is left over of an expansion exactly where a directive on a text line of the result
is put together from several stretches or is copied from inside a fence. -/
theorem hasUnresolved_expand_iff {w : Workspace} {root : PathName} {limit : Nat}
    {text out : List Char} (h : expand w root limit text = .ok out) :
    ∃ stretches, stretchesAt w root limit (limit + 1) documentName text = .ok stretches ∧
      assembled stretches = out ∧
      (hasUnresolved out = true ↔ ∃ before target, Leftover out before target ∧
        (Spliced stretches before target ∨ Unfenced stretches before target)) := by
  rw [expand, expandAt_eq_stretchesAt] at h
  cases hs : stretchesAt w root limit (limit + 1) documentName text with
  | error e => simp [hs, Except.map] at h
  | ok stretches =>
    simp only [hs, Except.map, Except.ok.injEq] at h
    refine ⟨stretches, rfl, h, ?_⟩
    rw [hasUnresolved_iff]
    constructor
    · rintro ⟨before, target, hl⟩
      refine ⟨before, target, hl, ?_⟩
      by_cases hin : ∃ s, StandsIn stretches s before target
      · obtain ⟨s, hin⟩ := hin
        refine .inr ⟨s, ?_, hin⟩
        obtain ⟨earlier, later, left, right, rfl, -, hst⟩ := hin
        obtain ⟨_, _, _, _, _, _, _, _, ht, _⟩ := hl
        -- a stretch of text holds no directive, so this one was fenced
        cases hk : s.kind with
        | verbatim => rfl
        | text =>
          exact absurd ⟨left, target, right, hst, ht⟩
            (isFree_of_stretchesAt hs s (by simp) hk)
      · exact .inl fun s hs => hin ⟨s, hs⟩
    · rintro ⟨before, target, hl, -⟩
      exact ⟨before, target, hl⟩

/-! ## Texts that leave a directive over -/

/-- A file that holds a fence. -/
def fenceFile : FileName := ⟨"f", by decide⟩

/-- The file `a` holds the first two characters of a directive, and `f` holds a fence. -/
def fragments : Workspace where
  tree := (FileTree.empty.insert [⟨"a", by decide⟩]
    (.file (String.ofList (opener.take 2)).toUTF8)).insert [fenceFile]
      (.file (String.ofList (List.replicate 3 fenceMark)).toUTF8)
  start := []
  sealed := []

/-- A directive in front of the rest of one. -/
def splicedText : List Char := written ['a'] ++ opener.drop 2 ++ ['b'] ++ closer

/-- A directive in a fence, behind a line that includes a fence. -/
def unfencedText : List Char :=
  written ['f'] ++ ['\n'] ++ List.replicate 3 fenceMark ++ ['\n'] ++ written ['b'] ++ ['\n']

theorem hasUnresolved_expand_iff_spliced :
    expand fragments ⟨"."⟩ 10 splicedText = .ok (written ['b']) ∧
      ∃ stretches, stretchesAt fragments ⟨"."⟩ 10 11 documentName splicedText = .ok stretches ∧
        assembled stretches = written ['b'] ∧
        (hasUnresolved (written ['b']) = true ↔ ∃ before target,
          Leftover (written ['b']) before target ∧
            (Spliced stretches before target ∨ Unfenced stretches before target)) :=
  have h : expand fragments ⟨"."⟩ 10 splicedText = .ok (written ['b']) := by decide +kernel
  ⟨h, hasUnresolved_expand_iff h⟩

theorem hasUnresolved_expand_fragments :
    (expand fragments ⟨"."⟩ 10 splicedText = .ok (written ['b']) ∧
      hasUnresolved (written ['b']) = true) ∧
    ∃ out, expand fragments ⟨"."⟩ 10 unfencedText = .ok out ∧ hasUnresolved out = true := by
  refine ⟨⟨by decide +kernel, by decide +kernel⟩, List.replicate 3 fenceMark ++ ['\n'] ++
    List.replicate 3 fenceMark ++ ['\n'] ++ written ['b'] ++ ['\n'], ?_, ?_⟩ <;> decide +kernel

end AgentDocs.Template
