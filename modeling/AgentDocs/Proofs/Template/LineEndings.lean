import Mathlib.Data.List.Induction
import AgentDocs.Build.Run
import AgentDocs.Proofs.Build.Artifact
import AgentDocs.Proofs.Template.Confinement
import AgentDocs.Proofs.Template.Leftover

/-!
# Line endings of a checkout

A project can be checked out with a carriage return in front of every line feed. Nothing but these
characters changes then: `crlf` commutes with the cutting of lines, with trimming, with the scan of
fences, with the search for directives and with the splitting of headers, and so it commutes with
the expansion of a template.

* `lines_crlf`, `dropWhile_crlf`, `dropEndWhile_crlf`: the operations on texts.
* `kind_crlf`, `step_crlf`: the scan of fences does not see the difference.
* `expandAt_crlf`: expansion in the other checkout.
* `compile_crlf`: the bodies of agents are the same in the end.
-/

namespace AgentDocs

open AgentDocs.Files AgentDocs.Text

namespace Text

/-- A text with a carriage return in front of every line feed. -/
def crlf (text : List Char) : List Char :=
  text.flatMap fun c => if c = '\n' then ['\r', '\n'] else [c]

theorem crlf_nil : crlf [] = [] := rfl

theorem crlf_feed (rest : List Char) : crlf ('\n' :: rest) = '\r' :: '\n' :: crlf rest := rfl

theorem crlf_cons {c : Char} (h : c ≠ '\n') (rest : List Char) :
    crlf (c :: rest) = c :: crlf rest := by
  simp [crlf, h]

theorem crlf_append (a b : List Char) : crlf (a ++ b) = crlf a ++ crlf b := by
  simp [crlf]

theorem crlf_of_notMem {text : List Char} (h : '\n' ∉ text) : crlf text = text := by
  induction text with
  | nil => rfl
  | cons c rest ih =>
    rw [List.mem_cons, not_or] at h
    rw [crlf_cons (Ne.symm h.1), ih h.2]

theorem feed_mem_crlf {text : List Char} : '\n' ∈ crlf text ↔ '\n' ∈ text := by
  induction text with
  | nil => rfl
  | cons c rest ih =>
    by_cases h : c = '\n'
    · subst h
      simp [crlf_feed]
    · simp [crlf_cons h, ih]

theorem crlf_eq_iff_of_notMem {text other : List Char} (h : '\n' ∉ other) :
    crlf text = other ↔ text = other := by
  constructor
  · intro he
    have hn : '\n' ∉ text := by rwa [← feed_mem_crlf, he]
    rwa [crlf_of_notMem hn] at he
  · rintro rfl
    exact crlf_of_notMem h

theorem isEmpty_crlf (text : List Char) : (crlf text).isEmpty = text.isEmpty := by
  cases text with
  | nil => rfl
  | cons c rest =>
    by_cases h : c = '\n'
    · subst h
      rfl
    · rw [crlf_cons h]
      rfl

/-! ## Operations on texts -/

theorem lines_crlf (text : List Char) : lines (crlf text) = (lines text).map crlf := by
  induction text with
  | nil => rfl
  | cons c rest ih =>
    by_cases h : c = '\n'
    · subst h
      have hr : ¬ '\r' = '\n' := by decide
      simp only [crlf_feed, lines, hr, if_false, if_true, ih, List.map_cons]
      rfl
    · simp only [crlf_cons h, lines, h, if_false, ih]
      cases lines rest with
      | nil => simp [crlf_cons h, crlf_nil]
      | cons line more => simp [crlf_cons h]

section
variable {p : Char → Bool} (hp : p '\r' = p '\n')
include hp

theorem dropWhile_crlf (text : List Char) :
    (crlf text).dropWhile p = crlf (text.dropWhile p) := by
  induction text with
  | nil => rfl
  | cons c rest ih =>
    by_cases h : c = '\n'
    · subst h
      cases hn : p '\n' with
      | true => simp [crlf_feed, hp, hn, ih]
      | false => simp [crlf_feed, hp, hn]
    · cases hc : p c with
      | true => simp [crlf_cons h, hc, ih]
      | false => simp [crlf_cons h, hc]

theorem takeWhile_crlf (text : List Char) :
    (crlf text).takeWhile p = crlf (text.takeWhile p) := by
  induction text with
  | nil => rfl
  | cons c rest ih =>
    by_cases h : c = '\n'
    · subst h
      cases hn : p '\n' with
      | true => simp [crlf_feed, hp, hn, ih]
      | false => simp [crlf_feed, hp, hn, crlf_nil]
    · cases hc : p c with
      | true => simp [crlf_cons h, hc, ih]
      | false => simp [crlf_cons h, hc, crlf_nil]

theorem dropEndWhile_crlf (text : List Char) :
    dropEndWhile p (crlf text) = crlf (dropEndWhile p text) := by
  induction text using List.reverseRecOn with
  | nil => rfl
  | append_singleton front c ih =>
    unfold dropEndWhile at ih ⊢
    by_cases h : c = '\n'
    · subst h
      have hl : crlf ['\n'] = ['\r', '\n'] := rfl
      cases hn : p '\n' with
      | true => simpa [crlf_append, hl, hp, hn] using ih
      | false => simp [crlf_append, hl, hn]
    · have hl : crlf [c] = [c] := by rw [crlf_cons h, crlf_nil]
      cases hc : p c with
      | true => simpa [crlf_append, hl, hc] using ih
      | false => simp [crlf_append, hl, hc]

end

theorem trim_crlf (text : List Char) : trim (crlf text) = crlf (trim text) := by
  have hb : isBlank '\r' = isBlank '\n' := by decide
  rw [trim, trimEnd, trimStart, dropWhile_crlf hb, dropEndWhile_crlf hb]
  rfl

theorem joinPairedBreaks_crlf {text : List Char} (h : '\r' ∉ text) :
    joinPairedBreaks (crlf text) = text := by
  induction text with
  | nil => rfl
  | cons c rest ih =>
    rw [List.mem_cons, not_or] at h
    by_cases hc : c = '\n'
    · subst hc
      rw [crlf_feed, joinPairedBreaks, ih h.2]
    · rw [crlf_cons hc, joinPairedBreaks, ih h.2]
      intro _ hr _
      exact h.1 hr.symm

theorem normalizeBreaks_crlf {text : List Char} (h : '\r' ∉ text) :
    normalizeBreaks (crlf text) = normalizeBreaks text := by
  by_cases hn : '\n' ∈ text
  · have hr : '\r' ∈ crlf text := List.mem_flatMap.2 ⟨'\n', hn, by simp⟩
    have h' : text.contains '\r' = false := by simpa using h
    simp only [normalizeBreaks, h', List.contains_iff_mem.2 hr, Bool.false_eq_true, if_true,
      if_false]
    rw [joinPairedBreaks_crlf h, convertLoneBreaks_of_notMem h]
  · rw [crlf_of_notMem hn]

end Text

/-! ## The other checkout -/

namespace Files

/-- The bytes of a file with carriage returns, if it is a text. -/
def crlfBytes (bytes : ByteArray) : ByteArray :=
  match String.fromUTF8? bytes with
  | some text => (String.ofList (crlf text.toList)).toUTF8
  | none => bytes

/-- A file with carriage returns if it is a text; directories and links stay as they are. -/
def Entry.crlf : Entry → Entry
  | .file bytes => .file (crlfBytes bytes)
  | e => e

namespace FileTree

/-- The tree with carriage returns in every file that is a text. -/
def crlf (t : FileTree) : FileTree where
  entries := t.entries.map fun x => (x.1, x.2.crlf)
  nodup := by
    rw [List.map_map]
    exact t.nodup

theorem lookup_map (f : Entry → Entry) (entries : List (Location × Entry)) (l : Location) :
    (entries.map fun x => (x.1, f x.2)).lookup l = (entries.lookup l).map f := by
  induction entries with
  | nil => rfl
  | cons x rest ih =>
    obtain ⟨m, e⟩ := x
    simp only [List.map_cons, List.lookup_cons]
    cases l == m with
    | true => rfl
    | false => exact ih

theorem find?_crlf (t : FileTree) (l : Location) : t.crlf.find? l = (t.find? l).map Entry.crlf := by
  unfold find?
  split
  · rfl
  · exact lookup_map Entry.crlf t.entries l

theorem sameOutline_crlf (t : FileTree) : t.SameOutline t.crlf := by
  intro l
  rw [outline?, outline?, find?_crlf]
  cases t.find? l with
  | none => rfl
  | some e => cases e <;> rfl

end FileTree

namespace Workspace

/-- The workspace with carriage returns in every file that is a text. -/
def crlf (w : Workspace) : Workspace := { w with tree := w.tree.crlf }

theorem textAt_crlf (w : Workspace) (l : Location) :
    w.crlf.textAt l = (w.textAt l).map fun text => String.ofList (Text.crlf text.toList) := by
  have hf : w.crlf.tree.find? l = (w.tree.find? l).map Entry.crlf := w.tree.find?_crlf l
  simp only [textAt, bytesAt, hf]
  cases w.tree.find? l with
  | none => rfl
  | some e =>
    cases e with
    | directory => rfl
    | link target => rfl
    | file bytes =>
      simp only [Option.map_some, Entry.crlf, crlfBytes, bind, Except.bind]
      cases hb : String.fromUTF8? bytes with
      | none => simp only [hb, Except.map]
      | some text => simp only [fromUTF8?_toUTF8, Except.map]

end Workspace

end Files

namespace Template

/-! ## Fences -/

theorem parse?_crlf (line : List Char) :
    Fence.parse? (crlf line) =
      (Fence.parse? line).map fun f => { f with info := crlf f.info } := by
  have hb : isBlank '\r' = isBlank '\n' := by decide
  have hm : ('\r' == fenceMark) = ('\n' == fenceMark) := by decide
  have hmarks : ∀ text : List Char,
      (crlf text).takeWhile (· == fenceMark) = text.takeWhile (· == fenceMark) := by
    intro text
    rw [takeWhile_crlf (p := (· == fenceMark)) hm, crlf_of_notMem]
    intro h
    simpa [fenceMark] using List.mem_takeWhile_imp h
  simp only [Fence.parse?, trimStart, dropWhile_crlf hb,
    dropWhile_crlf (p := (· == fenceMark)) hm, hmarks, trim_crlf]
  by_cases h : ((line.dropWhile isBlank).takeWhile (· == fenceMark)).length < 3
  · simp only [h, if_true, Option.map_none]
  · simp only [h, if_false, Option.map_some]

theorem kind_crlf (state : ScanState) (line : List Char) :
    state.kind (crlf line) = state.kind line := by
  unfold ScanState.kind
  rw [parse?_crlf]
  cases Fence.parse? line <;> rfl

theorem step_crlf (state : ScanState) (line : List Char) :
    state.step (crlf line) = state.step line := by
  unfold ScanState.step
  rw [parse?_crlf]
  cases Fence.parse? line with
  | none => rfl
  | some fence =>
    have hi : Fence.hasInfo { fence with info := crlf fence.info } = fence.hasInfo := by
      rw [Fence.hasInfo, Fence.hasInfo, isEmpty_crlf]
    simp only [Option.map_some, ScanState.onFence, hi]

/-! ## Directives -/

/-- A text goes over no line break, except that one may end it. -/
def IsLine (text : List Char) : Prop := '\n' ∉ text.dropLast

theorem isLine_of_mem_lines {text line : List Char} (h : line ∈ lines text) : IsLine line := by
  induction text generalizing line with
  | nil => cases h
  | cons c rest ih =>
    unfold lines at h
    split at h
    · rcases List.mem_cons.1 h with rfl | h
      · simp [IsLine]
      · exact ih h
    · next hc =>
      split at h
      · rw [List.mem_singleton.1 h]
        simp [IsLine]
      · next first more hl =>
        rcases List.mem_cons.1 h with rfl | h
        · have hf : IsLine first := ih (by rw [hl]; exact List.mem_cons_self)
          have hmem : first ∈ lines rest := by
            rw [hl]
            exact List.mem_cons_self
          have hne : first ≠ [] := lines_ne_nil hmem
          rw [IsLine, List.dropLast_cons_of_ne_nil hne, List.mem_cons, not_or]
          exact ⟨Ne.symm hc, hf⟩
        · exact ih (by rw [hl]; exact List.mem_cons_of_mem _ h)

theorem IsLine.of_append {before after : List Char} (h : IsLine (before ++ after))
    (ha : after ≠ []) : '\n' ∉ before ∧ IsLine after := by
  rw [IsLine, List.dropLast_append_of_ne_nil ha, List.mem_append, not_or] at h
  exact h

theorem IsLine.right {before after : List Char} (h : IsLine (before ++ after)) : IsLine after := by
  by_cases ha : after = []
  · simp [IsLine, ha]
  · exact (h.of_append ha).2

theorem isPrefixOf_crlf {word : List Char} (hn : '\n' ∉ word) (hr : '\r' ∉ word)
    (text : List Char) : word.isPrefixOf (crlf text) = word.isPrefixOf text := by
  induction word generalizing text with
  | nil => simp
  | cons d word ih =>
    rw [List.mem_cons, not_or] at hn hr
    cases text with
    | nil => rfl
    | cons c rest =>
      by_cases h : c = '\n'
      · subst h
        rw [crlf_feed, List.isPrefixOf_cons_cons, List.isPrefixOf_cons_cons,
          beq_eq_false_iff_ne.2 (Ne.symm hn.1), beq_eq_false_iff_ne.2 (Ne.symm hr.1)]
        rfl
      · rw [crlf_cons h, List.isPrefixOf_cons_cons, List.isPrefixOf_cons_cons, ih hn.2 hr.2]

theorem directive?_crlf (text : List Char) :
    directive? (crlf text) = (directive? text).map fun x => (crlf x.1, crlf x.2) := by
  have hp : decide ('\r' ≠ '\x7d') = decide ('\n' ≠ '\x7d') := by decide
  have htake := takeWhile_crlf (p := fun c => decide (c ≠ '\x7d')) hp
  have hdrop := dropWhile_crlf (p := fun c => decide (c ≠ '\x7d')) hp
  have ho : crlf opener = opener := crlf_of_notMem (by decide)
  have hc : crlf closer = closer := crlf_of_notMem (by decide)
  unfold directive?
  rw [isPrefixOf_crlf (by decide) (by decide)]
  split
  · next h =>
    obtain ⟨after, rfl⟩ := List.isPrefixOf_iff_prefix.1 h
    simp only [crlf_append, ho, List.drop_left, htake, hdrop]
    rw [isPrefixOf_crlf (by decide) (by decide)]
    split
    · next h =>
      obtain ⟨rest, hrest⟩ := List.isPrefixOf_iff_prefix.1 h
      rw [← hrest]
      simp only [crlf_append, hc, List.drop_left, Option.map_some]
    · rfl
  · rfl

section
variable {given other : List Char → Except Error (List Char)}
  (hg : ∀ target, other target = (given target).map crlf)
include hg

/-- The texts for the pieces of `text`, a line. No target in it has a line break. -/
theorem expandPieces_crlf {text : List Char} (hl : IsLine text) :
    expandPieces other (pieces (crlf text)) = (expandPieces given (pieces text)).map crlf := by
  fun_induction pieces text with
  | case1 text target rest h _ ih =>
    have ht := eq_of_directive? h
    rw [ht] at hl
    have hrest : IsLine rest := hl.right
    have htarget : '\n' ∉ target := by
      have hend : closer ++ rest ≠ [] := by simp [closer]
      rw [List.append_assoc] at hl
      intro hm
      exact (hl.of_append hend).1 (List.mem_append_right _ hm)
    rw [pieces_of_some (by rw [directive?_crlf, h]; rfl), crlf_of_notMem htarget]
    simp only [expandPieces, hg, ih hrest]
    cases given target with
    | error e => rfl
    | ok out =>
      cases expandPieces given (pieces rest) with
      | error e => rfl
      | ok more => simp [Except.map, crlf_append]
  | case2 =>
    rw [crlf_nil, pieces_nil]
    rfl
  | case3 c rest h ih =>
    have hline : IsLine ([c] ++ rest) := hl
    have hrest : IsLine rest := hline.right
    have hnone : directive? (crlf (c :: rest)) = none := by rw [directive?_crlf, h]; rfl
    by_cases hc : c = '\n'
    · subst hc
      have hfeed : directive? ('\n' :: crlf rest) = none := by simp [directive?, opener]
      rw [crlf_feed] at hnone ⊢
      rw [pieces_cons_of_none hnone, pieces_cons_of_none hfeed]
      simp only [expandPieces, ih hrest]
      cases expandPieces given (pieces rest) with
      | error e => rfl
      | ok more => rfl
    · rw [crlf_cons hc] at hnone ⊢
      rw [pieces_cons_of_none hnone]
      simp only [expandPieces, ih hrest]
      cases expandPieces given (pieces rest) with
      | error e => rfl
      | ok more => simp [Except.map, crlf_cons hc]

theorem expandScanned_crlf (state : ScanState) {line : List Char} (hl : IsLine line) :
    expandScanned other state (crlf line) = (expandScanned given state line).map crlf := by
  unfold expandScanned
  rw [kind_crlf]
  cases state.kind line with
  | verbatim => rfl
  | text => simp only [expandLine_eq, expandPieces_crlf hg hl]

theorem expandLines_crlf (state : ScanState) {ls : List (List Char)} (hl : ∀ l ∈ ls, IsLine l) :
    expandLines other state (ls.map crlf) = (expandLines given state ls).map crlf := by
  induction ls generalizing state with
  | nil => rfl
  | cons line rest ih =>
    rw [List.forall_mem_cons] at hl
    rw [List.map_cons, expandLines, expandLines, expandScanned_crlf hg state hl.1, step_crlf,
      ih _ hl.2]
    cases expandScanned given state line with
    | error e => rfl
    | ok out =>
      cases expandLines given (state.step line) rest with
      | error e => rfl
      | ok more => simp [Except.map, crlf_append]

end

/-! ## Expansion -/

/-- The file that `target` asks for, in the other checkout. -/
theorem included_crlf (w : Workspace) (root : PathName)
    {expand other : List Char → List Char → Except Error (List Char)}
    (he : ∀ origin text, other origin (crlf text) = (expand origin text).map crlf)
    (target : List Char) :
    included w.crlf root other target = (included w root expand target).map crlf := by
  have hs : w.start = w.crlf.start := rfl
  have ho : w.tree.SameOutline w.crlf.tree := w.tree.sameOutline_crlf
  simp only [included, ← locate_congr hs ho]
  cases locate w root (trim target) with
  | error e => rfl
  | ok l =>
    simp only [w.textAt_crlf]
    cases w.textAt l with
    | error e => rfl
    | ok text => simp only [Except.map, String.toList_ofList, he]

theorem expandAt_crlf (w : Workspace) (root : PathName) (limit levels : Nat)
    (origin text : List Char) :
    expandAt w.crlf root limit levels origin (crlf text) =
      (expandAt w root limit levels origin text).map crlf := by
  induction levels generalizing origin text with
  | zero =>
    rw [expandAt_zero, expandAt_zero]
    rfl
  | succ levels ih =>
    rw [expandAt, expandAt, lines_crlf]
    exact expandLines_crlf (included_crlf w root ih) .outside
      fun line hl => isLine_of_mem_lines hl

theorem expand_crlf (w : Workspace) (root : PathName) (limit : Nat) (text : List Char) :
    expand w.crlf root limit (crlf text) = (expand w root limit text).map crlf := by
  rw [expand, expand, expandAt_crlf]

/-! ## Headers -/

theorem isDelimiter_crlf (line : List Char) : isDelimiter (crlf line) = isDelimiter line := by
  have hp : isLineEnd '\r' = isLineEnd '\n' := by decide
  have hd : '\n' ∉ delimiter := by decide
  rw [isDelimiter, isDelimiter, dropEndWhile_crlf hp, Bool.eq_iff_iff, beq_iff_eq, beq_iff_eq]
  exact crlf_eq_iff_of_notMem hd

theorem flatten_crlf (ls : List (List Char)) : (ls.map crlf).flatten = crlf ls.flatten := by
  induction ls with
  | nil => rfl
  | cons line rest ih => rw [List.map_cons, List.flatten_cons, List.flatten_cons, ih, crlf_append]

theorem cutAtDelimiter_crlf (ls : List (List Char)) :
    cutAtDelimiter (ls.map crlf) =
      (cutAtDelimiter ls).map fun x => (x.1.map crlf, x.2.map crlf) := by
  induction ls with
  | nil => rfl
  | cons line rest ih =>
    rw [List.map_cons, cutAtDelimiter, cutAtDelimiter, isDelimiter_crlf, ih]
    cases isDelimiter line with
    | true => rfl
    | false => cases cutAtDelimiter rest <;> rfl

theorem split_crlf (text : List Char) :
    split (crlf text) = ⟨(split text).header.map crlf, crlf (split text).body⟩ := by
  unfold split
  rw [lines_crlf]
  cases lines text with
  | nil => rfl
  | cons first rest =>
    simp only [List.map_cons, isDelimiter_crlf, cutAtDelimiter_crlf]
    cases isDelimiter first with
    | false => rfl
    | true =>
      cases cutAtDelimiter rest with
      | none => rfl
      | some parts => simp only [if_true, Option.map_some, flatten_crlf]

theorem suffix_of_cutAtDelimiter {ls header body : List (List Char)}
    (h : cutAtDelimiter ls = some (header, body)) : body <:+ ls := by
  induction ls generalizing header with
  | nil => cases h
  | cons line rest ih =>
    rw [cutAtDelimiter] at h
    split at h
    · cases h
      exact List.suffix_cons line _
    · obtain ⟨⟨before, after⟩, hr, hb⟩ := Option.map_eq_some_iff.1 h
      cases hb
      exact (ih hr).trans (List.suffix_cons line rest)

theorem mem_of_mem_body {text : List Char} {c : Char} (h : c ∈ (split text).body) : c ∈ text := by
  unfold split at h
  split at h
  · exact h
  · next first rest hl =>
    split at h
    · split at h
      · next header body hc =>
        obtain ⟨line, hline, hmem⟩ := List.mem_flatten.1 h
        rw [← flatten_lines text, hl]
        apply List.mem_flatten_of_mem _ hmem
        exact List.mem_cons_of_mem _ ((suffix_of_cutAtDelimiter hc).subset hline)
      · exact h
    · exact h

/-! ## Characters of an expansion -/

section
variable {given : List Char → Except Error (List Char)} {c : Char}
  (hg : ∀ target out, given target = .ok out → c ∉ out)
include hg

theorem notMem_of_expandPieces {ps : List Piece} {out : List Char} (hp : ∀ p ∈ ps, c ∉ p.text)
    (h : expandPieces given ps = .ok out) : c ∉ out := by
  induction ps generalizing out with
  | nil =>
    cases h
    simp
  | cons p rest ih =>
    rw [List.forall_mem_cons] at hp
    cases p with
    | character d =>
      rw [expandPieces] at h
      cases hr : expandPieces given rest with
      | error e => rw [hr] at h; cases h
      | ok more =>
        rw [hr] at h
        cases h
        exact List.not_mem_cons_of_ne_of_not_mem (fun he => hp.1 (by simp [Piece.text, he]))
          (ih hp.2 hr)
    | directive target =>
      rw [expandPieces] at h
      cases ht : given target with
      | error e => rw [ht] at h; cases h
      | ok text =>
        cases hr : expandPieces given rest with
        | error e => rw [ht, hr] at h; cases h
        | ok more =>
          rw [ht, hr] at h
          cases h
          rw [List.mem_append, not_or]
          exact ⟨hg target text ht, ih hp.2 hr⟩

theorem notMem_of_expandScanned {state : ScanState} {line out : List Char} (hl : c ∉ line)
    (h : expandScanned given state line = .ok out) : c ∉ out := by
  unfold expandScanned at h
  split at h
  · cases h
    exact hl
  · rw [expandLine_eq] at h
    refine notMem_of_expandPieces hg (fun p hp hc => hl ?_) h
    rw [← text_pieces line]
    exact List.mem_flatMap_of_mem hp hc

theorem notMem_of_expandLines {state : ScanState} {ls : List (List Char)} {out : List Char}
    (hl : ∀ line ∈ ls, c ∉ line) (h : expandLines given state ls = .ok out) : c ∉ out := by
  induction ls generalizing state out with
  | nil =>
    cases h
    simp
  | cons line rest ih =>
    rw [List.forall_mem_cons] at hl
    rw [expandLines] at h
    cases hs : expandScanned given state line with
    | error e => rw [hs] at h; cases h
    | ok text =>
      cases hr : expandLines given (state.step line) rest with
      | error e => rw [hs, hr] at h; cases h
      | ok more =>
        rw [hs, hr] at h
        cases h
        rw [List.mem_append, not_or]
        exact ⟨notMem_of_expandScanned hg hl.1 hs, ih hl.2 hr⟩

end

/-- Every character `c` of an expansion stands in the text or in a file. -/
theorem notMem_of_expandAt {w : Workspace} {root : PathName} {limit levels : Nat}
    {origin text out : List Char} {c : Char}
    (hw : ∀ l file, w.textAt l = .ok file → c ∉ file.toList) (ht : c ∉ text)
    (h : expandAt w root limit levels origin text = .ok out) : c ∉ out := by
  induction levels generalizing origin text out with
  | zero => cases h
  | succ levels ih =>
    rw [expandAt] at h
    refine notMem_of_expandLines (fun target inner hi => ?_) (fun line hl hc => ht ?_) h
    · unfold included at hi
      dsimp only at hi
      split at hi
      · cases hi
      · next l _ =>
        split at hi
        · cases hi
        · next file hfile => exact ih (hw l file hfile) hi
    · rw [← flatten_lines text]
      exact List.mem_flatten_of_mem hl hc

end Template

/-! ## Agents of two checkouts -/

open Template

/-- A template as it stands in a checkout with carriage returns. -/
def Template.inCrlf (t : Template) : Template :=
  { t with text := String.ofList (crlf t.text.toList) }

/-- A checkout with carriage returns in front of all line feeds expands every template to the same
text, but for these characters, or to the same failure, and headers are split from bodies at the
same places. Where a project has line feeds only, the bodies of its agents are the same once their
line breaks are normalized. -/
theorem compile_crlf (w : Workspace) :
    (∀ root limit text,
      expand w.crlf root limit (crlf text) = (expand w root limit text).map crlf) ∧
    (∀ text, split (crlf text) = ⟨(split text).header.map crlf, crlf (split text).body⟩) ∧
    ((∀ l file, w.textAt l = .ok file → '\r' ∉ file.toList) →
      ∀ (p : Project) (t : Template), '\r' ∉ t.text.toList →
        (∀ e, p.compile w t = .error e → p.compile w.crlf t.inCrlf = .error e) ∧
        ∀ d, p.compile w t = .ok d → ∃ d', p.compile w.crlf t.inCrlf = .ok d' ∧
          normalizeBreaks d'.body = normalizeBreaks d.body) := by
  refine ⟨expand_crlf w, split_crlf, fun hw p t ht => ?_⟩
  have hcompile : p.compile w.crlf t.inCrlf =
      ((expand w p.root p.settings.depthLimit t.text.toList).map crlf).map
        (AgentDocument.compile p.handoffs p.registry t.identity) := by
    rw [Project.compile, Template.inCrlf, String.toList_ofList, expand_crlf]
  rw [hcompile, Project.compile]
  cases h : expand w p.root p.settings.depthLimit t.text.toList with
  | error e => exact ⟨fun e' he => he, fun d hd => (by cases hd)⟩
  | ok out =>
    refine ⟨fun e he => (by cases he), fun d hd => ?_⟩
    cases hd
    refine ⟨_, rfl, ?_⟩
    have hout : '\r' ∉ out := notMem_of_expandAt hw ht h
    rw [AgentDocument.compile_body, AgentDocument.compile_body, split_crlf]
    exact normalizeBreaks_crlf fun hr => hout (mem_of_mem_body hr)

/-! ## A project with an included fence -/

/-- What every text of `w` satisfies is seen on its entries. -/
theorem Files.Workspace.forall_textAt {w : Workspace} {p : String → Prop}
    (h : ∀ x ∈ w.tree.entries, ∀ bytes, x.2 = .file bytes →
      ∀ text, String.fromUTF8? bytes = some text → p text) {l : Location} {text : String}
    (ht : w.textAt l = .ok text) : p text := by
  unfold textAt bytesAt at ht
  cases hf : w.tree.find? l with
  | none => simp [hf, bind, Except.bind] at ht
  | some e =>
    cases e with
    | directory => simp [hf, bind, Except.bind] at ht
    | link target => simp [hf, bind, Except.bind] at ht
    | file bytes =>
      cases hb : String.fromUTF8? bytes with
      | none => simp [hf, hb, bind, Except.bind] at ht
      | some found =>
        simp only [hf, hb, bind, Except.bind, Except.ok.injEq] at ht
        subst ht
        unfold FileTree.find? at hf
        split at hf
        · cases hf
        · obtain ⟨before, after, he, -⟩ := List.lookup_eq_some_iff.1 hf
          exact h (l, .file bytes) (by rw [he]; simp) bytes rfl found hb

/-- A project on one file, `f`, whose text opens a fence that it does not close. -/
def fenced : Workspace where
  tree := FileTree.empty.insert [fenceFile] (.file "a\n```\nb\n".toUTF8)
  start := []
  sealed := []

/-- A template that includes the file twice: on a line of its own and inside a line. -/
def fencedTemplate : Template where
  identity := ⟨"pm", "x"⟩
  kind := .role
  path := ⟨"templates/commands/pm/x.md"⟩
  text := "---\ntitle: x\n---\n\x7b\x7bINCLUDE:f\x7d\x7d\n(\x7b\x7bINCLUDE: f \x7d\x7d)"

theorem carriageReturn_notMem_fenced {l : Location} {text : String}
    (h : fenced.textAt l = .ok text) : '\r' ∉ text.toList := by
  refine Files.Workspace.forall_textAt (p := fun text => '\r' ∉ text.toList) ?_ h
  intro x hx bytes hb found hf
  rw [List.mem_singleton.1 hx] at hb
  cases hb
  rw [fromUTF8?_toUTF8] at hf
  cases hf
  decide

/-- The project that the template belongs to. -/
def fencedProject : Project where
  root := ⟨"."⟩
  settings := .standard
  registry := .empty
  handoffs := .standard

theorem compile_crlf_fenced :
    (∀ l file, fenced.textAt l = .ok file → '\r' ∉ file.toList) ∧
      '\r' ∉ fencedTemplate.text.toList ∧
      ∃ d d', fencedProject.compile fenced fencedTemplate = .ok d ∧
        d.body = "a\n```\nb\n\n(a\n```\nb\n)".toList ∧
        fencedProject.compile fenced.crlf fencedTemplate.inCrlf = .ok d' ∧
        normalizeBreaks d'.body = normalizeBreaks d.body := by
  have hw : ∀ l file, fenced.textAt l = .ok file → '\r' ∉ file.toList :=
    fun l file h => carriageReturn_notMem_fenced h
  have ht : '\r' ∉ fencedTemplate.text.toList := by decide
  have he : expand fenced ⟨"."⟩ 10 fencedTemplate.text.toList =
      .ok "---\ntitle: x\n---\na\n```\nb\n\n(a\n```\nb\n)".toList := by decide +kernel
  have hd : fencedProject.compile fenced fencedTemplate =
      .ok (.compile .standard .empty ⟨"pm", "x"⟩
        "---\ntitle: x\n---\na\n```\nb\n\n(a\n```\nb\n)".toList) := by
    show (expand fenced ⟨"."⟩ 10 fencedTemplate.text.toList).map _ = _
    rw [he]
    rfl
  obtain ⟨d', hd', hb⟩ := ((compile_crlf fenced).2.2 hw fencedProject fencedTemplate ht).2 _ hd
  exact ⟨hw, ht, _, d', hd, by decide +kernel, hd', hb⟩

end AgentDocs
