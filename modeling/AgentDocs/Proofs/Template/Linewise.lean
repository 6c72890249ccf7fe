import Mathlib.Data.List.Forall2
import AgentDocs.Proofs.Template.Depth

/-!
# Expansion line by line

An expansion has one part for each line of its text. A line inside a fence is its own part, and in
the part of a text line each directive has given way to the expansion of the text that its target
names. So nothing is looked up but the targets on text lines, in the text itself and in the texts
that it reaches: two workspaces that answer these alike give the same result.

* `LinesBecome`, `linesBecome_expand`: the parts of an expansion.
* `expandAt_of_alike`: two workspaces with the same answers.
* `expand_exempts_fences`: what stands inside fences is neither looked up nor altered.
-/

namespace AgentDocs.Template

open AgentDocs.Files AgentDocs.Text

/-! ## The parts of an expansion -/

section
variable (answer : List Char → List Char → Prop)

/-- What stands for a piece of a text line: a character for itself, and for a directive the answer
to its target. -/
inductive PieceBecomes : Piece → List Char → Prop
  | character (c : Char) : PieceBecomes (.character c) [c]
  | directive {target out : List Char} :
      answer target out → PieceBecomes (.directive target) out

/-- What stands for a line of a kind: a verbatim line for itself, and for a text line what stands
for its pieces. -/
inductive LineBecomes : LineKind → List Char → List Char → Prop
  | verbatim (line : List Char) : LineBecomes .verbatim line line
  | text {line : List Char} {outs : List (List Char)} :
      List.Forall₂ (PieceBecomes answer) (pieces line) outs → LineBecomes .text line outs.flatten

/-- What stands for each of the lines that follow a state of the scan. -/
inductive LinesBecome : ScanState → List (List Char) → List (List Char) → Prop
  | nil (state : ScanState) : LinesBecome state [] []
  | cons {state : ScanState} {line part : List Char} {rest parts : List (List Char)} :
      LineBecomes answer (state.kind line) line part →
      LinesBecome (state.step line) rest parts → LinesBecome state (line :: rest) (part :: parts)

end

section
variable {answer other : List Char → List Char → Prop}

theorem PieceBecomes.mono {p : Piece} {out : List Char}
    (h : ∀ target, p.target? = some target → ∀ out, answer target out → other target out)
    (hp : PieceBecomes answer p out) : PieceBecomes other p out := by
  cases hp with
  | character c => exact .character c
  | directive ha => exact .directive (h _ rfl _ ha)

theorem piecesBecome_mono {ps : List Piece} {outs : List (List Char)}
    (h : ∀ target ∈ ps.filterMap Piece.target?, ∀ out, answer target out → other target out)
    (hps : List.Forall₂ (PieceBecomes answer) ps outs) :
    List.Forall₂ (PieceBecomes other) ps outs := by
  induction hps with
  | nil => exact .nil
  | @cons p out rest outs hp _ ih =>
    refine .cons (hp.mono fun target ht => h target ?_) (ih fun target ht => h target ?_)
    · exact List.mem_filterMap.2 ⟨p, List.mem_cons_self, ht⟩
    · obtain ⟨q, hq, ht⟩ := List.mem_filterMap.1 ht
      exact List.mem_filterMap.2 ⟨q, List.mem_cons_of_mem _ hq, ht⟩

/-- Only the answers to the targets on text lines show in the `parts`. -/
theorem LinesBecome.mono {state : ScanState} {ls parts : List (List Char)}
    (h : ∀ target ∈ targetsAfter state ls, ∀ out, answer target out → other target out)
    (hp : LinesBecome answer state ls parts) : LinesBecome other state ls parts := by
  induction hp with
  | nil state => exact .nil state
  | @cons state line part rest parts hl _ ih =>
    rw [targetsAfter, List.forall_mem_append] at h
    refine .cons ?_ (ih h.2)
    have hline := h.1
    unfold targetsScanned at hline
    cases hk : state.kind line with
    | verbatim =>
      rw [hk] at hl
      cases hl
      exact .verbatim line
    | text =>
      rw [hk] at hl
      simp only [hk] at hline
      cases hl with
      | text hps => exact .text (piecesBecome_mono hline hps)

theorem LinesBecome.length_eq {state : ScanState} {ls parts : List (List Char)}
    (h : LinesBecome answer state ls parts) : parts.length = ls.length := by
  induction h with
  | nil state => rfl
  | cons _ _ ih => simp [ih]

theorem LinesBecome.getElem?_of_verbatim {state after : ScanState} {ls parts : List (List Char)}
    (h : LinesBecome answer state ls parts) {n : Nat}
    (hn : (scan state ls)[n]? = some (.verbatim, after)) : parts[n]? = ls[n]? := by
  induction h generalizing n with
  | nil state => rfl
  | @cons state line part rest parts hl _ ih =>
    cases n with
    | succ n => exact ih hn
    | zero =>
      have hk : state.kind line = .verbatim := by
        simp only [scan, List.getElem?_cons_zero, Option.some.injEq, Prod.mk.injEq] at hn
        exact hn.1
      rw [hk] at hl
      cases hl
      rfl

end

section
variable {inclusion : List Char → Except Error (List Char)}

theorem piecesBecome_of_expandPieces {ps : List Piece} {out : List Char}
    (h : expandPieces inclusion ps = .ok out) :
    ∃ outs, List.Forall₂ (PieceBecomes fun target text => inclusion target = .ok text) ps outs ∧
      out = outs.flatten := by
  induction ps generalizing out with
  | nil =>
    cases h
    exact ⟨[], .nil, rfl⟩
  | cons p rest ih =>
    cases p with
    | character c =>
      rw [expandPieces] at h
      cases hr : expandPieces inclusion rest with
      | error e => simp [hr, Except.map] at h
      | ok more =>
        obtain ⟨outs, houts, rfl⟩ := ih hr
        simp only [hr, Except.map, Except.ok.injEq] at h
        exact ⟨[c] :: outs, .cons (.character c) houts, by simp [← h]⟩
    | directive target =>
      rw [expandPieces] at h
      cases ht : inclusion target with
      | error e => simp [ht] at h
      | ok text =>
        cases hr : expandPieces inclusion rest with
        | error e => simp [ht, hr, Except.map] at h
        | ok more =>
          obtain ⟨outs, houts, rfl⟩ := ih hr
          simp only [ht, hr, Except.map, Except.ok.injEq] at h
          exact ⟨text :: outs, .cons (.directive ht) houts, by simp [← h]⟩

theorem lineBecomes_of_expandScanned {state : ScanState} {line out : List Char}
    (h : expandScanned inclusion state line = .ok out) :
    LineBecomes (fun target text => inclusion target = .ok text) (state.kind line) line out := by
  unfold expandScanned at h
  cases hk : state.kind line with
  | verbatim =>
    simp only [hk, Except.ok.injEq] at h
    subst h
    exact .verbatim line
  | text =>
    simp only [hk, expandLine_eq] at h
    obtain ⟨outs, houts, rfl⟩ := piecesBecome_of_expandPieces h
    exact .text houts

/-- The lines `ls` have one part each where they expand. -/
theorem linesBecome_of_expandLines {state : ScanState} {ls : List (List Char)} {out : List Char}
    (h : expandLines inclusion state ls = .ok out) :
    ∃ parts, LinesBecome (fun target text => inclusion target = .ok text) state ls parts ∧
      out = parts.flatten := by
  induction ls generalizing state out with
  | nil =>
    cases h
    exact ⟨[], .nil state, rfl⟩
  | cons line rest ih =>
    rw [expandLines] at h
    cases hl : expandScanned inclusion state line with
    | error e => simp [hl] at h
    | ok part =>
      cases hr : expandLines inclusion (state.step line) rest with
      | error e => simp [hl, hr, Except.map] at h
      | ok more =>
        obtain ⟨parts, hparts, rfl⟩ := ih hr
        simp only [hl, hr, Except.map, Except.ok.injEq] at h
        exact ⟨part :: parts, .cons (lineBecomes_of_expandScanned hl) hparts, by simp [← h]⟩

end

section
variable {w v : Workspace} {root : PathName} {limit : Nat} {text target out : List Char}

/-- What a target stands for under a limit: the expansion of the text that it names. -/
def StandsFor (w : Workspace) (root : PathName) (limit : Nat) (target out : List Char) : Prop :=
  ∃ inner, Names w root target inner ∧ expand w root limit inner = .ok out

theorem exists_names_of_ok {expand : List Char → List Char → Except Error (List Char)}
    (h : included w root expand target = .ok out) :
    ∃ inner, Names w root target inner ∧ expand (trim target) inner = .ok out := by
  simp only [included] at h
  split at h
  · cases h
  · next l hl =>
    split at h
    · cases h
    · next found hfound => exact ⟨found.toList, ⟨l, found, hl, hfound, rfl⟩, h⟩

theorem expand_of_expandAt {name : List Char}
    (h : expandAt w root limit limit name text = .ok out) : expand w root limit text = .ok out := by
  have hdeeper : IsTooDeep (expandAt w root limit limit name text) ∨
      expandAt w root limit (limit + 1) name text = expandAt w root limit limit name text :=
    expandAt_deeper limit limit (Nat.le_succ limit)
  rcases hdeeper with ⟨path, told, htold⟩ | heq
  · rw [h] at htold
    cases htold
  · exact heq.trans h

/-- The expansion of `text` has one part for each of its lines. -/
theorem linesBecome_expand (h : expand w root limit text = .ok out) :
    ∃ parts, LinesBecome (StandsFor w root limit) .outside (lines text) parts ∧
      out = parts.flatten := by
  obtain ⟨parts, hparts, hout⟩ := linesBecome_of_expandLines h
  refine ⟨parts, hparts.mono fun target _ text ht => ?_, hout⟩
  obtain ⟨inner, hnames, hinner⟩ := exists_names_of_ok ht
  exact ⟨inner, hnames, expand_of_expandAt hinner⟩

/-! ## Two workspaces with the same answers -/

theorem expandPieces_congr {a b : List Char → Except Error (List Char)} {ps : List Piece}
    (h : ∀ target ∈ ps.filterMap Piece.target?, a target = b target) :
    expandPieces a ps = expandPieces b ps := by
  induction ps with
  | nil => rfl
  | cons p rest ih =>
    cases p with
    | character c => rw [expandPieces, expandPieces, ih h]
    | directive target =>
      have hcons : (Piece.directive target :: rest).filterMap Piece.target? =
          target :: rest.filterMap Piece.target? := rfl
      rw [hcons, List.forall_mem_cons] at h
      rw [expandPieces, expandPieces, h.1, ih h.2]

/-- The lines `ls` expand by what is included for their targets, and by nothing else. -/
theorem expandLines_congr {a b : List Char → Except Error (List Char)} {state : ScanState}
    {ls : List (List Char)} (h : ∀ target ∈ targetsAfter state ls, a target = b target) :
    expandLines a state ls = expandLines b state ls := by
  induction ls generalizing state with
  | nil => rfl
  | cons line rest ih =>
    rw [targetsAfter, List.forall_mem_append] at h
    have hline : expandScanned a state line = expandScanned b state line := by
      have hs := h.1
      unfold targetsScanned at hs
      unfold expandScanned
      cases hk : state.kind line with
      | verbatim => rfl
      | text =>
        simp only [hk] at hs
        simp only [expandLine_eq]
        exact expandPieces_congr hs
    rw [expandLines, expandLines, hline, ih h.2]

/-- Two workspaces answer the directives of a text alike: each target on its text lines is located
at the same place or fails alike, and names the same text. -/
structure AnswerAlike (root : PathName) (w v : Workspace) (text : List Char) : Prop where
  located : ∀ target ∈ targets text, locate w root (trim target) = locate v root (trim target)
  named : ∀ target ∈ targets text, ∀ inner, Names w root target inner ↔ Names v root target inner

theorem exists_bytes_of_locate {requested : List Char} {l : Location}
    (h : locate w root requested = .ok l) : ∃ bytes, w.tree.find? l = some (.file bytes) := by
  simp only [locate] at h
  split at h
  · cases h
  split at h
  · cases h
  split at h
  · cases h
  next hfile =>
  split at h
  · cases h
  · cases h
  · next base l' _ hl =>
    split at h
    · cases h
      simp only [Workspace.isFile, Workspace.entry?, hl] at hfile
      split at hfile
      · next bytes hb => exact ⟨bytes, hb⟩
      · simp at hfile
    · cases h

theorem textAt_of_locate {requested : List Char} {l : Location} {e : FileError}
    (h : locate w root requested = .ok l) (he : w.textAt l = .error e) : e = .invalidEncoding := by
  obtain ⟨bytes, hb⟩ := exists_bytes_of_locate h
  simp only [Workspace.textAt, Workspace.bytesAt, hb, bind, Except.bind] at he
  split at he
  · cases he
  · cases he
    rfl

theorem included_of_alike {first second : List Char → List Char → Except Error (List Char)}
    (hl : locate w root (trim target) = locate v root (trim target))
    (hn : ∀ inner, Names w root target inner ↔ Names v root target inner)
    (he : ∀ inner, Names w root target inner →
      second (trim target) inner = first (trim target) inner) :
    included v root second target = included w root first target := by
  cases hw : locate w root (trim target) with
  | error e => simp only [included, ← hl, hw]
  | ok l =>
    have hv : locate v root (trim target) = .ok l := by rw [← hl, hw]
    cases hfound : w.textAt l with
    | ok found =>
      have hnames : Names w root target found.toList := ⟨l, found, hw, hfound, rfl⟩
      rw [included_of_names hnames, included_of_names ((hn _).1 hnames), he _ hnames]
    | error e =>
      cases hother : v.textAt l with
      | ok found =>
        obtain ⟨l', found', hw', hfound', -⟩ := (hn _).2 ⟨l, found, hv, hother, rfl⟩
        rw [hw] at hw'
        cases hw'
        rw [hfound] at hfound'
        cases hfound'
      | error e' =>
        -- neither has a text, and there is one way only to have none
        rw [textAt_of_locate hw hfound] at hfound
        rw [textAt_of_locate hv hother] at hother
        simp only [included, hw, hv, hfound, hother]

/-- Every text that is reached from a text by inclusions is answered alike. -/
def AllAnswerAlike (root : PathName) (w v : Workspace) (text : List Char) : Prop :=
  ∀ inner, Relation.ReflTransGen (Includes w root) text inner → AnswerAlike root w v inner

/-- The answers to the targets that are reached are all that an expansion reads. -/
theorem expandAt_of_alike {levels : Nat} {origin : List Char} (h : AllAnswerAlike root w v text) :
    expandAt v root limit levels origin text = expandAt w root limit levels origin text := by
  induction levels generalizing origin text with
  | zero => rfl
  | succ levels ih =>
    have halike : AnswerAlike root w v text := h text .refl
    rw [expandAt, expandAt]
    apply expandLines_congr
    intro target htarget
    apply included_of_alike (halike.located target htarget) (halike.named target htarget)
    intro inner hnames
    apply ih
    intro reached hreached
    exact h reached (.head ⟨target, htarget, hnames⟩ hreached)

end

/-- Fences exempt what stands in them. Two workspaces that answer every directive on a text line of
a text, and of the texts that are reached from it, alike, give the same result for the text. Where
it expands, the result has one part for each of its lines, in order: a line that the scan of the
text takes as verbatim is its own part, and in a text line each directive has given way to the
expansion of the text that its target names, which is made of parts in the same way. -/
theorem expand_exempts_fences (w : Workspace) (root : PathName) (limit : Nat) (text : List Char) :
    (∀ v, AllAnswerAlike root w v text → expand v root limit text = expand w root limit text) ∧
    ∀ out, expand w root limit text = .ok out →
      ∃ parts, LinesBecome (StandsFor w root limit) .outside (lines text) parts ∧
        out = parts.flatten ∧ parts.length = (lines text).length ∧
        ∀ (n : Nat) (line : List Char) (after : ScanState), (lines text)[n]? = some line →
          (scan .outside (lines text))[n]? = some (.verbatim, after) → parts[n]? = some line := by
  refine ⟨fun v hv => expandAt_of_alike hv, fun out hout => ?_⟩
  obtain ⟨parts, hparts, hflatten⟩ := linesBecome_expand hout
  refine ⟨parts, hparts, hflatten, hparts.length_eq, fun n line after hline hn => ?_⟩
  rw [hparts.getElem?_of_verbatim hn, hline]

/-- The file that the fenced directive below asks for. -/
def fencedFile : FileName := ⟨"fenced", by decide⟩

/-- A directive in front of a fence, and one inside of it. -/
def fencedText : List Char :=
  written ['a', ' '] ++ ['\n'] ++ List.replicate 3 fenceMark ++ ['\n'] ++
    written fencedFile.text.toList ++ ['\n']

/-- The fragments, with a file for the fenced directive. -/
def answered : Workspace := fragments.put [fencedFile] (.file "text".toUTF8)

theorem names_fragments :
    Names fragments ⟨"."⟩ ['a', ' '] (opener.take 2) ∧
      Names answered ⟨"."⟩ ['a', ' '] (opener.take 2) := by
  constructor <;> exact ⟨[⟨"a", by decide⟩], String.ofList (opener.take 2),
    by decide +kernel, by decide +kernel, by decide +kernel⟩

theorem allAnswerAlike_fragments : AllAnswerAlike ⟨"."⟩ fragments answered fencedText := by
  have ht : targets fencedText = [['a', ' ']] := by decide +kernel
  have hleaf : targets (opener.take 2) = [] := by decide +kernel
  obtain ⟨hfirst, hsecond⟩ := names_fragments
  intro inner hreached
  rcases Relation.reflTransGen_iff_eq_or_transGen.1 hreached with rfl | hreached
  · constructor <;> intro target htarget <;> rw [ht, List.mem_singleton] at htarget <;>
      subst htarget
    · decide +kernel
    · intro found
      constructor
      · intro h
        rw [hfirst.unique h]
        exact hsecond
      · intro h
        rw [hsecond.unique h]
        exact hfirst
  · obtain rfl := eq_of_reaches_single ht hfirst hleaf hreached
    constructor <;> intro target htarget <;> rw [hleaf] at htarget <;> cases htarget

theorem expand_exempts_fences_fragments :
    AllAnswerAlike ⟨"."⟩ fragments answered fencedText ∧
      expand answered ⟨"."⟩ 1 fencedText = expand fragments ⟨"."⟩ 1 fencedText ∧
      ∃ out, expand fragments ⟨"."⟩ 1 fencedText = .ok out ∧
        ∃ parts, LinesBecome (StandsFor fragments ⟨"."⟩ 1) .outside (lines fencedText) parts ∧
          out = parts.flatten ∧ parts[2]? = some (written fencedFile.text.toList ++ ['\n']) := by
  have hout : expand fragments ⟨"."⟩ 1 fencedText = .ok (opener.take 2 ++ ['\n'] ++
      List.replicate 3 fenceMark ++ ['\n'] ++ written fencedFile.text.toList ++ ['\n']) := by
    decide +kernel
  have hline : (lines fencedText)[2]? = some (written fencedFile.text.toList ++ ['\n']) := by
    decide +kernel
  have hkind : (scan .outside (lines fencedText))[2]? = some (.verbatim, .inside 3 0) := by
    decide +kernel
  obtain ⟨halike, hparts⟩ := expand_exempts_fences fragments ⟨"."⟩ 1 fencedText
  obtain ⟨parts, hbecome, hflatten, -, hverbatim⟩ := hparts _ hout
  exact ⟨allAnswerAlike_fragments, halike answered allAnswerAlike_fragments, _, hout, parts,
    hbecome, hflatten, hverbatim 2 _ _ hline hkind⟩

end AgentDocs.Template
