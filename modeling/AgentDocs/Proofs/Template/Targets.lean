import Mathlib.Logic.Relation
import AgentDocs.Proofs.Template.Leftover

/-!
# The targets of a text

What an expansion comes to is decided by the targets of the directives on its text lines. It fails
where the inclusion of one of them fails, with the failure of the first such target in reading
order, and a text includes the texts of the files that its targets name.

* `failure?_expandLines`, `failure?_expandAt`: the first failure is the failure of the whole.
* `targetsAfter_eq_nil_iff`, `hasUnresolved_agrees`: the search for directives and the expansion
  find the same ones.
* `Names`, `Includes`: what a target names and what a text includes.
* `included_of_names`, `exists_names_of_depthExceeded`: an included file expands as its text does.
-/

namespace AgentDocs.Template

open AgentDocs.Files AgentDocs.Text

/-! ## Targets in reading order -/

/-- The target of a piece, if it is a directive. -/
def Piece.target? : Piece → Option (List Char)
  | character _ => none
  | directive target => some target

/-- The targets of the directives on a line met in a state of the scan. -/
def targetsScanned (state : ScanState) (line : List Char) : List (List Char) :=
  match state.kind line with
  | .verbatim => []
  | .text => (pieces line).filterMap Piece.target?

/-- The targets of the directives on the text lines that follow a state of the scan. -/
def targetsAfter : ScanState → List (List Char) → List (List Char)
  | _, [] => []
  | state, line :: rest => targetsScanned state line ++ targetsAfter (state.step line) rest

/-- The targets of the directives on the text lines of a text, in reading order. -/
def targets (text : List Char) : List (List Char) := targetsAfter .outside (lines text)

/-! ## The first failure -/

/-- The failure of a result, if it failed. -/
def failure? {α : Type} : Except Error α → Option Error
  | .ok _ => none
  | .error e => some e

section
variable {α β : Type} {r : Except Error α} {e : Error}

theorem failure?_eq_none_iff : failure? r = none ↔ ∃ out, r = .ok out := by
  cases r with
  | error e => simp [failure?]
  | ok out => simp [failure?]

theorem failure?_eq_some_iff : failure? r = some e ↔ r = .error e := by
  cases r with
  | error e => simp [failure?]
  | ok out => simp [failure?]

@[simp] theorem failure?_map (f : α → β) (r : Except Error α) :
    failure? (r.map f) = failure? r := by
  cases r <;> rfl

end

section
variable (inclusion : List Char → Except Error (List Char))

theorem failure?_expandPieces (ps : List Piece) :
    failure? (expandPieces inclusion ps) =
      (ps.filterMap Piece.target?).findSome? fun target => failure? (inclusion target) := by
  induction ps with
  | nil => rfl
  | cons p rest ih =>
    cases p with
    | character c => rw [expandPieces, failure?_map, ih]; rfl
    | directive target =>
      have hcons : (Piece.directive target :: rest).filterMap Piece.target? =
          target :: rest.filterMap Piece.target? := rfl
      rw [hcons, List.findSome?_cons, expandPieces]
      cases inclusion target with
      | error e => rfl
      | ok text => rw [failure?_map, ih]; rfl

theorem failure?_expandScanned (state : ScanState) (line : List Char) :
    failure? (expandScanned inclusion state line) =
      (targetsScanned state line).findSome? fun target => failure? (inclusion target) := by
  unfold expandScanned targetsScanned
  cases state.kind line with
  | verbatim => rfl
  | text => rw [expandLine_eq, failure?_expandPieces]

/-- The lines `ls` expand up to the first target whose inclusion fails. -/
theorem failure?_expandLines (state : ScanState) (ls : List (List Char)) :
    failure? (expandLines inclusion state ls) =
      (targetsAfter state ls).findSome? fun target => failure? (inclusion target) := by
  induction ls generalizing state with
  | nil => rfl
  | cons line rest ih =>
    have hline := failure?_expandScanned inclusion state line
    rw [expandLines, targetsAfter, List.findSome?_append, ← hline]
    cases expandScanned inclusion state line with
    | error e => rfl
    | ok text => rw [failure?_map, ih]; rfl

end

/-- `text` expands up to the first of its targets that fails one level further down. -/
theorem failure?_expandAt (w : Workspace) (root : PathName) (limit levels : Nat)
    (origin text : List Char) :
    failure? (expandAt w root limit (levels + 1) origin text) =
      (targets text).findSome? fun target =>
        failure? (included w root (expandAt w root limit levels) target) :=
  failure?_expandLines _ _ _

/-! ## Texts without targets -/

theorem filterMap_target?_eq_nil_iff (line : List Char) :
    (pieces line).filterMap Piece.target? = [] ↔ hasDirective line = false := by
  rw [List.filterMap_eq_nil_iff, hasDirective, List.any_eq_false]
  refine forall₂_congr fun p _ => ?_
  cases p <;> simp [Piece.target?]

theorem targetsAfter_eq_nil_iff (state : ScanState) (ls : List (List Char)) :
    targetsAfter state ls = [] ↔ hasDirectiveAfter state ls = false := by
  induction ls generalizing state with
  | nil => simp [targetsAfter, hasDirectiveAfter]
  | cons line rest ih =>
    rw [targetsAfter, List.append_eq_nil_iff, ih, hasDirectiveAfter, Bool.or_eq_false_iff]
    refine and_congr_left fun _ => ?_
    unfold targetsScanned
    cases state.kind line with
    | verbatim => simp
    | text => simpa using filterMap_target?_eq_nil_iff line

theorem exists_error_of_target {w : Workspace} {root : PathName} {text target : List Char}
    (h : target ∈ targets text) : ∃ e, expand w root 0 text = .error e := by
  have hfail : failure? (included w root (expandAt w root 0 0) target) ≠ none := by
    cases hl : locate w root (trim target) with
    | error e => simp [included, hl, failure?]
    | ok l => cases hf : w.textAt l <;> simp [included, hl, hf, failure?, expandAt]
  cases he : failure? (expand w root 0 text) with
  | some e => exact ⟨e, failure?_eq_some_iff.1 he⟩
  | none =>
    have hnone := failure?_expandAt w root 0 0 documentName text
    rw [← expand, he] at hnone
    exact absurd (List.findSome?_eq_none_iff.1 hnone.symm target h) hfail

/-- A text in which no directive is found expands to itself in every workspace and for every limit,
and a text in which one is found does not expand where the limit is zero, so the texts that expand
there are those without a directive outside of fences. -/
theorem hasUnresolved_agrees (text : List Char) :
    (hasUnresolved text = false →
      ∀ w root limit, expand w root limit text = .ok text) ∧
    (hasUnresolved text = true → ∀ w root, ∃ e, expand w root 0 text = .error e) ∧
    ∀ w root, (∃ out, expand w root 0 text = .ok out) ↔ hasUnresolved text = false := by
  have hnone : hasUnresolved text = false →
      ∀ w root limit, expand w root limit text = .ok text :=
    fun h w root limit => expand_of_hasUnresolved h w root limit
  have hsome : hasUnresolved text = true → ∀ w root, ∃ e, expand w root 0 text = .error e := by
    intro h w root
    have hne : targets text ≠ [] := by
      rw [targets, ne_eq, targetsAfter_eq_nil_iff, ← hasUnresolved, h]
      decide
    obtain ⟨target, htarget⟩ := List.exists_mem_of_ne_nil _ hne
    exact exists_error_of_target htarget
  refine ⟨hnone, hsome, fun w root => ⟨?_, fun h => ⟨text, hnone h w root 0⟩⟩⟩
  rintro ⟨out, hout⟩
  cases hu : hasUnresolved text with
  | false => rfl
  | true =>
    obtain ⟨e, he⟩ := hsome hu w root
    rw [hout] at he
    cases he

/-- A directive that is not closed, and a fenced one. -/
def unclosedText : List Char :=
  opener ++ ['a', '\x7d', '\n'] ++ List.replicate 3 fenceMark ++ ['\n'] ++ written ['b']

/-- A directive that stands in one that is not closed. -/
def halfClosedText : List Char := opener ++ ['\x7d'] ++ written ['b']

theorem hasUnresolved_agrees_unclosed :
    hasUnresolved unclosedText = false ∧
      (∀ limit, expand fragments ⟨"."⟩ limit unclosedText = .ok unclosedText) ∧
      hasUnresolved halfClosedText = true ∧
      ∃ e, expand fragments ⟨"."⟩ 0 halfClosedText = .error e := by
  have hu : hasUnresolved unclosedText = false := by decide +kernel
  have hh : hasUnresolved halfClosedText = true := by decide +kernel
  exact ⟨hu, (hasUnresolved_agrees unclosedText).1 hu fragments ⟨"."⟩, hh,
    (hasUnresolved_agrees halfClosedText).2.1 hh fragments ⟨"."⟩⟩

/-! ## Included texts -/

/-- A target names a file with a text: the file lies below the root, and its bytes are that text. -/
def Names (w : Workspace) (root : PathName) (target text : List Char) : Prop :=
  ∃ l found, locate w root (trim target) = .ok l ∧ w.textAt l = .ok found ∧ found.toList = text

/-- A text includes another one, by a directive on one of its text lines. What a text includes
depends on its characters and not on the file it stands in. -/
def Includes (w : Workspace) (root : PathName) (text inner : List Char) : Prop :=
  ∃ target ∈ targets text, Names w root target inner

/-- Every directive on a text line of a text names a file that can be read. -/
def IsAnswered (w : Workspace) (root : PathName) (text : List Char) : Prop :=
  ∀ target ∈ targets text, ∃ inner, Names w root target inner

section
variable {w : Workspace} {root : PathName} {target inner : List Char}

/-- A file is included as its text expands. -/
theorem included_of_names (h : Names w root target inner)
    (expand : List Char → List Char → Except Error (List Char)) :
    included w root expand target = expand (trim target) inner := by
  obtain ⟨l, found, hl, hfound, rfl⟩ := h
  simp only [included, hl, hfound]

/-- A target names one text at most. -/
theorem Names.unique {other : List Char} (h : Names w root target inner)
    (k : Names w root target other) : other = inner := by
  obtain ⟨l, found, hl, hfound, rfl⟩ := h
  obtain ⟨l', found', hl', hfound', rfl⟩ := k
  rw [hl] at hl'
  cases hl'
  rw [hfound] at hfound'
  cases hfound'
  rfl

theorem includes_iff_of_single {text other : List Char} (ht : targets text = [target])
    (hn : Names w root target inner) : Includes w root text other ↔ other = inner := by
  unfold Includes
  rw [ht]
  constructor
  · rintro ⟨found, hfound, hnames⟩
    rw [List.mem_singleton.1 hfound] at hnames
    exact hn.unique hnames
  · rintro rfl
    exact ⟨target, List.mem_singleton_self target, hn⟩

/-- A text without targets reaches no other text. -/
theorem eq_of_reaches {text other : List Char} (ht : targets text = [])
    (h : Relation.ReflTransGen (Includes w root) text other) : other = text := by
  rcases Relation.ReflTransGen.cases_head_iff.1 h with rfl | ⟨next, ⟨found, hfound, -⟩, -⟩
  · rfl
  · rw [ht] at hfound
    cases hfound

/-- A text with one target, which names a text without targets, reaches nothing but that. -/
theorem eq_of_reaches_single {text other : List Char} (ht : targets text = [target])
    (hn : Names w root target inner) (hinner : targets inner = [])
    (h : Relation.TransGen (Includes w root) text other) : other = inner := by
  obtain ⟨next, hi, hnext⟩ := Relation.TransGen.head'_iff.1 h
  obtain rfl := (includes_iff_of_single ht hn).1 hi
  exact eq_of_reaches hinner hnext

/-- No target is located too deep. -/
theorem locate_ne_depthExceeded {requested : List Char} {path : String} {limit : Nat} :
    locate w root requested ≠ .error (.depthExceeded path limit) := by
  intro h
  simp only [locate] at h
  split at h
  · cases h
  split at h
  · cases h
  split at h
  · cases h
  split at h
  · cases h
  · cases h
  · split at h <;> cases h

/-- What is found too deep behind a target is found so in the text that the target names. -/
theorem exists_names_of_depthExceeded
    {expand : List Char → List Char → Except Error (List Char)} {path : String} {limit : Nat}
    (h : included w root expand target = .error (.depthExceeded path limit)) :
    ∃ inner, Names w root target inner ∧
      expand (trim target) inner = .error (.depthExceeded path limit) := by
  simp only [included] at h
  split at h
  · next e hl =>
    cases h
    exact absurd hl locate_ne_depthExceeded
  · next l hl =>
    split at h
    · cases h
    · next found hfound => exact ⟨found.toList, ⟨l, found, hl, hfound, rfl⟩, h⟩

end

end AgentDocs.Template
