import Mathlib.Data.List.Induction
import AgentDocs.Proofs.Template.Scan

/-!
# The layout of fenced blocks

The scan of fences counts: it keeps the length of the fence that opened the block and the number of
nested groups that are open. What it accepts is a grammar. A text whose scan ends outside all blocks
is laid out as plain lines and blocks, in one way only, and the plain lines between the blocks are
its text lines.

* `Filling`, `Layout`: what stands in a block, and what stands in a text.
* `finalState_filling`, `finalState_layout`: one scan over each.
* `completes_of_finalState`: a scan that comes out of all blocks has gone over such lines.
* `Filling.unique`, `Layout.lines_injective`: no lines are laid out in two ways.
* `finalState_eq_outside_iff`: the scan and the grammar agree.
-/

namespace AgentDocs.Template

/-! ## Lines of a block -/

/-- A line closes what a bare fence of at least so many marks closes. -/
def Closes (least : Nat) (line : List Char) : Prop :=
  ∃ f, Fence.parse? line = some f ∧ f.hasInfo = false ∧ least ≤ f.length

/-- A line opens a nested group: it is a fence with an info text. -/
def OpensGroup (line : List Char) : Prop :=
  ∃ f, Fence.parse? line = some f ∧ f.hasInfo = true

/-- A line is content of what a bare fence of at least so many marks closes: it is plain, or a bare
fence that is too short. -/
def IsContent (least : Nat) (line : List Char) : Prop :=
  Fence.parse? line = none ∨
    ∃ f, Fence.parse? line = some f ∧ f.hasInfo = false ∧ f.length < least

section
variable {least : Nat} {line : List Char}

/-- In a block a `line` is content, it opens a group or it closes the block. -/
theorem content_or_opens_or_closes (least : Nat) (line : List Char) :
    IsContent least line ∨ OpensGroup line ∨ Closes least line := by
  cases hf : Fence.parse? line with
  | none => exact .inl (.inl hf)
  | some f =>
    cases hi : f.hasInfo with
    | true => exact .inr (.inl ⟨f, hf, hi⟩)
    | false =>
      by_cases hl : least ≤ f.length
      · exact .inr (.inr ⟨f, hf, hi, hl⟩)
      · exact .inl (.inr ⟨f, hf, hi, by omega⟩)

theorem IsContent.not_closes (h : IsContent least line) : ¬ Closes least line := by
  rintro ⟨f, hf, -, hl⟩
  rcases h with hn | ⟨g, hg, -, hs⟩
  · rw [hf] at hn
    cases hn
  · rw [hf] at hg
    cases hg
    omega

theorem IsContent.not_opensGroup (h : IsContent least line) : ¬ OpensGroup line := by
  rintro ⟨f, hf, hi⟩
  rcases h with hn | ⟨g, hg, hb, -⟩
  · rw [hf] at hn
    cases hn
  · rw [hf] at hg
    cases hg
    rw [hi] at hb
    cases hb

theorem OpensGroup.not_closes (h : OpensGroup line) : ¬ Closes least line := by
  rintro ⟨f, hf, hb, -⟩
  obtain ⟨g, hg, hi⟩ := h
  rw [hf] at hg
  cases hg
  rw [hi] at hb
  cases hb

end

/-! ## Blocks and texts -/

/-- What stands in something that a bare fence of at least `least` marks closes: content, and nested
groups. A group begins with an info fence and a bare fence of any length closes it, so no bare fence
is content of a group. -/
inductive Filling : Nat → Type
  | nil {least : Nat} : Filling least
  | line {least : Nat} (line : List Char) (h : IsContent least line) (rest : Filling least) :
      Filling least
  | group {least : Nat} (opening : List Char) (ho : OpensGroup opening) (inner : Filling 0)
      (closing : List Char) (hc : Closes 0 closing) (rest : Filling least) : Filling least

/-- The lines of a filling. -/
def Filling.lines : {least : Nat} → Filling least → List (List Char)
  | _, nil => []
  | _, line l _ rest => l :: rest.lines
  | _, group opening _ inner closing _ rest => opening :: (inner.lines ++ closing :: rest.lines)

/-- What stands in a text: plain lines and blocks. A block begins with a fence, and a bare fence
that is not shorter closes it. -/
inductive Layout : Type
  | nil : Layout
  | plain (line : List Char) (h : Fence.parse? line = none) (rest : Layout) : Layout
  | block (opening : List Char) (fence : Fence) (ho : Fence.parse? opening = some fence)
      (filling : Filling fence.length) (closing : List Char) (hc : Closes fence.length closing)
      (rest : Layout) : Layout

namespace Layout

/-- The lines of a text. -/
def lines : Layout → List (List Char)
  | nil => []
  | plain line _ rest => line :: rest.lines
  | block opening _ _ filling closing _ rest =>
    opening :: (filling.lines ++ closing :: rest.lines)

/-- The kinds of the lines of a text: its own plain lines are text, and the lines of its blocks are
verbatim. -/
def kinds : Layout → List LineKind
  | nil => []
  | plain _ _ rest => .text :: rest.kinds
  | block _ _ _ filling _ _ rest =>
    .verbatim :: (filling.lines.map (fun _ => .verbatim) ++ .verbatim :: rest.kinds)

end Layout

/-! ## The scan of a block -/

/-- The least length of the bare fence that closes the innermost of the groups that are open in a
block, or the block itself where none is open. -/
def leastToClose (marker : Nat) : Nat → Nat
  | 0 => marker
  | _ + 1 => 0

/-- The state behind the fence that closes the innermost group or the block. -/
def ScanState.closed (marker : Nat) : Nat → ScanState
  | 0 => .outside
  | nested + 1 => .inside marker nested

section
variable {marker nested : Nat} {line : List Char}

theorem step_of_isContent (h : IsContent (leastToClose marker nested) line) :
    (ScanState.inside marker nested).step line = .inside marker nested := by
  rcases h with hn | ⟨f, hf, hb, hs⟩
  · exact ScanState.step_of_parse_eq_none hn
  · cases nested with
    | zero =>
      have hs : ¬ marker ≤ f.length := Nat.not_le.2 hs
      simp [ScanState.step, ScanState.onFence, hf, hb, hs]
    | succ nested => exact absurd hs (Nat.not_lt_zero f.length)

theorem step_of_opensGroup (h : OpensGroup line) :
    (ScanState.inside marker nested).step line = .inside marker (nested + 1) := by
  obtain ⟨f, hf, hi⟩ := h
  simp [ScanState.step, ScanState.onFence, hf, hi]

theorem step_of_closes (h : Closes (leastToClose marker nested) line) :
    (ScanState.inside marker nested).step line = .closed marker nested := by
  obtain ⟨f, hf, hb, hl⟩ := h
  cases nested with
  | zero =>
    have hl : marker ≤ f.length := hl
    simp [ScanState.step, ScanState.onFence, ScanState.closed, hf, hb, hl]
  | succ nested => simp [ScanState.step, ScanState.onFence, ScanState.closed, hf, hb]

theorem step_of_closes_group (h : Closes 0 line) :
    (ScanState.inside marker (nested + 1)).step line = .inside marker nested :=
  step_of_closes h

theorem step_of_closes_block (h : Closes marker line) :
    (ScanState.inside marker 0).step line = .outside :=
  step_of_closes h

theorem marker_of_step {marker' nested' : Nat}
    (h : (ScanState.inside marker nested).step line = .inside marker' nested') :
    marker' = marker := by
  rcases content_or_opens_or_closes (leastToClose marker nested) line with hl | ho | hc
  · rw [step_of_isContent hl] at h
    cases h
    rfl
  · rw [step_of_opensGroup ho] at h
    cases h
    rfl
  · rw [step_of_closes hc] at h
    cases nested with
    | zero => cases h
    | succ nested =>
      cases h
      rfl

theorem step_outside_of_fence {f : Fence} (h : Fence.parse? line = some f) :
    ScanState.outside.step line = .inside f.length 0 := by
  simp [ScanState.step, ScanState.onFence, h]

theorem kind_inside : (ScanState.inside marker nested).kind line = .verbatim := by
  unfold ScanState.kind
  cases Fence.parse? line <;> rfl

end

/-- The kinds of the lines that a scan meets from a state on. -/
def scannedKinds (state : ScanState) (ls : List (List Char)) : List LineKind :=
  (scan state ls).map Prod.fst

theorem scannedKinds_cons (state : ScanState) (line : List Char) (rest : List (List Char)) :
    scannedKinds state (line :: rest) =
      state.kind line :: scannedKinds (state.step line) rest := rfl

theorem scannedKinds_append (state : ScanState) (a b : List (List Char)) :
    scannedKinds state (a ++ b) = scannedKinds state a ++ scannedKinds (finalState state a) b := by
  induction a generalizing state with
  | nil => rfl
  | cons line rest ih => simp [scannedKinds_cons, finalState_cons, ih]

/-- The filling `f` leaves the groups open that are open before it. -/
theorem finalState_filling {marker nested least : Nat} (f : Filling least)
    (hl : least = leastToClose marker nested) :
    finalState (.inside marker nested) f.lines = .inside marker nested := by
  induction f generalizing nested with
  | nil => rfl
  | line line h rest ih =>
    subst hl
    rw [Filling.lines, finalState_cons, step_of_isContent h]
    exact ih rfl
  | group opening ho inner closing hc rest ih ihrest =>
    have hopen : finalState (.inside marker (nested + 1)) inner.lines =
        .inside marker (nested + 1) := ih rfl
    rw [Filling.lines, finalState_cons, step_of_opensGroup ho, finalState_append, hopen,
      finalState_cons, step_of_closes_group hc]
    exact ihrest hl

theorem scannedKinds_filling {marker nested least : Nat} (f : Filling least)
    (hl : least = leastToClose marker nested) :
    scannedKinds (.inside marker nested) f.lines = f.lines.map fun _ => .verbatim := by
  induction f generalizing nested with
  | nil => rfl
  | line line h rest ih =>
    subst hl
    rw [Filling.lines, scannedKinds_cons, kind_inside, step_of_isContent h, ih rfl]
    rfl
  | group opening ho inner closing hc rest ih ihrest =>
    have hopen : finalState (.inside marker (nested + 1)) inner.lines =
        .inside marker (nested + 1) := finalState_filling inner rfl
    have hinner : scannedKinds (.inside marker (nested + 1)) inner.lines =
        inner.lines.map fun _ => .verbatim := ih rfl
    rw [Filling.lines, scannedKinds_cons, kind_inside, step_of_opensGroup ho, scannedKinds_append,
      hinner, hopen, scannedKinds_cons, kind_inside, step_of_closes_group hc, ihrest hl]
    simp

/-! ## The scan of a text -/

theorem finalState_layout (d : Layout) : finalState .outside d.lines = .outside := by
  induction d with
  | nil => rfl
  | plain line h rest ih =>
    rw [Layout.lines, finalState_cons, ScanState.step_of_parse_eq_none h, ih]
  | block opening fence ho filling closing hc rest ih =>
    rw [Layout.lines, finalState_cons, step_outside_of_fence ho, finalState_append,
      finalState_filling filling rfl, finalState_cons, step_of_closes_block hc, ih]

theorem scannedKinds_layout (d : Layout) : scannedKinds .outside d.lines = d.kinds := by
  induction d with
  | nil => rfl
  | plain line h rest ih =>
    have hk : ScanState.outside.kind line = .text := ScanState.kind_eq_text_iff.2 ⟨rfl, h⟩
    rw [Layout.lines, scannedKinds_cons, hk, ScanState.step_of_parse_eq_none h, ih, Layout.kinds]
  | block opening fence ho filling closing hc rest ih =>
    have hk : ScanState.outside.kind opening = .verbatim := by simp [ScanState.kind, ho]
    rw [Layout.lines, scannedKinds_cons, hk, step_outside_of_fence ho, scannedKinds_append,
      finalState_filling filling rfl, scannedKinds_filling filling rfl, scannedKinds_cons,
      kind_inside, step_of_closes_block hc, ih, Layout.kinds]

/-! ## From the scan to the layout -/

/-- The lines that close all that is open in a state, and the layout of what follows. -/
inductive Completes : ScanState → List (List Char) → Prop
  | outside (d : Layout) : Completes .outside d.lines
  | inside {marker nested : Nat} (f : Filling (leastToClose marker nested)) (closing : List Char)
      (hc : Closes (leastToClose marker nested) closing) {rest : List (List Char)}
      (hrest : Completes (.closed marker nested) rest) :
      Completes (.inside marker nested) (f.lines ++ closing :: rest)

section
variable {marker nested : Nat} {line : List Char} {rest : List (List Char)}

theorem Completes.content (h : Completes (.inside marker nested) rest)
    (hl : IsContent (leastToClose marker nested) line) :
    Completes (.inside marker nested) (line :: rest) := by
  cases h with
  | inside f closing hc hrest => exact .inside (.line line hl f) closing hc hrest

/-- The innermost group, its closing fence and what follows in the block are one filling. -/
theorem Completes.opened (h : Completes (.inside marker (nested + 1)) rest)
    (ho : OpensGroup line) : Completes (.inside marker nested) (line :: rest) := by
  cases h with
  | inside inner closing hc hrest =>
    cases hrest with
    | @inside _ _ f last hlast tail htail =>
      have hlines : (Filling.group line ho inner closing hc f).lines ++ last :: tail =
          line :: (inner.lines ++ closing :: (f.lines ++ last :: tail)) := by
        simp [Filling.lines, leastToClose]
      exact hlines ▸ Completes.inside (.group line ho inner closing hc f) last hlast htail

end

/-- The lines `ls` of a scan that comes out of all blocks close what was open and are laid out. -/
theorem completes_of_finalState {state : ScanState} {ls : List (List Char)}
    (h : finalState state ls = .outside) : Completes state ls := by
  induction ls generalizing state with
  | nil =>
    cases h
    exact .outside .nil
  | cons line rest ih =>
    have hrest : Completes (state.step line) rest := ih h
    cases state with
    | outside =>
      cases hf : Fence.parse? line with
      | none =>
        rw [ScanState.step_of_parse_eq_none hf] at hrest
        cases hrest with
        | outside d => exact .outside (.plain line hf d)
      | some fence =>
        rw [step_outside_of_fence hf] at hrest
        cases hrest with
        | inside f closing hc hafter =>
          cases hafter with
          | outside d => exact .outside (.block line fence hf f closing hc d)
    | inside marker nested =>
      rcases content_or_opens_or_closes (leastToClose marker nested) line with hl | ho | hc
      · rw [step_of_isContent hl] at hrest
        exact hrest.content hl
      · rw [step_of_opensGroup ho] at hrest
        exact hrest.opened ho
      · rw [step_of_closes hc] at hrest
        exact .inside .nil line hc hrest

theorem exists_layout_of_finalState {ls : List (List Char)}
    (h : finalState .outside ls = .outside) :
    ∃ d : Layout, d.lines = ls := by
  cases completes_of_finalState h with
  | outside d => exact ⟨d, rfl⟩

/-! ## One layout only -/

/-- Where a filling ends, at `c` or at `d`, and how it is made up, is told by the lines alone. -/
theorem Filling.unique {least : Nat} (f g : Filling least) {c d : List Char}
    {r s : List (List Char)} (hc : Closes least c) (hd : Closes least d)
    (h : f.lines ++ c :: r = g.lines ++ d :: s) : f = g ∧ c = d ∧ r = s := by
  induction f generalizing c d r s with
  | nil =>
    cases g with
    | nil =>
      simp only [Filling.lines, List.nil_append, List.cons.injEq] at h
      exact ⟨rfl, h⟩
    | line line hl rest =>
      simp only [Filling.lines, List.nil_append, List.cons_append, List.cons.injEq] at h
      exact absurd (h.1 ▸ hc) hl.not_closes
    | group opening ho inner closing hclosing rest =>
      simp only [Filling.lines, List.nil_append, List.cons_append, List.cons.injEq] at h
      exact absurd (h.1 ▸ hc) ho.not_closes
  | line line hl rest ih =>
    cases g with
    | nil =>
      simp only [Filling.lines, List.nil_append, List.cons_append, List.cons.injEq] at h
      exact absurd (h.1 ▸ hd) hl.not_closes
    | line line' hl' rest' =>
      simp only [Filling.lines, List.cons_append, List.cons.injEq] at h
      obtain ⟨rfl, hrest⟩ := h
      obtain ⟨rfl, hend⟩ := ih rest' hc hd hrest
      exact ⟨rfl, hend⟩
    | group opening ho inner closing hclosing rest' =>
      simp only [Filling.lines, List.cons_append, List.cons.injEq] at h
      exact absurd (h.1 ▸ ho) hl.not_opensGroup
  | group opening ho inner closing hclosing rest ihinner ih =>
    cases g with
    | nil =>
      simp only [Filling.lines, List.nil_append, List.cons_append, List.cons.injEq] at h
      exact absurd (h.1 ▸ hd) ho.not_closes
    | line line hl rest' =>
      simp only [Filling.lines, List.cons_append, List.cons.injEq] at h
      exact absurd (h.1 ▸ ho) hl.not_opensGroup
    | group opening' ho' inner' closing' hclosing' rest' =>
      simp only [Filling.lines, List.cons_append, List.append_assoc, List.cons.injEq] at h
      obtain ⟨rfl, hinner⟩ := h
      obtain ⟨rfl, rfl, hrest⟩ := ihinner inner' hclosing hclosing' hinner
      obtain ⟨rfl, hend⟩ := ih rest' hc hd hrest
      exact ⟨rfl, hend⟩

theorem Layout.lines_injective : Function.Injective Layout.lines := by
  intro d e h
  induction d generalizing e with
  | nil =>
    cases e with
    | nil => rfl
    | plain line hl rest => cases h
    | block opening fence ho filling closing hc rest => cases h
  | plain line hl rest ih =>
    cases e with
    | nil => cases h
    | plain line' hl' rest' =>
      simp only [Layout.lines, List.cons.injEq] at h
      obtain ⟨rfl, hrest⟩ := h
      rw [ih hrest]
    | block opening fence ho filling closing hc rest' =>
      simp only [Layout.lines, List.cons.injEq] at h
      obtain ⟨rfl, -⟩ := h
      rw [hl] at ho
      cases ho
  | block opening fence ho filling closing hc rest ih =>
    cases e with
    | nil => cases h
    | plain line hl rest' =>
      simp only [Layout.lines, List.cons.injEq] at h
      obtain ⟨rfl, -⟩ := h
      rw [hl] at ho
      cases ho
    | block opening' fence' ho' filling' closing' hc' rest' =>
      simp only [Layout.lines, List.cons.injEq] at h
      obtain ⟨rfl, hfilling⟩ := h
      obtain rfl : fence = fence' := Option.some.inj (ho.symm.trans ho')
      obtain ⟨rfl, rfl, hrest⟩ := filling.unique filling' hc hc' hfilling
      rw [ih hrest]

/-! ## The block that is open -/

/-- The lines end in a block that a fence opened, and that has been open ever since. -/
structure OpenedBy (fence : Fence) (ls above below : List (List Char)) (opening : List Char) :
    Prop where
  lines_eq : ls = above ++ opening :: below
  outside : finalState .outside above = .outside
  isFence : Fence.parse? opening = some fence
  isOpen : ∀ inner, inner <+: below → finalState .outside (above ++ opening :: inner) ≠ .outside

/-- The `marker` of a state is the length of the fence that opened the block. -/
theorem exists_openedBy {ls : List (List Char)} {marker nested : Nat}
    (h : finalState .outside ls = .inside marker nested) :
    ∃ fence above opening below, fence.length = marker ∧
      OpenedBy fence ls above below opening := by
  induction ls using List.reverseRecOn generalizing nested with
  | nil => cases h
  | append_singleton front line ih =>
    have hstep : (finalState .outside front).step line = .inside marker nested := by
      rw [finalState_append] at h
      exact h
    cases hs : finalState .outside front with
    | outside =>
      rw [hs] at hstep
      cases hf : Fence.parse? line with
      | none =>
        rw [ScanState.step_of_parse_eq_none hf] at hstep
        cases hstep
      | some fence =>
        rw [step_outside_of_fence hf] at hstep
        cases hstep
        refine ⟨fence, front, line, [], rfl, rfl, hs, hf, ?_⟩
        intro inner hinner
        obtain rfl := List.prefix_nil.1 hinner
        rw [h]
        exact nofun
    | inside marker' nested' =>
      rw [hs] at hstep
      obtain rfl := marker_of_step hstep
      obtain ⟨fence, above, opening, below, hm, hopened⟩ := ih hs
      refine ⟨fence, above, opening, below ++ [line], hm, ?_, hopened.outside, hopened.isFence, ?_⟩
      · rw [hopened.lines_eq]
        simp
      · intro inner hinner
        rcases List.prefix_concat_iff.1 hinner with rfl | hinner
        · rw [← List.cons_append, ← List.append_assoc, ← hopened.lines_eq, h]
          exact nofun
        · exact hopened.isOpen inner hinner

/-! ## The scan and the grammar -/

/-- A scan ends outside exactly if the lines are laid out as plain lines and blocks, and they are so
in one way; the text lines are then the plain lines that stand in no block. A scan that ends inside
knows the length of the fence that opened the block, which has at least three marks. -/
theorem finalState_eq_outside_iff (ls : List (List Char)) :
    (finalState .outside ls = .outside ↔ ∃! d : Layout, d.lines = ls) ∧
    (∀ d : Layout, d.lines = ls → (scan .outside ls).map Prod.fst = d.kinds) ∧
    ∀ marker nested, finalState .outside ls = .inside marker nested →
      3 ≤ marker ∧ ∃ fence above opening below, fence.length = marker ∧
        OpenedBy fence ls above below opening := by
  refine ⟨⟨?_, ?_⟩, ?_, ?_⟩
  · intro h
    obtain ⟨d, rfl⟩ := exists_layout_of_finalState h
    exact ⟨d, rfl, fun e he => Layout.lines_injective he⟩
  · rintro ⟨d, rfl, -⟩
    exact finalState_layout d
  · rintro d rfl
    exact scannedKinds_layout d
  · intro marker nested h
    obtain ⟨fence, above, opening, below, rfl, hopened⟩ := exists_openedBy h
    exact ⟨Fence.three_le_length hopened.isFence, fence, above, opening, below, rfl, hopened⟩

/-- A line of so many fence marks with an info text. -/
def fenceLine (length : Nat) (info : List Char) : List Char :=
  List.replicate length fenceMark ++ info ++ ['\n']

/-- A plain line, and a block with a bare fence that is too short to close it and a group. -/
def nestedLines : List (List Char) :=
  [['a', '\n'], fenceLine 4 ['m', 'd'], fenceLine 3 [], fenceLine 3 ['s', 'h'], ['b', '\n'],
    fenceLine 5 [], fenceLine 4 []]

theorem finalState_eq_outside_iff_nested :
    finalState .outside nestedLines = .outside ∧
      (∃! d : Layout, d.lines = nestedLines) ∧
      (∃ d : Layout, d.lines = nestedLines ∧
        d.kinds = .text :: List.replicate 6 .verbatim) ∧
      finalState .outside (nestedLines.take 4) = .inside 4 1 ∧
      ∃ fence above opening below, fence.length = 4 ∧
        OpenedBy fence (nestedLines.take 4) above below opening := by
  have hout : finalState .outside nestedLines = .outside := by decide +kernel
  have hin : finalState .outside (nestedLines.take 4) = .inside 4 1 := by decide +kernel
  have hkinds : (scan .outside nestedLines).map Prod.fst =
      .text :: List.replicate 6 .verbatim := by decide +kernel
  obtain ⟨hiff, htext, -⟩ := finalState_eq_outside_iff nestedLines
  obtain ⟨d, hd, honly⟩ := hiff.1 hout
  exact ⟨hout, ⟨d, hd, honly⟩, ⟨d, hd, (htext d hd).symm.trans hkinds⟩, hin,
    ((finalState_eq_outside_iff (nestedLines.take 4)).2.2 4 1 hin).2⟩

end AgentDocs.Template
