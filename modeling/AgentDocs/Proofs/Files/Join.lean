import AgentDocs.Files.Edit

/-!
# Paths of files in a directory

What the spelling of a path and the spelling of the path of a file in it have in common: the
segments of `p.join f.raw` are those of `p`, less an empty one at the end, and then the name `f`.

* `markedSegments_join`: the segments of the path of a file.
* `directoriesOf_join`: the directories on the way to a file are the prefixes of its directory.
-/

namespace AgentDocs.Files

/-! ## Segments -/

section
variable {α : Type} [DecidableEq α] {sep : α} {text segment : List α}

theorem segments_ne_nil (text : List α) : segments sep text ≠ [] := by
  cases text with
  | nil => simp [segments]
  | cons c rest =>
    unfold segments
    split
    · simp
    · split <;> simp

theorem segments_append (before after : List α) :
    segments sep (before ++ sep :: after) = segments sep before ++ segments sep after := by
  induction before with
  | nil => simp [segments]
  | cons c rest ih =>
    by_cases hc : c = sep
    · simp [segments, hc, ih]
    · rw [List.cons_append, segments, if_neg hc, ih, segments, if_neg hc]
      rcases h : segments sep rest with _ | ⟨s, more⟩
      · exact absurd h (segments_ne_nil rest)
      · rfl

theorem segments_of_notMem (h : sep ∉ text) : segments sep text = [text] := by
  induction text with
  | nil => rfl
  | cons c rest ih =>
    rw [List.mem_cons, not_or] at h
    rw [segments, if_neg (Ne.symm h.1), ih h.2]

theorem notMem_of_mem_segments (h : segment ∈ segments sep text) : sep ∉ segment := by
  induction text generalizing segment with
  | nil => simp [segments] at h; simp [h]
  | cons c rest ih =>
    by_cases hc : c = sep
    · rw [segments, if_pos hc] at h
      rcases List.mem_cons.1 h with rfl | h
      · simp
      · exact ih h
    · rw [segments, if_neg hc] at h
      rcases hs : segments sep rest with _ | ⟨s, more⟩
      · exact absurd hs (segments_ne_nil rest)
      · rw [hs] at h ih
        rcases List.mem_cons.1 h with rfl | h
        · have := ih List.mem_cons_self
          simp [Ne.symm hc, this]
        · exact ih (List.mem_cons_of_mem _ h)

/-- The segments of `text` make it up again, each behind a separator. -/
theorem flatMap_segments (text : List α) :
    (segments sep text).flatMap (fun segment => sep :: segment) = sep :: text := by
  induction text with
  | nil => rfl
  | cons c rest ih =>
    by_cases hc : c = sep
    · rw [segments, if_pos hc, List.flatMap_cons, ih, hc]
      rfl
    · rw [segments, if_neg hc]
      rcases hs : segments sep rest with _ | ⟨s, more⟩
      · exact absurd hs (segments_ne_nil rest)
      · rw [hs] at ih
        simp only [List.flatMap_cons, List.cons_append, List.cons.injEq, true_and] at ih ⊢
        exact ih

end

theorem isFileName_of_append {raw : RawText} {before extension : List UInt8}
    (h : raw.bytes = before ++ extension) (hb : separator ∉ before) (he : separator ∉ extension)
    (hl : 2 < extension.length) : isFileName raw = true := by
  have hne : ∀ short : List UInt8, short.length ≤ 2 → raw.bytes ≠ short := by
    rintro short hshort rfl
    rw [h, List.length_append] at hshort
    omega
  have hslash : separator ∉ raw.bytes := by
    rw [h, List.mem_append]
    exact not_or.2 ⟨hb, he⟩
  simp [isFileName, hne [] (by decide), hne [dot] (by decide), hne [dot, dot] (by decide), hslash]

namespace PathName

/-! ## Steps -/

theorem innerStep_ne_root (segment : List UInt8) : innerStep segment ≠ .root := by
  unfold innerStep
  split
  · simp
  · split <;> simp

theorem innerStep_nil : innerStep [] = .here := by
  simp [innerStep, FileName.ofRaw?, isFileName]

theorem innerStep_bytes (f : FileName) : innerStep f.raw.bytes = .child f := by
  simp only [innerStep, show (⟨f.raw.bytes⟩ : RawText) = f.raw from rfl, FileName.ofRaw?_raw]

/-- Only the first of some marked segments can stand for the root. -/
def mark : List (List UInt8) → List (Step × List UInt8)
  | [] => []
  | first :: rest =>
    (if first = [] then .root else innerStep first, first) ::
      rest.map fun segment => (innerStep segment, segment)

theorem markedSegments_eq {p : PathName} (h : p.raw.bytes ≠ []) :
    p.markedSegments = mark (segments separator p.raw.bytes) := by
  have he : p.raw.bytes.isEmpty = false := by simpa using h
  rw [markedSegments, he]
  rcases segments separator p.raw.bytes with _ | ⟨first, rest⟩ <;> rfl

theorem mark_append {first : List (List UInt8)} (h : first ≠ []) (rest : List (List UInt8)) :
    mark (first ++ rest) = mark first ++ rest.map fun segment => (innerStep segment, segment) := by
  cases first with
  | nil => exact absurd rfl h
  | cons s more => simp [mark]

theorem root_notMem_tail_moves (p : PathName) : .root ∉ p.moves.tail := by
  by_cases h : p.raw.bytes = []
  · simp [moves, markedSegments, h]
  · rw [moves, markedSegments_eq h]
    rcases segments separator p.raw.bytes with _ | ⟨first, rest⟩
    · simp [mark]
    · simp only [mark, List.map_cons, List.tail_cons, List.map_map, List.mem_map,
        Function.comp_apply, not_exists, not_and]
      exact fun segment _ => innerStep_ne_root segment

/-! ## The path of a file in a directory -/

/-- The segments of a path without the empty one behind a separator at the end. -/
def inside (p : PathName) : List (Step × List UInt8) :=
  if p.isClosed then p.markedSegments.dropLast else p.markedSegments

theorem head?_bytes_ne (f : FileName) : f.raw.bytes.head? ≠ some separator := by
  intro h
  exact f.separator_notMem_bytes (List.mem_of_mem_head? h)

theorem bytes_ne_nil (f : FileName) : f.raw.bytes ≠ [] := by
  have := f.proper
  simp only [isFileName, Bool.and_eq_true, decide_eq_true_eq] at this
  exact this.1.1.1

theorem eq_append_of_isClosed {p : PathName} (h : p.isClosed = true) :
    ∃ before, p.raw.bytes = before ++ [separator] := by
  simp only [isClosed, beq_iff_eq] at h
  exact List.getLast?_eq_some_iff.1 h

/-- The bytes of the path of `f`, by what the path `p` of its directory ends with. -/
theorem bytes_join (p : PathName) (f : FileName) :
    (p.join f.raw).raw.bytes =
      if p.raw.bytes = [] ∨ p.isClosed = true then p.raw.bytes ++ f.raw.bytes
      else p.raw.bytes ++ separator :: f.raw.bytes := by
  have ha : (PathName.mk f.raw).isAbsolute = false := by
    simpa [isAbsolute] using head?_bytes_ne f
  have hp : (p.raw.bytes.isEmpty || decide (p.raw.bytes.getLast? = some separator)) =
      decide (p.raw.bytes = [] ∨ p.isClosed = true) := by
    rw [Bool.eq_iff_iff]
    simp [isClosed]
  simp only [join, ha, Bool.false_eq_true, if_false]
  rw [hp]
  by_cases h : p.raw.bytes = [] ∨ p.isClosed = true
  · simp only [h, decide_true, if_true, RawText.bytes_append]
  · simp only [h, decide_false, Bool.false_eq_true, if_false, RawText.bytes_append,
      List.append_assoc]
    rfl

theorem exists_bytes_join (p : PathName) (f : FileName) :
    ∃ more, (p.join f.raw).raw.bytes = p.raw.bytes ++ more := by
  rw [bytes_join]
  split
  · exact ⟨_, rfl⟩
  · exact ⟨_, rfl⟩

theorem join_bytes_ne_nil (p : PathName) (f : FileName) : (p.join f.raw).raw.bytes ≠ [] := by
  have hf := bytes_ne_nil f
  intro h
  have := bytes_join p f
  rw [h] at this
  split at this
  · exact hf (List.append_eq_nil_iff.1 this.symm).2
  · simp at this

theorem markedSegments_join (p : PathName) (f : FileName) :
    (p.join f.raw).markedSegments = p.inside ++ [(.child f, f.raw.bytes)] := by
  have hs := segments_of_notMem f.separator_notMem_bytes
  have hf := bytes_ne_nil f
  rw [markedSegments_eq (join_bytes_ne_nil p f), bytes_join]
  by_cases he : p.raw.bytes = []
  · have hc : p.isClosed = false := by simp [isClosed, he]
    simp [he, hs, inside, hc, markedSegments, mark, hf, innerStep_bytes]
  · cases hc : p.isClosed with
    | true =>
      obtain ⟨before, hb⟩ := eq_append_of_isClosed hc
      simp only [hc, or_true, if_true, inside]
      rw [markedSegments_eq he, hb, List.append_assoc, List.singleton_append, segments_append,
        segments_append, hs, mark_append (segments_ne_nil _), mark_append (segments_ne_nil _)]
      simp [segments, innerStep_bytes]
    | false =>
      simp only [he, hc, Bool.false_eq_true, or_self, if_false, inside]
      rw [markedSegments_eq he, segments_append, hs, mark_append (segments_ne_nil _)]
      simp [innerStep_bytes]

/-! ## The directories on the way -/

/-- The paths up to each of some marked segments that count. -/
def prefixesOf : List (Step × List UInt8) → List PathName
  | [] => []
  | (step, segment) :: rest =>
    ⟨⟨if step = .root then [separator] else segment⟩⟩ :: prefixesAfter segment rest

theorem prefixes_eq (p : PathName) : p.prefixes = prefixesOf p.markedSegments := by
  rw [prefixes]
  rcases p.markedSegments with _ | ⟨⟨step, segment⟩, rest⟩ <;> rfl

/-- The bytes of some segments, each behind a separator. -/
def joined (segments : List (Step × List UInt8)) : List UInt8 :=
  segments.flatMap fun x => separator :: x.2

theorem prefixesAfter_append (before : List UInt8) (first rest : List (Step × List UInt8)) :
    prefixesAfter before (first ++ rest) =
      prefixesAfter before first ++ prefixesAfter (before ++ joined first) rest := by
  induction first generalizing before with
  | nil => simp [prefixesAfter, joined]
  | cons x first ih =>
    obtain ⟨step, segment⟩ := x
    by_cases h : step = .here <;> simp [prefixesAfter, h, ih, joined]

theorem prefixesOf_append {first : List (Step × List UInt8)} (h : first ≠ [])
    (rest : List (Step × List UInt8)) :
    prefixesOf (first ++ rest) =
      prefixesOf first ++ prefixesAfter ((joined first).drop 1) rest := by
  rcases first with _ | ⟨⟨step, segment⟩, first⟩
  · exact absurd rfl h
  · simp [prefixesOf, prefixesAfter_append, joined]

/-- An empty segment at the end of `p` leads to no further directory. -/
theorem prefixesOf_inside (p : PathName) : prefixesOf p.inside = p.prefixes := by
  rw [prefixes_eq, inside]
  cases hc : p.isClosed with
  | false => rfl
  | true =>
    obtain ⟨before, hb⟩ := eq_append_of_isClosed hc
    have he : p.raw.bytes ≠ [] := by rintro h; simp [h] at hb
    rw [if_pos rfl, markedSegments_eq he, hb, segments_append,
      mark_append (segments_ne_nil _), prefixesOf_append]
    · simp [segments, innerStep_nil, prefixesAfter]
    · rcases h : segments separator before with _ | ⟨s, more⟩
      · exact absurd h (segments_ne_nil _)
      · simp [mark]

theorem directoriesOf_join (p : PathName) (f : FileName) :
    Workspace.directoriesOf (p.join f.raw) = p.prefixes.reverse := by
  rw [Workspace.directoriesOf, prefixes_eq (p.join f.raw), markedSegments_join,
    ← prefixesOf_inside]
  congr 1
  by_cases h : p.inside = []
  · simp [h, prefixesOf, prefixesAfter]
  · rw [prefixesOf_append h]
    simp [prefixesAfter]

/-! ## The spelling of a directory on the way -/

/-- Marked segments as they stand in a path. -/
structure Proper (ms : List (Step × List UInt8)) : Prop where
  marked : mark (ms.map (·.2)) = ms
  noSlash : ∀ x ∈ ms, separator ∉ x.2

theorem map_mark (segments : List (List UInt8)) : (mark segments).map (·.2) = segments := by
  rcases segments with _ | ⟨first, rest⟩
  · rfl
  · simp [mark, Function.comp_def]

theorem proper_markedSegments (p : PathName) : Proper p.markedSegments := by
  by_cases h : p.raw.bytes = []
  · have hn : p.markedSegments = [] := by simp [markedSegments, h]
    rw [hn]
    exact ⟨rfl, by simp⟩
  · rw [markedSegments_eq h]
    refine ⟨by rw [map_mark], fun x hx => ?_⟩
    have := List.mem_map_of_mem (f := (·.2)) hx
    rw [map_mark] at this
    exact notMem_of_mem_segments this

theorem Proper.left {first rest : List (Step × List UInt8)} (h : Proper (first ++ rest)) :
    Proper first := by
  refine ⟨?_, fun x hx => h.noSlash x (List.mem_append_left _ hx)⟩
  cases first with
  | nil => rfl
  | cons x first =>
    have hm := h.marked
    rw [List.map_append, mark_append (by simp)] at hm
    refine (List.append_inj hm ?_).1
    rw [← List.length_map (f := (·.2)), map_mark, List.length_map]

theorem proper_inside (p : PathName) : Proper p.inside := by
  unfold inside
  split
  · obtain ⟨rest, h⟩ := List.dropLast_prefix p.markedSegments
    exact (h ▸ proper_markedSegments p).left
  · exact proper_markedSegments p

theorem Proper.step_eq {first : List (Step × List UInt8)} {x : Step × List UInt8}
    (h : Proper (first ++ [x])) (hf : first ≠ []) : x.1 = innerStep x.2 := by
  have hm := h.marked
  rw [List.map_append, mark_append (by simpa using hf), h.left.marked] at hm
  have := List.append_cancel_left hm
  simp only [List.map_cons, List.map_nil, List.cons.injEq, and_true] at this
  rw [← this]

/-- The spelling of marked segments. -/
def spelling (ms : List (Step × List UInt8)) : List UInt8 := (joined ms).drop 1

/-- The path that marked segments make. -/
def pathOf (ms : List (Step × List UInt8)) : PathName :=
  if ms.map (·.1) = [.root] then ⟨⟨[separator]⟩⟩ else ⟨⟨spelling ms⟩⟩

theorem spelling_append {first : List (Step × List UInt8)} (h : first ≠ [])
    (rest : List (Step × List UInt8)) :
    spelling (first ++ rest) = spelling first ++ joined rest := by
  rcases first with _ | ⟨x, first⟩
  · exact absurd rfl h
  · simp [spelling, joined]

theorem prefixesOf_concat {first : List (Step × List UInt8)} (h : first ≠ [])
    (x : Step × List UInt8) :
    prefixesOf (first ++ [x]) =
      prefixesOf first ++ if x.1 = .here then [] else [pathOf (first ++ [x])] := by
  have hp : (first ++ [x]).map (·.1) ≠ [.root] := by
    rcases first with _ | ⟨y, first⟩
    · exact absurd rfl h
    · simp
  rw [prefixesOf_append h, pathOf, if_neg hp, spelling_append h]
  by_cases hx : x.1 = .here <;> simp [prefixesAfter, hx, joined, spelling]

theorem prefixesOf_single (x : Step × List UInt8) : prefixesOf [x] = [pathOf [x]] := by
  by_cases h : x.1 = .root <;> simp [prefixesOf, prefixesAfter, pathOf, spelling, joined, h]

theorem segments_spelling {ms : List (Step × List UInt8)} (hm : ms ≠ [])
    (h : ∀ x ∈ ms, separator ∉ x.2) : segments separator (spelling ms) = ms.map (·.2) := by
  induction ms with
  | nil => exact absurd rfl hm
  | cons x rest ih =>
    have hx := segments_of_notMem (h x List.mem_cons_self)
    rcases rest with _ | ⟨y, rest⟩
    · simpa [spelling, joined] using hx
    · have hrest := ih (by simp) fun z hz => h z (List.mem_cons_of_mem _ hz)
      have ht : spelling (x :: y :: rest) = x.2 ++ separator :: spelling (y :: rest) := by
        simp [spelling, joined]
      rw [ht, segments_append, hx, hrest]
      rfl

theorem pathOf_bytes_ne_nil {ms : List (Step × List UInt8)} (h : Proper ms) (hm : ms ≠ []) :
    (pathOf ms).raw.bytes ≠ [] := by
  by_cases hr : ms.map (·.1) = [.root]
  · rw [pathOf, if_pos hr]
    simp
  · have ht : spelling ms ≠ [] := by
      intro ht
      have hs := segments_spelling hm h.noSlash
      rw [ht] at hs
      -- a single empty segment would stand for the root
      have hms := h.marked
      rw [← hs] at hms
      exact hr (by rw [← hms]; rfl)
    simpa [pathOf, hr] using ht

theorem markedSegments_pathOf {ms : List (Step × List UInt8)} (h : Proper ms) (hm : ms ≠ [])
    (hr : ms.map (·.1) ≠ [.root]) : (pathOf ms).markedSegments = ms := by
  rw [markedSegments_eq (pathOf_bytes_ne_nil h hm)]
  simp only [pathOf, hr, if_false, segments_spelling hm h.noSlash, h.marked]

theorem markedSegments_root :
    (⟨⟨[separator]⟩⟩ : PathName).markedSegments = [(.root, []), (.here, [])] := by
  decide

/-- A root step stands for an empty segment. -/
theorem Proper.eq_root {ms : List (Step × List UInt8)} (h : Proper ms)
    (hr : ms.map (·.1) = [.root]) : ms = [(.root, [])] := by
  obtain ⟨⟨step, segment⟩, rfl, hs⟩ := List.map_eq_singleton_iff.1 hr
  have hm := h.marked
  simp only at hs
  subst hs
  by_cases hseg : segment = []
  · rw [hseg]
  · simp only [mark, List.map_cons, List.map_nil, if_neg hseg, List.cons.injEq, Prod.mk.injEq,
      and_true] at hm
    exact absurd hm (innerStep_ne_root segment)

/-- Every directory on the way is spelled by the beginning of the spelling of the last. -/
theorem bytes_pathOf_append {first rest : List (Step × List UInt8)} (h : first ≠ [])
    (hp : Proper first) (hr : rest ≠ []) :
    ∃ more, (pathOf (first ++ rest)).raw.bytes = (pathOf first).raw.bytes ++ more := by
  have hn : (first ++ rest).map (·.1) ≠ [.root] := by
    rcases first with _ | ⟨y, first⟩
    · exact absurd rfl h
    · rcases rest with _ | ⟨z, rest⟩
      · exact absurd rfl hr
      · simp
  simp only [pathOf, hn, if_false, spelling_append h]
  by_cases hf : first.map (·.1) = [.root]
  · obtain ⟨z, rest', rfl⟩ := List.exists_cons_of_ne_nil hr
    refine ⟨z.2 ++ joined rest', ?_⟩
    rw [hp.eq_root hf]
    rfl
  · simp only [hf, if_false]
    exact ⟨joined rest, rfl⟩

theorem spelling_markedSegments (p : PathName) : spelling p.markedSegments = p.raw.bytes := by
  by_cases h : p.raw.bytes = []
  · simp [markedSegments, h, spelling, joined]
  · have hj : joined p.markedSegments = separator :: p.raw.bytes := by
      have hm := map_mark (segments separator p.raw.bytes)
      rw [← markedSegments_eq h] at hm
      rw [← flatMap_segments, ← hm, List.flatMap_map]
      rfl
    rw [spelling, hj]
    rfl

/-- So is the path of a file in the last of them. -/
theorem bytes_join_pathOf {p : PathName} (h : p.inside ≠ []) (f : FileName) :
    ∃ more, (p.join f.raw).raw.bytes = (pathOf p.inside).raw.bytes ++ more := by
  have hc : [(Step.child f, f.raw.bytes)] ≠ [] := by simp
  obtain ⟨more, hmore⟩ := bytes_pathOf_append h (proper_inside p) hc
  refine ⟨more, ?_⟩
  have hn : (p.inside ++ [(Step.child f, f.raw.bytes)]).map (·.1) ≠ [.root] := by
    rw [List.map_append]
    intro hr
    have := congrArg List.getLast? hr
    simp at this
  rw [← hmore, pathOf, if_neg hn, ← markedSegments_join, spelling_markedSegments]

end PathName

end AgentDocs.Files
