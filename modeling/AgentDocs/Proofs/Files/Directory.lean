import AgentDocs.Proofs.Files.Walk

/-!
# Files in a directory

What the operations on files do at the path `p.join f.raw` of a file `f` directly in the directory
`p`. All of them go along `p.way` first and then look at one entry.

* `lastStep?_join`: the entry that a change is about.
* `replaceFile_join`, `removeFile_join`: all that a change can come to.
* `Stands`: a file with a text stands in a directory, and is read there.
-/

namespace AgentDocs.Files

namespace PathName

/-- The steps that lead to a directory, where a separator at the end of its path does not count. -/
def way (p : PathName) : List Step := p.inside.map (·.1)

/-- A separator at the end of `p` is one more step that stays. -/
theorem moves_eq (p : PathName) : p.moves = p.way ∨ p.way ≠ [] ∧ p.moves = p.way ++ [.here] := by
  unfold moves way inside
  split
  · next hc =>
    obtain ⟨before, hb⟩ := eq_append_of_isClosed hc
    have he : p.raw.bytes ≠ [] := by rintro h; simp [h] at hb
    have hm : p.markedSegments = mark (segments separator before) ++ [(.here, [])] := by
      rw [markedSegments_eq he, hb, segments_append, mark_append (segments_ne_nil _)]
      simp [segments, innerStep_nil]
    refine .inr ⟨?_, by rw [hm]; simp⟩
    rw [hm, List.dropLast_concat]
    rcases hs : segments separator before with _ | ⟨s, more⟩
    · exact absurd hs (segments_ne_nil _)
    · simp [mark]
  · exact .inl rfl

theorem moves_join (p : PathName) (f : FileName) :
    (p.join f.raw).moves = p.way ++ [.child f] := by
  rw [moves, markedSegments_join, List.map_append]
  rfl

theorem steps_join (p : PathName) (f : FileName) :
    (p.join f.raw).steps = p.steps ++ [.child f] := by
  unfold steps
  rw [moves_join]
  rcases moves_eq p with h | ⟨hne, h⟩
  · rw [h]
    rcases p.way with _ | ⟨first, rest⟩
    · rfl
    · simp
  · rw [h]
    rcases hw : p.way with _ | ⟨first, rest⟩
    · exact absurd hw hne
    · simp

theorem join_injective {p : PathName} {f g : FileName} (h : p.join f.raw = p.join g.raw) :
    f = g := by
  simpa [steps_join] using congrArg steps h

theorem movesBack_join (p : PathName) (f : FileName) :
    (p.join f.raw).movesBack = .child f :: p.way.reverse := by
  have hf : f.raw.bytes.isEmpty = false := by simpa using bytes_ne_nil f
  simp [movesBack, markedSegments_join, hf, way]

theorem isClosed_join (p : PathName) (f : FileName) : (p.join f.raw).isClosed = false := by
  have hf := bytes_ne_nil f
  have hlast : f.raw.bytes.getLast? ≠ some separator := fun h =>
    f.separator_notMem_bytes (List.mem_of_getLast? h)
  have hend : ∃ before, (p.join f.raw).raw.bytes = before ++ f.raw.bytes := by
    rw [bytes_join]
    split
    · exact ⟨_, rfl⟩
    · exact ⟨p.raw.bytes ++ [separator], by simp⟩
  obtain ⟨before, hb⟩ := hend
  rw [List.getLast?_eq_some_getLast hf] at hlast
  rw [isClosed, beq_eq_false_iff_ne, hb, List.getLast?_append, List.getLast?_eq_some_getLast hf]
  exact hlast

theorem root_notMem_tail_way (p : PathName) : .root ∉ p.way.tail := by
  have h := root_notMem_tail_moves p
  unfold way inside
  split
  · rw [List.map_dropLast, List.tail_dropLast]
    exact fun hm => h ((List.dropLast_prefix _).subset hm)
  · exact h

theorem refusal?_of_append {p q : PathName} {more : List UInt8}
    (hq : q.raw.bytes = p.raw.bytes ++ more) (hp : p.raw.bytes ≠ []) (h : q.refusal? = none) :
    p.refusal? = none := by
  unfold refusal? at h ⊢
  have hs : q.raw.bytes.length = p.raw.bytes.length + more.length := by
    rw [hq, List.length_append]
  have he : p.raw.bytes.isEmpty = false := by simpa using hp
  split at h
  · cases h
  · next hz =>
    have hz' : ¬p.raw.bytes.contains 0 = true := by
      rw [hq, List.contains_append, Bool.or_eq_true] at hz
      exact fun hc => hz (.inl hc)
    simp only [hz', he, Bool.false_eq_true, if_false]
    split at h
    · cases h
    · split at h
      · cases h
      · rw [if_neg (by omega)]

theorem refusal?_join_ne (p : PathName) (f : FileName) :
    (p.join f.raw).refusal? ≠ some .notFound := by
  have he : (p.join f.raw).raw.bytes.isEmpty = false := by
    simpa using join_bytes_ne_nil p f
  unfold refusal?
  rw [he]
  split
  · simp
  · simp only [Bool.false_eq_true, if_false]
    split <;> simp

end PathName

namespace Workspace

variable {w v : Workspace} {p : PathName} {f : FileName} {l : Location} {steps : List Step}

/-! ## The directory and the entry -/

theorem directoryAt_eq_ok_iff :
    w.directoryAt steps = .ok l ↔ w.follow steps = .ok l ∧ w.tree.isDirectory l = true := by
  unfold directoryAt
  cases hf : w.follow steps with
  | error e => simp [bind, Except.bind]
  | ok m =>
    simp only [bind, Except.bind]
    split
    · next hd =>
      constructor
      · intro h; cases h; exact ⟨rfl, hd⟩
      · rintro ⟨h, -⟩; exact h
    · next hd =>
      constructor
      · intro h; cases h
      · rintro ⟨h, hd'⟩; cases h; exact absurd hd' hd

/-- The entry that a change of the file `f` in the directory at `p` is about. -/
theorem lastStep?_join (w : Workspace) (p : PathName) (f : FileName) :
    w.lastStep? (p.join f.raw) =
      match (p.join f.raw).refusal? with
      | some e => .error e
      | none => (w.directoryAt p.way).map fun l => some (l, .child f) := by
  unfold lastStep?
  rw [PathName.movesBack_join]
  cases (p.join f.raw).refusal? with
  | some e => rfl
  | none => simp only [List.reverse_reverse]

/-- The way `steps` to a directory can be gone on with. -/
theorem exists_follow_append (h : w.directoryAt steps = .ok l) :
    ∃ k, ∀ more, w.follow (steps ++ more) = w.tree.walk k l more :=
  (FileTree.leads_of_walk (directoryAt_eq_ok_iff.1 h).1).walk_append

theorem walk_child {t : FileTree} {k : Nat} {e : Entry} (hd : t.isDirectory l = true)
    (he : t.find? (f :: l) = some e) (hn : ∀ target, e ≠ .link target) :
    t.walk k l [.child f] = .ok (f :: l) :=
  (FileTree.Leads.into hd he hn .done).walk

theorem walk_child_of_none {t : FileTree} {k : Nat} (hd : t.isDirectory l = true)
    (he : t.find? (f :: l) = none) :
    t.walk k l [.child f] = .error (if f.isTooLong then .nameTooLong else .notFound) := by
  rw [FileTree.walk_eq]
  simp only [FileTree.walkWith, hd, he, Bool.not_true, Bool.false_eq_true, if_false]

theorem exists_directoryAt_of_follow {m : Location}
    (h : w.follow (steps ++ [.child f]) = .ok m) : ∃ l, w.directoryAt steps = .ok l := by
  obtain ⟨l, hl⟩ := FileTree.walk_append_ok h
  obtain ⟨k, hk⟩ := (FileTree.leads_of_walk hl).walk_append
  refine ⟨l, directoryAt_eq_ok_iff.2 ⟨hl, ?_⟩⟩
  cases hd : w.tree.isDirectory l with
  | true => rfl
  | false =>
    have hm : w.tree.walk k l [.child f] = .ok m := (hk _).symm.trans h
    rw [FileTree.walk_eq] at hm
    simp [FileTree.walkWith, hd] at hm

theorem accepted_of_resolve (h : w.resolve p = .ok l) : p.refusal? = none := by
  unfold resolve at h
  cases hr : p.refusal? with
  | none => rfl
  | some e =>
    rw [hr] at h
    cases h

/-- The path `p` of a directory leads where its way leads. -/
theorem directoryAt_way_of_resolve (h : w.resolve p = .ok l)
    (hd : w.tree.isDirectory l = true) : p.refusal? = none ∧ w.directoryAt p.way = .ok l := by
  have ha := accepted_of_resolve h
  rw [resolve, ha] at h
  refine ⟨ha, directoryAt_eq_ok_iff.2 ⟨?_, hd⟩⟩
  rcases p.moves_eq with hm | ⟨-, hm⟩
  · rwa [hm] at h
  · rw [hm] at h
    obtain ⟨m, hf⟩ := FileTree.walk_append_ok h
    obtain ⟨k, hk⟩ := (FileTree.leads_of_walk hf).walk_append
    have hl : w.tree.walk k m [.here] = .ok l := (hk _).symm.trans h
    cases FileTree.leads_of_walk hl with
    | stay _ hdone =>
      cases hdone
      exact hf

theorem resolve_of_directoryAt_way (ha : p.refusal? = none) (h : w.directoryAt p.way = .ok l) :
    w.resolve p = .ok l := by
  obtain ⟨hf, hd⟩ := directoryAt_eq_ok_iff.1 h
  rw [resolve, ha]
  rcases p.moves_eq with hm | ⟨-, hm⟩
  · rw [hm]
    exact hf
  · obtain ⟨k, hk⟩ := exists_follow_append h
    rw [hm]
    exact (hk _).trans (FileTree.Leads.stay hd .done).walk

theorem openDirectory_eq_ok_iff :
    w.openDirectory p = .ok l ↔
      w.resolve p = .ok l ∧ w.tree.isDirectory l = true ∧ l ∉ w.sealed := by
  unfold openDirectory
  cases hr : w.resolve p with
  | error e => simp [bind, Except.bind]
  | ok m =>
    cases hd : w.tree.isDirectory m <;> cases hs : w.sealed.contains m <;>
      simp_all [bind, Except.bind]
    all_goals grind

/-- A directory that cannot be opened is `sealed`. -/
theorem openDirectory_of_isDirectory (h : w.isDirectory p = true) :
    ∃ l, w.resolve p = .ok l ∧ w.tree.isDirectory l = true ∧
      w.openDirectory p = if l ∈ w.sealed then .error .permissionDenied else .ok l := by
  obtain ⟨l, hl, he⟩ := resolve_isSome_of_entry? (e := .directory)
    (by simpa [Workspace.isDirectory] using h)
  have hd : w.tree.isDirectory l = true := by simp [FileTree.isDirectory, he]
  refine ⟨l, hl, hd, ?_⟩
  simp [openDirectory, hl, hd, bind, Except.bind]

/-- Where steps are not found, those before the last one are not found, or they lead to a directory.
-/
theorem follow_left_of_notFound {step : Step} (hs : step ≠ .root)
    (hn : w.follow (steps ++ [step]) = .error .notFound)
    (hl : ∀ l, w.directoryAt steps ≠ .ok l) : w.follow steps = .error .notFound := by
  cases hf : w.follow steps with
  | error e =>
    have : w.follow (steps ++ [step]) = .error e := FileTree.walk_append_error hf
    rw [← this, hn]
  | ok l =>
    obtain ⟨k, hk⟩ := (FileTree.leads_of_walk hf).walk_append
    have hd : w.tree.isDirectory l = false := by
      rw [← Bool.not_eq_true]
      exact fun hd => hl l (directoryAt_eq_ok_iff.2 ⟨hf, hd⟩)
    have hstop : w.follow (steps ++ [step]) = .error .notDirectory :=
      (hk _).trans (FileTree.walk_of_not_isDirectory hs hd)
    rw [hstop] at hn
    cases hn

theorem eq_of_follow {m : Location} (hl : w.directoryAt steps = .ok l)
    (hn : ∀ target, w.tree.find? (f :: l) ≠ some (.link target))
    (h : w.follow (steps ++ [.child f]) = .ok m) : m = f :: l := by
  obtain ⟨k, hk⟩ := exists_follow_append hl
  have hd := (directoryAt_eq_ok_iff.1 hl).2
  rw [hk] at h
  cases he : w.tree.find? (f :: l) with
  | none =>
    have hw := walk_child_of_none (k := k) hd he
    rw [hw] at h
    cases h
  | some e =>
    rw [walk_child hd he fun target ht => hn target (he.trans (congrArg some ht))] at h
    cases h
    rfl

/-! ## Changes -/

theorem replaceFile_join {bytes : ByteArray} {r : Except FileError Unit}
    (h : w.replaceFile (p.join f.raw) bytes = (v, r)) :
    (v = w ∧ ∃ e, r = .error e) ∨
      (r = .ok () ∧ ∃ l, w.directoryAt p.way = .ok l ∧
        w.tree.find? (f :: l) ≠ some .directory ∧ v = w.put (f :: l) (.file bytes)) := by
  unfold replaceFile at h
  rw [lastStep?_join, PathName.isClosed_join] at h
  cases hr : (p.join f.raw).refusal? with
  | some e =>
    rw [hr] at h
    cases e <;> cases h <;> exact .inl ⟨rfl, _, rfl⟩
  | none =>
    cases hl : w.directoryAt p.way with
    | error e =>
      rw [hr, hl] at h
      cases e <;> cases h <;> exact .inl ⟨rfl, _, rfl⟩
    | ok l =>
      simp only [hr, hl, Except.map, Bool.false_eq_true, if_false] at h
      split at h
      · cases h; exact .inl ⟨rfl, _, rfl⟩
      · split at h
        · cases h; exact .inl ⟨rfl, _, rfl⟩
        · next hn => cases h; exact .inr ⟨rfl, l, rfl, hn, rfl⟩

/-- The file `f` is put in place of what stands in a directory, unless that is a directory. -/
theorem replaceFile_of_directoryAt {bytes : ByteArray} (ha : (p.join f.raw).refusal? = none)
    (hl : w.directoryAt p.way = .ok l) :
    w.replaceFile (p.join f.raw) bytes =
      if f.isTooLong then (w, .error .nameTooLong)
      else if w.tree.find? (f :: l) = some .directory then (w, .error .isDirectory)
      else (w.put (f :: l) (.file bytes), .ok ()) := by
  unfold replaceFile
  rw [lastStep?_join, PathName.isClosed_join, ha, hl]
  simp only [Except.map, Bool.false_eq_true, if_false]
  split
  · rfl
  · split
    · next h => rw [if_pos h]
    · next h => rw [if_neg h]

theorem removeFile_join {r : Except FileError Unit}
    (h : w.removeFile (p.join f.raw) = (v, r)) :
    (v = w ∧ ∃ e, r = .error e) ∨
      (r = .ok () ∧ ∃ l e, w.directoryAt p.way = .ok l ∧
        w.tree.find? (f :: l) = some e ∧ e ≠ .directory ∧ v = w.drop (f :: l)) := by
  unfold removeFile at h
  rw [lastStep?_join, PathName.isClosed_join] at h
  cases hr : (p.join f.raw).refusal? with
  | some e => rw [hr] at h; cases h; exact .inl ⟨rfl, _, rfl⟩
  | none =>
    cases hl : w.directoryAt p.way with
    | error e => rw [hr, hl] at h; cases h; exact .inl ⟨rfl, _, rfl⟩
    | ok l =>
      simp only [hr, hl, Except.map, Bool.false_eq_true, if_false] at h
      cases he : w.tree.find? (f :: l) with
      | none => rw [he] at h; cases h; exact .inl ⟨rfl, _, rfl⟩
      | some e =>
        rw [he] at h
        cases e with
        | directory => cases h; exact .inl ⟨rfl, _, rfl⟩
        | file bytes => cases h; exact .inr ⟨rfl, l, _, rfl, he, by simp, rfl⟩
        | link target => cases h; exact .inr ⟨rfl, l, _, rfl, he, by simp, rfl⟩

/-! ## Reading -/

/-- A file with a text stands directly in the directory that a path leads to. -/
structure Stands (w : Workspace) (p : PathName) (f : FileName) (text : String) : Prop where
  accepted : (p.join f.raw).refusal? = none
  entry : ∃ l bytes decoded, w.directoryAt p.way = .ok l ∧
    w.tree.find? (f :: l) = some (.file bytes) ∧ String.fromUTF8? bytes = some decoded ∧
    Text.normalized decoded = text

theorem resolve_join (h : (p.join f.raw).refusal? = none) :
    w.resolve (p.join f.raw) = w.follow (p.way ++ [.child f]) := by
  rw [resolve, h, PathName.moves_join]

theorem readText_of_refusal {q : PathName} {e : FileError} (h : q.refusal? = some e) :
    w.readText q = .error e := by
  simp only [readText, resolve, h, bind, Except.bind]

theorem accepted_of_readNormalized? {existing : Option String}
    (h : w.readNormalized? (p.join f.raw) = .ok existing) : (p.join f.raw).refusal? = none := by
  cases hr : (p.join f.raw).refusal? with
  | none => rfl
  | some e =>
    rw [Workspace.readNormalized?, readText_of_refusal hr] at h
    cases e with
    | notFound => exact absurd hr (PathName.refusal?_join_ne p f)
    | _ => cases h

/-- What is read at `q` is the text of the file that it leads to, normalized. -/
theorem readNormalized?_eq_some_iff {q : PathName} {text : String} :
    w.readNormalized? q = .ok (some text) ↔
      ∃ l bytes decoded, w.resolve q = .ok l ∧ w.tree.find? l = some (.file bytes) ∧
        String.fromUTF8? bytes = some decoded ∧ Text.normalized decoded = text := by
  constructor
  · intro h
    have hread : ∃ decoded, w.readText q = .ok decoded ∧ Text.normalized decoded = text := by
      unfold Workspace.readNormalized? at h
      split at h
      · next decoded hr =>
        cases h
        exact ⟨decoded, hr, rfl⟩
      · cases h
      · cases h
    obtain ⟨decoded, hr, ht⟩ := hread
    unfold readText at hr
    cases hl : w.resolve q with
    | error e =>
      rw [hl] at hr
      cases hr
    | ok l =>
      simp only [hl, textAt, bytesAt, bind, Except.bind] at hr
      cases he : w.tree.find? l with
      | none => simp [he] at hr
      | some e =>
        cases e with
        | directory => simp [he] at hr
        | link target => simp [he] at hr
        | file bytes =>
          cases hb : String.fromUTF8? bytes with
          | none => simp [he, hb] at hr
          | some other =>
            simp only [he, hb, Except.ok.injEq] at hr
            exact ⟨l, bytes, other, rfl, he, hb, hr ▸ ht⟩
  · rintro ⟨l, bytes, decoded, hl, he, hb, rfl⟩
    have hr : w.readText q = .ok decoded := by
      simp [readText, hl, textAt, bytesAt, he, hb, bind, Except.bind]
    rw [Workspace.readNormalized?, hr]

theorem Stands.readNormalized? {text : String} (h : w.Stands p f text) :
    w.readNormalized? (p.join f.raw) = .ok (some text) := by
  obtain ⟨ha, l, bytes, decoded, hl, he, hb, ht⟩ := h
  obtain ⟨k, hk⟩ := exists_follow_append hl
  have hw := walk_child (k := k) (directoryAt_eq_ok_iff.1 hl).2 he (by simp)
  have hr : w.resolve (p.join f.raw) = .ok (f :: l) := by rw [resolve_join ha, hk, hw]
  exact readNormalized?_eq_some_iff.2 ⟨f :: l, bytes, decoded, hr, he, hb, ht⟩

theorem stands_of_readNormalized? {text : String}
    (h : w.readNormalized? (p.join f.raw) = .ok (some text))
    (hn : ∀ l, w.directoryAt p.way = .ok l →
      ∀ target, w.tree.find? (f :: l) ≠ some (.link target)) : w.Stands p f text := by
  obtain ⟨m, bytes, decoded, hm, he, hb, ht⟩ := readNormalized?_eq_some_iff.1 h
  have ha := accepted_of_resolve hm
  rw [resolve_join ha] at hm
  obtain ⟨l, hl⟩ := exists_directoryAt_of_follow hm
  obtain rfl := eq_of_follow hl (hn l hl) hm
  exact ⟨ha, l, bytes, decoded, hl, he, hb, ht⟩

theorem readNormalized?_of_notDirectory (ha : (p.join f.raw).refusal? = none)
    (h : w.follow (p.way ++ [.child f]) = .error .notDirectory) :
    w.readNormalized? (p.join f.raw) = .error .notDirectory := by
  have ht : w.readText (p.join f.raw) = .error .notDirectory := by
    simp [readText, resolve_join ha, h, bind, Except.bind]
  rw [Workspace.readNormalized?, ht]

/-- Where no path leads through the directory, nothing is read and nothing is taken for missing. -/
theorem readNormalized?_of_stopped
    (h : w.follow (p.way ++ [.child f]) = .error .notDirectory) :
    ∃ e, w.readNormalized? (p.join f.raw) = .error e := by
  cases hr : (p.join f.raw).refusal? with
  | none => exact ⟨_, readNormalized?_of_notDirectory hr h⟩
  | some e =>
    rw [Workspace.readNormalized?, readText_of_refusal hr]
    cases e with
    | notFound => exact absurd hr (PathName.refusal?_join_ne p f)
    | _ => exact ⟨_, rfl⟩

end Workspace

end AgentDocs.Files
