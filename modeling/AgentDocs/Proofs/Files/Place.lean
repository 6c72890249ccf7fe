import AgentDocs.Proofs.Files.Crossing

/-!
# Places of files

Where a file stands or can be put, for a path whose directories may be missing and whose last step
may be a link. A path with a place leads to a file or is not found, and putting a file there never
closes the way to it.

* `HasPlace`: a file stands at the end of a path or can be put there.
* `HasPlace.resolve`: what a path with a place leads to before anything is made for it.
* `HasPlace.write`: a file is written there, and read from there.
-/

namespace AgentDocs.Files

open PathName

/-- The text of some bytes with its line breaks normalized, if they are a text. -/
def normalizedText? (bytes : ByteArray) : Option String :=
  (String.fromUTF8? bytes).map Text.normalized

namespace Workspace

/-! ## Places of files -/

/-- The bytes of the file that a path leads to. -/
def contents? (w : Workspace) (p : PathName) : Option ByteArray :=
  match w.entry? p with
  | some (.file bytes) => some bytes
  | _ => none

/-- A file stands at the end of a path or can be put there: the directories on the way are there or
can be made, its name is not too long, and with the directories the path leads to a file or is not
found. -/
def HasPlace (w : Workspace) (p : PathName) : Prop :=
  ∃ v l f, w.makeDirectories (directoriesOf p) = (v, .ok ()) ∧
    v.lastStep? p = .ok (some (l, .child f)) ∧ f.isTooLong = false ∧
    (v.resolve p = .error .notFound ∨ v.isFile p = true)

section
variable {w v : Workspace} {p q : PathName} {f : FileName} {l : Location} {bytes : ByteArray}

theorem contents?_eq_some_iff :
    w.contents? p = some bytes ↔
      ∃ l, w.resolve p = .ok l ∧ w.tree.find? l = some (.file bytes) := by
  constructor
  · intro h
    unfold contents? at h
    split at h
    · next he =>
      cases h
      exact resolve_isSome_of_entry? he
    · cases h
  · rintro ⟨l, hl, he⟩
    simp [contents?, entry?, hl, he]

theorem isFile_iff_contents? : w.isFile p = true ↔ ∃ bytes, w.contents? p = some bytes := by
  unfold isFile contents?
  cases w.entry? p with
  | none => simp
  | some e => cases e <;> simp

/-! ## What is read -/

theorem readText_of_contents? (h : w.contents? p = some bytes) :
    w.readText p =
      match String.fromUTF8? bytes with
      | some text => .ok text
      | none => .error .invalidEncoding := by
  obtain ⟨l, hl, he⟩ := contents?_eq_some_iff.1 h
  cases hb : String.fromUTF8? bytes <;>
    simp only [readText, textAt, bytesAt, hl, he, hb, bind, Except.bind]

theorem readNormalized?_of_notFound (h : w.resolve p = .error .notFound) :
    w.readNormalized? p = .ok none := by
  simp [Workspace.readNormalized?, readText, h, bind, Except.bind]

theorem readNormalized?_of_contents? (h : w.contents? p = some bytes) :
    w.readNormalized? p =
      match normalizedText? bytes with
      | some text => .ok (some text)
      | none => .error .invalidEncoding := by
  rw [Workspace.readNormalized?, readText_of_contents? h, normalizedText?]
  cases String.fromUTF8? bytes <;> rfl

/-! ## Ways to files -/

/-- A file can be put at the end of a path: with the directory of the file it is not found, or it
leads to a file. -/
structure IsOpen (w : Workspace) (q : PathName) (f : FileName) (l : Location) : Prop where
  accepted : (q.join f.raw).refusal? = none
  short : f.isTooLong = false
  directory : w.directoryAt q.way = .ok l
  leads : w.resolve (q.join f.raw) = .error .notFound ∨ w.isFile (q.join f.raw) = true

/-- A place for the file `f` is one in a directory, once the missing directories are made. -/
theorem HasPlace.isOpen (h : w.HasPlace (q.join f.raw)) : ∃ l, (w.grown q).IsOpen q f l := by
  obtain ⟨v, l, f', hm, hl, hf, hv⟩ := h
  rw [directoriesOf_join] at hm
  obtain rfl : w.grown q = v := by rw [grown, hm]
  rw [lastStep?_join] at hl
  cases hr : (q.join f.raw).refusal? with
  | some e =>
    rw [hr] at hl
    cases hl
  | none =>
    rw [hr] at hl
    cases hd : (w.grown q).directoryAt q.way with
    | error e =>
      rw [hd] at hl
      cases hl
    | ok l' =>
      rw [hd] at hl
      cases hl
      exact ⟨l, hr, hf, hd, hv⟩

theorem hasPlace_of_makeDirectories (hm : (w.makeDirectories (directoriesOf p)).2 = .ok ())
    (hl : (w.makeDirectories (directoriesOf p)).1.lastStep? p = .ok (some (l, .child f)))
    (hf : f.isTooLong = false)
    (hv : (w.makeDirectories (directoriesOf p)).1.resolve p = .error .notFound ∨
      (w.makeDirectories (directoriesOf p)).1.isFile p = true) : w.HasPlace p :=
  ⟨_, l, f, Prod.ext rfl hm, hl, hf, hv⟩

theorem HasPlace.resolve (h : w.HasPlace (q.join f.raw)) :
    w.resolve (q.join f.raw) = .error .notFound ∨ w.isFile (q.join f.raw) = true := by
  obtain ⟨l, hopen⟩ := h.isOpen
  have hp := passable_of_join hopen.accepted
  rcases follow_of_makeDirectories (w := w) (proper_inside q) hp (by rw [prefixesOf_inside]; rfl)
    ⟨l, hopen.directory⟩ with ⟨l', hl'⟩ | hn
  · have hleads := hopen.leads
    rwa [grown_eq_self hp hl'] at hleads
  · refine .inl ?_
    rw [resolve_join hopen.accepted]
    exact FileTree.walk_append_error hn

/-- The last step of such a path leads to no directory, however many links may be followed. -/
theorem IsOpen.not_isDirectory (h : w.IsOpen q f l) {k : Nat} {d : Location}
    (hk : w.tree.Leads k l [.child f] d) : w.tree.isDirectory d = false := by
  obtain ⟨n, hn⟩ := exists_follow_append h.directory
  have hres : w.resolve (q.join f.raw) = .ok d ∨
      w.resolve (q.join f.raw) = .error .tooManyLinks := by
    rw [resolve_join h.accepted, hn]
    exact hk.walk_eq_or n
  rcases hres with hd | hmany
  · rcases h.leads with hnone | hfile
    · rw [hd] at hnone
      cases hnone
    · obtain ⟨bytes, hb⟩ := isFile_iff_contents?.1 hfile
      obtain ⟨m, hm, he⟩ := contents?_eq_some_iff.1 hb
      rw [hd] at hm
      cases hm
      simp [FileTree.isDirectory, he]
  · rcases h.leads with hnone | hfile
    · rw [hmany] at hnone
      cases hnone
    · simp [isFile, entry?, hmany] at hfile

theorem IsOpen.ne_directory (h : w.IsOpen q f l) :
    w.tree.find? (f :: l) ≠ some .directory := by
  intro he
  have hd := (directoryAt_eq_ok_iff.1 h.directory).2
  have hleads : w.tree.Leads 0 l [.child f] (f :: l) := .into hd he (by simp) .done
  have := h.not_isDirectory hleads
  simp [FileTree.isDirectory, he] at this

/-- The way of `q` does not come by the place: it would come by a directory there. -/
theorem IsOpen.notMem_visits (h : w.IsOpen q f l) : f :: l ∉ w.visits q.way := by
  intro hm
  obtain ⟨hl, hd⟩ := directoryAt_eq_ok_iff.1 h.directory
  obtain ⟨k, d, hk, hd'⟩ := (FileTree.leads_of_walk hl).exists_directory_of_mem_visited hd
    q.root_notMem_tail_way hm
  rw [h.not_isDirectory hk] at hd'
  cases hd'

theorem IsOpen.contents?_put (h : w.IsOpen q f l) :
    (w.put (f :: l) (.file bytes)).contents? (q.join f.raw) = some bytes := by
  have hl : (w.put (f :: l) (.file bytes)).directoryAt q.way = .ok l :=
    directoryAt_put h.directory h.ne_directory h.notMem_visits
  obtain ⟨k, hk⟩ := exists_follow_append hl
  have hw := walk_child (k := k) (directoryAt_eq_ok_iff.1 hl).2
    (find?_put_child (e := .file bytes)) (by simp)
  refine contents?_eq_some_iff.2 ⟨f :: l, ?_, find?_put_child⟩
  rw [resolve_join h.accepted, hk, hw]

/-- Where there is a place for a file its `bytes` are written, and found there afterwards. -/
theorem HasPlace.write (h : w.HasPlace (q.join f.raw)) (bytes : ByteArray) :
    ∃ v, w.write (q.join f.raw) bytes = (v, .ok ()) ∧
      v.contents? (q.join f.raw) = some bytes := by
  obtain ⟨l, hopen⟩ := h.isOpen
  refine ⟨_, ?_, hopen.contents?_put⟩
  rw [write_grown_of_directoryAt hopen.accepted hopen.directory,
    write_of_directoryAt hopen.accepted hopen.directory,
    replaceFile_of_directoryAt hopen.accepted hopen.directory, hopen.short,
    if_neg hopen.ne_directory]
  rfl

end

end Workspace

end AgentDocs.Files
