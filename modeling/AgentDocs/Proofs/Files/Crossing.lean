import AgentDocs.Proofs.Files.Grow

/-!
# Paths that cross their own place

A file is put in place of whatever link stands there, and the way to the directory of the file may
follow that very link. Whether it does is seen before anything is put there, by what the way looks
at, and it alone decides whether the way leads to the directory afterwards.

* `FileTree.mem_visited_congr`: what stands at a location does not decide whether a walk comes by.
* `directoryAt_put`: the way past a file that it does not come by.
* `follow_put_of_visits`: the way that ends at the file.
* `CrossesItself`: the paths of files whose ways come by their own places.
* `not_crossesItself_of_resolve`: no path that leads to a file is one of them.
-/

namespace AgentDocs.Files

namespace FileTree

variable {t u : FileTree} {m : Location}

theorem mem_visitedWith_congr (h : ∀ k, k ≠ m → u.find? k = t.find? k)
    {follow go : Location → List Step → List Location}
    (hf : ∀ here steps, m ∈ go here steps ↔ m ∈ follow here steps) (here : Location)
    (steps : List Step) :
    m ∈ u.visitedWith go here steps ↔ m ∈ t.visitedWith follow here steps := by
  induction steps generalizing here with
  | nil => exact .rfl
  | cons step rest ih =>
    cases step with
    | root => exact ih []
    | here => exact ih here
    | up => exact ih here.tail
    | child name =>
      simp only [visitedWith, List.mem_cons]
      by_cases hm : m = name :: here
      · exact iff_of_true (.inl hm) (.inl hm)
      · -- up to the first time that they come by, both walks see the same entries
        rw [h _ (Ne.symm hm)]
        refine or_congr_right ?_
        split
        · exact hf here _
        · exact ih (name :: here)

/-- Trees that differ only at `m` come by it along the same steps. -/
theorem mem_visited_congr (h : ∀ k, k ≠ m → u.find? k = t.find? k) (n : Nat) (here : Location)
    (steps : List Step) : m ∈ u.visited n here steps ↔ m ∈ t.visited n here steps := by
  induction n generalizing here steps with
  | zero => exact mem_visitedWith_congr h (fun _ _ => .rfl) here steps
  | succ n ih => exact mem_visitedWith_congr h ih here steps

end FileTree

namespace Workspace

/-- The locations that some steps look at. -/
def visits (w : Workspace) (steps : List Step) : List Location :=
  w.tree.visited linkLimit w.start steps

section
variable {w : Workspace} {q : PathName} {f : FileName} {l : Location} {bytes : ByteArray}

theorem find?_put_of_ne {e : Entry} {m : Location} (hm : m ≠ l) :
    (w.put l e).tree.find? m = w.tree.find? m :=
  FileTree.find?_insert_of_ne hm

theorem find?_put_child {e : Entry} : (w.put (f :: l) e).tree.find? (f :: l) = some e :=
  FileTree.find?_insert_self (by simp)

theorem isDirectory_put (hn : w.tree.find? (f :: l) ≠ some .directory) {m : Location}
    (hm : w.tree.isDirectory m = true) :
    (w.put (f :: l) (.file bytes)).tree.isDirectory m = true := by
  have hne : m ≠ f :: l := by
    rintro rfl
    exact hn (by simpa [FileTree.isDirectory] using hm)
  rwa [FileTree.isDirectory, find?_put_of_ne hne]

theorem directoryAt_put (hl : w.directoryAt q.way = .ok l)
    (hn : w.tree.find? (f :: l) ≠ some .directory) (hv : f :: l ∉ w.visits q.way) :
    (w.put (f :: l) (.file bytes)).directoryAt q.way = .ok l := by
  obtain ⟨hf, hd⟩ := directoryAt_eq_ok_iff.1 hl
  refine directoryAt_eq_ok_iff.2 ⟨?_, isDirectory_put hn hd⟩
  refine ((FileTree.leads_of_walk hf).walk_of_kept (fun m => isDirectory_put hn) ?_).walk
  intro m hm
  exact find?_put_of_ne fun he => hv (he ▸ hm)

/-- What the way of `q` looks at in its own directory is a link: it leads to a directory. -/
theorem exists_link_of_visits (hl : w.directoryAt q.way = .ok l)
    (hn : w.tree.find? (f :: l) ≠ some .directory) (hv : f :: l ∈ w.visits q.way) :
    ∃ target, w.tree.find? (f :: l) = some (.link target) := by
  obtain ⟨hf, hd⟩ := directoryAt_eq_ok_iff.1 hl
  have hleads := FileTree.leads_of_walk hf
  obtain ⟨e, he⟩ := Option.isSome_iff_exists.1 (hleads.isSome_of_mem_visited _ hv)
  cases e with
  | link target => exact ⟨target, he⟩
  | directory => exact absurd he hn
  | file bytes =>
    obtain ⟨k, d, hk, hd'⟩ := hleads.exists_directory_of_mem_visited hd q.root_notMem_tail_way hv
    cases hk.walk.symm.trans (walk_child hd he (by simp))
    simp [FileTree.isDirectory, he] at hd'

/-- Putting a file where the way of `q` comes by ends the way there. -/
theorem follow_put_of_visits (hl : w.directoryAt q.way = .ok l)
    (hn : w.tree.find? (f :: l) ≠ some .directory) (hv : f :: l ∈ w.visits q.way)
    {more : List Step} (hroot : .root ∉ more) (hmore : more ≠ []) :
    (w.put (f :: l) (.file bytes)).follow (q.way ++ more) = .error .notDirectory := by
  obtain ⟨hf, hd⟩ := directoryAt_eq_ok_iff.1 hl
  obtain ⟨target, htarget⟩ := exists_link_of_visits hl hn hv
  have hu : ∀ m e, w.tree.find? m = some e → (∀ b, e ≠ .file b) →
      (w.put (f :: l) (.file bytes)).tree.find? m = some e ∨ (∃ target, e = .link target) ∧
        ∃ b, (w.put (f :: l) (.file bytes)).tree.find? m = some (.file b) := by
    intro m e he _
    by_cases hm : m = f :: l
    · subst hm
      rw [htarget] at he
      cases he
      exact .inr ⟨⟨target, rfl⟩, bytes, find?_put_child⟩
    · exact .inl ((find?_put_of_ne hm).trans he)
  rcases (FileTree.leads_of_walk hf).append_or_stopped hd q.root_notMem_tail_way hu with
    ⟨k, hk⟩ | ⟨-, hs⟩
  · -- the way would come by the file and go on to a directory
    exfalso
    have hwalk := hk []
    rw [List.append_nil, FileTree.Leads.done.walk] at hwalk
    have hcome : f :: l ∈ (w.put (f :: l) (.file bytes)).tree.visited linkLimit w.start q.way :=
      (FileTree.mem_visited_congr (fun m hm => find?_put_of_ne hm) _ _ _).2 hv
    have hd' : (w.put (f :: l) (.file bytes)).tree.isDirectory l = true := isDirectory_put hn hd
    obtain ⟨k, d, hk, hdir⟩ := (FileTree.leads_of_walk hwalk).exists_directory_of_mem_visited hd'
      q.root_notMem_tail_way hcome
    cases hk.walk.symm.trans (walk_child hd' find?_put_child (by simp))
    simp [FileTree.isDirectory, find?_put_child] at hdir
  · exact hs more hroot hmore

end

/-! ## Paths of files -/

/-- With the missing directories made, a link stands at the end of the path of a file, and the way
to the directory of the file comes by this link. -/
def CrossesItself (w : Workspace) (p : PathName) : Prop :=
  ∃ v l f target, (w.makeDirectories (directoriesOf p)).1 = v ∧
    v.lastStep? p = .ok (some (l, .child f)) ∧ v.tree.find? (f :: l) = some (.link target) ∧
    f :: l ∈ v.visits p.moves.dropLast

section
variable {w : Workspace} {q : PathName} {f : FileName} {l : Location} {bytes : ByteArray}

/-- A path crosses itself where the way to the directory of its file comes by the place of the file,
unless a directory stands there. -/
theorem crossesItself_join_iff (ha : (q.join f.raw).refusal? = none)
    (hl : (w.grown q).directoryAt q.way = .ok l)
    (hn : (w.grown q).tree.find? (f :: l) ≠ some .directory) :
    w.CrossesItself (q.join f.raw) ↔ f :: l ∈ (w.grown q).visits q.way := by
  have hlast : (w.grown q).lastStep? (q.join f.raw) = .ok (some (l, .child f)) := by
    rw [lastStep?_join, ha, hl]
    rfl
  have hway : (q.join f.raw).moves.dropLast = q.way := by
    rw [PathName.moves_join, List.dropLast_concat]
  unfold CrossesItself
  rw [PathName.directoriesOf_join, hway]
  constructor
  · rintro ⟨v, l', f', target, rfl, hlast', -, hv⟩
    cases hlast'.symm.trans hlast
    exact hv
  · intro hv
    obtain ⟨target, htarget⟩ := exists_link_of_visits hl hn hv
    exact ⟨_, l, f, target, rfl, hlast, htarget, hv⟩

theorem not_crossesItself_of_resolve (hr : w.resolve (q.join f.raw) = .ok l)
    (he : w.tree.find? l = some (.file bytes)) : ¬ w.CrossesItself (q.join f.raw) := by
  intro hc
  have ha := accepted_of_resolve hr
  rw [resolve_join ha] at hr
  obtain ⟨dir, hdir⟩ := exists_directoryAt_of_follow hr
  have hgrown := grown_eq_self (PathName.passable_of_join ha) hdir
  obtain ⟨v, m, g, target, hv, hlast, htarget, hvisits⟩ := hc
  rw [PathName.directoriesOf_join] at hv
  obtain rfl : w = v := hgrown.symm.trans hv
  rw [PathName.moves_join, List.dropLast_concat] at hvisits
  rw [lastStep?_join, ha, hdir] at hlast
  cases hlast
  obtain ⟨hf, hd⟩ := directoryAt_eq_ok_iff.1 hdir
  obtain ⟨k, d, hk, hd'⟩ := (FileTree.leads_of_walk hf).exists_directory_of_mem_visited hd
    q.root_notMem_tail_way hvisits
  obtain ⟨n, hn⟩ := exists_follow_append hdir
  rw [hn] at hr
  rcases hk.walk_eq_or n with hw | hw
  · cases hw.symm.trans hr
    simp [FileTree.isDirectory, he] at hd'
  · rw [hw] at hr
    cases hr

end

end Workspace

end AgentDocs.Files
