import AgentDocs.Proofs.Files.Directory

/-!
# Workspaces with the same entries

Two workspaces that hold the same entries, in whatever order their directories list them. No path
tells them apart, and no edit does.

* `Same.follow`, `Same.resolve`, `Same.directoryAt`: what paths lead to.
* `Same.readText`, `Same.readNormalized?`: what is read at paths.
* `Same.removeFile`, `Same.write`: the removal and the writing of a file.
-/

namespace AgentDocs.Files

namespace Workspace

/-- Two workspaces begin at one location, hold the same entries and let the same directories be
listed. -/
structure Same (w v : Workspace) : Prop where
  start : v.start = w.start
  sealed : v.sealed = w.sealed
  entries : ∀ l, v.tree.find? l = w.tree.find? l

variable {w v : Workspace} {p : PathName}

theorem Same.symm (h : Same w v) : Same v w := 
  ⟨h.start.symm, h.sealed.symm, fun l => (h.entries l).symm⟩

theorem Same.trans {u : Workspace} (h : Same w v) (h' : Same v u) : Same w u :=
  ⟨h'.start.trans h.start, h'.sealed.trans h.sealed, fun l => (h'.entries l).trans (h.entries l)⟩

theorem Same.isDirectoryEntry (h : Same w v) (l : Location) :
    v.tree.isDirectory l = w.tree.isDirectory l := by
  rw [FileTree.isDirectory, FileTree.isDirectory, h.entries l]

theorem Same.outline (h : Same w v) : v.tree.SameOutline w.tree := by
  intro l
  rw [FileTree.outline?, FileTree.outline?, h.entries l]

/-! ## Queries -/

theorem Same.follow (h : Same w v) (steps : List Step) : v.follow steps = w.follow steps := by
  rw [Workspace.follow, Workspace.follow, h.start, FileTree.walk_congr h.outline]

theorem Same.resolve (h : Same w v) (p : PathName) : v.resolve p = w.resolve p := by
  rw [Workspace.resolve, Workspace.resolve]
  cases p.refusal? with
  | some e => rfl
  | none => exact h.follow p.moves

theorem Same.isDirectory (h : Same w v) (p : PathName) : v.isDirectory p = w.isDirectory p := by
  rw [Workspace.isDirectory, Workspace.isDirectory, entry?, entry?, h.resolve]
  cases w.resolve p with
  | error e => rfl
  | ok l => simp only [h.entries l]

theorem Same.openDirectory (h : Same w v) (p : PathName) :
    v.openDirectory p = w.openDirectory p := by
  simp only [Workspace.openDirectory, h.resolve, h.isDirectoryEntry, h.sealed]

theorem Same.isFile (h : Same w v) (p : PathName) : v.isFile p = w.isFile p := by
  rw [Workspace.isFile, Workspace.isFile, entry?, entry?, h.resolve]
  cases w.resolve p with
  | error e => rfl
  | ok l => simp only [h.entries l]

theorem Same.textAt (h : Same w v) (l : Location) : v.textAt l = w.textAt l := by
  simp only [Workspace.textAt, bytesAt, h.entries l]

theorem Same.readText (h : Same w v) (p : PathName) : v.readText p = w.readText p := by
  rw [Workspace.readText, Workspace.readText, h.resolve]
  cases w.resolve p with
  | error e => rfl
  | ok l => exact h.textAt l

theorem Same.readNormalized? (h : Same w v) (p : PathName) :
    v.readNormalized? p = w.readNormalized? p := by
  rw [Workspace.readNormalized?, Workspace.readNormalized?, h.readText]

theorem Same.directoryAt (h : Same w v) (steps : List Step) :
    v.directoryAt steps = w.directoryAt steps := by
  simp only [Workspace.directoryAt, h.follow, h.isDirectoryEntry]

theorem Same.lastStep? (h : Same w v) (p : PathName) : v.lastStep? p = w.lastStep? p := by
  rw [Workspace.lastStep?, Workspace.lastStep?]
  cases p.refusal? with
  | some e => rfl
  | none =>
    cases p.movesBack with
    | nil => rfl
    | cons last before => simp only [h.directoryAt]

/-! ## Removals -/

theorem Same.drop (h : Same w v) {l : Location} (hl : l ≠ []) : Same (w.drop l) (v.drop l) := by
  refine ⟨h.start, h.sealed, fun m => ?_⟩
  by_cases hm : m = l
  · subst hm
    exact (FileTree.find?_erase_self hl).trans (FileTree.find?_erase_self hl).symm
  · exact ((FileTree.find?_erase_of_ne hm).trans (h.entries m)).trans
      (FileTree.find?_erase_of_ne hm).symm

theorem Same.removeFile (h : Same w v) (p : PathName) :
    Same (w.removeFile p).1 (v.removeFile p).1 ∧ (v.removeFile p).2 = (w.removeFile p).2 := by
  unfold Workspace.removeFile
  rw [h.lastStep? p]
  rcases w.lastStep? p with e | _ | ⟨l, step⟩
  · exact ⟨h, rfl⟩
  · exact ⟨h, rfl⟩
  · cases step with
    | root => exact ⟨h, rfl⟩
    | here => exact ⟨h, rfl⟩
    | up => exact ⟨h, rfl⟩
    | child name =>
      have hdrop : Same (w.drop (name :: l)) (v.drop (name :: l)) := h.drop (by simp)
      simp only [h.entries (name :: l)]
      rcases w.tree.find? (name :: l) with _ | e
      · exact ⟨h, rfl⟩
      · cases e with
        | directory => exact ⟨h, rfl⟩
        | file bytes => cases p.isClosed <;> simp [h, hdrop]
        | link target => cases p.isClosed <;> simp [h, hdrop]

/-! ## Files and directories that are made -/

theorem Same.put (h : Same w v) {l : Location} (hl : l ≠ []) (e : Entry) :
    Same (w.put l e) (v.put l e) := by
  refine ⟨h.start, h.sealed, fun m => ?_⟩
  by_cases hm : m = l
  · subst hm
    exact (FileTree.find?_insert_self hl).trans (FileTree.find?_insert_self hl).symm
  · exact ((FileTree.find?_insert_of_ne hm).trans (h.entries m)).trans
      (FileTree.find?_insert_of_ne hm).symm

/-- Two results that are the same, `a` each with its workspace. -/
theorem exists_of_same {α : Type} {x y : Workspace × α} (h : Same x.1 y.1 ∧ y.2 = x.2) :
    ∃ w v a, x = (w, a) ∧ y = (v, a) ∧ Same w v :=
  ⟨x.1, y.1, x.2, rfl, Prod.ext rfl h.2, h.1⟩

theorem Same.makeDirectory (h : Same w v) (p : PathName) :
    Same (w.makeDirectory p).1 (v.makeDirectory p).1 ∧
      (v.makeDirectory p).2 = (w.makeDirectory p).2 := by
  unfold Workspace.makeDirectory
  rw [h.lastStep? p]
  rcases w.lastStep? p with e | _ | ⟨l, step⟩
  · exact ⟨h, rfl⟩
  · exact ⟨h, rfl⟩
  · cases step with
    | root => exact ⟨h, rfl⟩
    | here => exact ⟨h, rfl⟩
    | up => exact ⟨h, rfl⟩
    | child name =>
      simp only [h.entries (name :: l)]
      cases name.isTooLong with
      | true => exact ⟨h, rfl⟩
      | false =>
        cases w.tree.find? (name :: l) with
        | some e => exact ⟨h, rfl⟩
        | none => exact ⟨h.put (by simp) .directory, rfl⟩

theorem same_orDirectory {x y : Edited} (h : Same x.1 y.1 ∧ y.2 = x.2) (p : PathName) :
    Same (orDirectory p x).1 (orDirectory p y).1 ∧ (orDirectory p y).2 = (orDirectory p x).2 := by
  obtain ⟨w, v, r, rfl, rfl, hs⟩ := exists_of_same h
  cases r with
  | ok u => exact ⟨hs, rfl⟩
  | error e =>
    simp only [orDirectory, hs.isDirectory p]
    cases w.isDirectory p with
    | true => exact ⟨hs, rfl⟩
    | false => exact ⟨hs, rfl⟩

theorem Same.makeDirectories (h : Same w v) (ps : List PathName) :
    Same (w.makeDirectories ps).1 (v.makeDirectories ps).1 ∧
      (v.makeDirectories ps).2 = (w.makeDirectories ps).2 := by
  induction ps generalizing w v with
  | nil => exact ⟨h, rfl⟩
  | cons p outer ih =>
    obtain ⟨w₁, v₁, r, hw, hv, h₁⟩ := exists_of_same (h.makeDirectory p)
    have hor := same_orDirectory (x := (w₁, r)) (y := (v₁, r)) ⟨h₁, rfl⟩ p
    simp only [Workspace.makeDirectories, hw, hv]
    rcases r with e | u
    · cases e with
      | notFound =>
        -- only here are the directories around it made first
        obtain ⟨w₂, v₂, r, hw₂, hv₂, h₂⟩ := exists_of_same (ih h₁)
        simp only [hw₂, hv₂]
        cases r with
        | error e => exact ⟨h₂, rfl⟩
        | ok u => exact same_orDirectory (h₂.makeDirectory p) p
      | _ => exact hor
    · exact hor

theorem Same.replaceFile (h : Same w v) (p : PathName) (bytes : ByteArray) :
    Same (w.replaceFile p bytes).1 (v.replaceFile p bytes).1 ∧
      (v.replaceFile p bytes).2 = (w.replaceFile p bytes).2 := by
  unfold Workspace.replaceFile
  rw [h.lastStep? p]
  rcases w.lastStep? p with e | _ | ⟨l, step⟩
  · cases e <;> exact ⟨h, rfl⟩
  · exact ⟨h, rfl⟩
  · cases step with
    | root => exact ⟨h, rfl⟩
    | here => exact ⟨h, rfl⟩
    | up => exact ⟨h, rfl⟩
    | child name =>
      have hput : Same (w.put (name :: l) (.file bytes)) (v.put (name :: l) (.file bytes)) :=
        h.put (by simp) _
      simp only [h.entries (name :: l)]
      cases name.isTooLong with
      | true => exact ⟨h, rfl⟩
      | false =>
        cases p.isClosed with
        | true => exact ⟨h, rfl⟩
        | false =>
          rcases w.tree.find? (name :: l) with _ | _ | _ | _
          · exact ⟨hput, rfl⟩
          · exact ⟨hput, rfl⟩
          · exact ⟨hput, rfl⟩
          · exact ⟨h, rfl⟩

theorem Same.write (h : Same w v) (p : PathName) (bytes : ByteArray) :
    Same (w.write p bytes).1 (v.write p bytes).1 ∧ (v.write p bytes).2 = (w.write p bytes).2 := by
  obtain ⟨w₁, v₁, r, hw, hv, h₁⟩ := exists_of_same (h.makeDirectories (directoriesOf p))
  simp only [Workspace.write, hw, hv]
  cases r with
  | error e => exact ⟨h₁, rfl⟩
  | ok u => exact h₁.replaceFile p bytes

end Workspace

end AgentDocs.Files
