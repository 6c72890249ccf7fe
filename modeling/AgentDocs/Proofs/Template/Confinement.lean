import AgentDocs.Files.Edit
import AgentDocs.Proofs.Files.Walk
import AgentDocs.Template.Expansion

/-!
# Confinement of inclusions

What stands outside the project root cannot show in an expansion: where two workspaces differ only
in the bytes of files outside the root, every template expands to the same result.

* `locate_congr`: where a target leads is decided by directories, links and names alone.
* `exists_liesBelow_of_locate`: what is read stands below the root.
* `expand_eq_of_agreeWithin`: the two-run statement.
-/

namespace AgentDocs.Template

open AgentDocs.Files AgentDocs.Text

/-- Two workspaces have the same directories, links and file names, and the same bytes in the files
below the location of a root. -/
structure AgreeWithin (root : PathName) (w v : Workspace) : Prop where
  start : w.start = v.start
  outline : w.tree.SameOutline v.tree
  within : ∀ base l bytes, w.resolve root = .ok base → liesBelow l base = true →
    (w.tree.find? l = some (.file bytes) ↔ v.tree.find? l = some (.file bytes))

section
variable {root : PathName} {w v : Workspace}

/-! ## Names and links -/

theorem resolve_congr (hs : w.start = v.start) (ho : w.tree.SameOutline v.tree) (p : PathName) :
    w.resolve p = v.resolve p := by
  unfold Workspace.resolve Workspace.follow
  rw [hs, FileTree.walk_congr ho]

theorem isFile_congr (hs : w.start = v.start) (ho : w.tree.SameOutline v.tree) (p : PathName) :
    w.isFile p = v.isFile p := by
  unfold Workspace.isFile Workspace.entry?
  rw [resolve_congr hs ho]
  cases v.resolve p with
  | error e => rfl
  | ok l => rcases ho.find? l with h | ⟨a, b, ha, hb⟩ <;> simp [*]

theorem locate_congr (hs : w.start = v.start) (ho : w.tree.SameOutline v.tree) (root : PathName)
    (requested : List Char) : locate w root requested = locate v root requested := by
  unfold locate
  simp only [isFile_congr hs ho, resolve_congr hs ho]

/-- A target that `locate` finds has a location below that of the root. -/
theorem exists_liesBelow_of_locate {requested : List Char} {l : Location}
    (h : locate w root requested = .ok l) :
    ∃ base, w.resolve root = .ok base ∧ liesBelow l base = true := by
  simp only [locate] at h
  split at h
  · cases h
  split at h
  · cases h
  split at h
  · cases h
  split at h
  · cases h
  · cases h
  · next base l' hb _ =>
    split at h
    · next hl => cases h; exact ⟨base, hb, hl⟩
    · cases h

/-! ## Bytes -/

theorem AgreeWithin.textAt (h : AgreeWithin root w v) {base l : Location}
    (hb : w.resolve root = .ok base) (hl : liesBelow l base = true) : w.textAt l = v.textAt l := by
  have hf : w.tree.find? l = v.tree.find? l := by
    rcases h.outline.find? l with he | ⟨a, b, ha, hb'⟩
    · exact he
    · rw [ha, ((h.within base l a hb hl).1 ha)]
  simp only [Workspace.textAt, Workspace.bytesAt, hf]

theorem AgreeWithin.included (h : AgreeWithin root w v)
    (expand : List Char → List Char → Except Error (List Char)) :
    included w root expand = included v root expand := by
  funext target
  simp only [Template.included, ← locate_congr h.start h.outline]
  cases hl : locate w root (trim target) with
  | error e => rfl
  | ok l =>
    obtain ⟨base, hb, hbelow⟩ := exists_liesBelow_of_locate hl
    simp only [h.textAt hb hbelow]

theorem AgreeWithin.expandAt (h : AgreeWithin root w v) (limit levels : Nat) :
    expandAt w root limit levels = expandAt v root limit levels := by
  induction levels with
  | zero => rfl
  | succ levels ih =>
    funext origin text
    rw [Template.expandAt, Template.expandAt, ih, h.included]

/-- Other bytes `b` in a file outside the root make two workspaces that agree within it. -/
theorem agreeWithin_put {m : Location} {a b : ByteArray} (hm : m ≠ [])
    (ha : w.tree.find? m = some (.file a))
    (hout : ∀ base, w.resolve root = .ok base → liesBelow m base = false) :
    AgreeWithin root w (w.put m (.file b)) where
  start := rfl
  outline l := by
    by_cases hl : l = m
    · subst hl
      simp [FileTree.outline?, Workspace.put, FileTree.find?_insert_self hm, ha]
    · simp [FileTree.outline?, Workspace.put, FileTree.find?_insert_of_ne hl]
  within base l bytes hb hl := by
    have hne : l ≠ m := by
      rintro rfl
      rw [hout base hb] at hl
      cases hl
    simp [Workspace.put, FileTree.find?_insert_of_ne hne]

end

/-- No bytes of a file outside the root change the expansion of a template. -/
theorem expand_eq_of_agreeWithin {root : PathName} {w v : Workspace} (h : AgreeWithin root w v)
    (limit : Nat) (text : List Char) : expand w root limit text = expand v root limit text := by
  rw [expand, expand, h.expandAt]

/-- The directory `p` holds a link to the file `s` that stands beside it. -/
def linkedOut : Workspace where
  tree := ((FileTree.empty.insert [⟨"p", by decide⟩] .directory).insert
    [⟨"l", by decide⟩, ⟨"p", by decide⟩] (.link "../s")).insert [⟨"s", by decide⟩]
      (.file "secret".toUTF8)
  start := []
  sealed := []

theorem expand_linkedOut_eq :
    AgreeWithin ⟨"p"⟩ linkedOut (linkedOut.put [⟨"s", by decide⟩] (.file "other".toUTF8)) ∧
      expand linkedOut ⟨"p"⟩ 3 (opener ++ ['l'] ++ closer) =
        expand (linkedOut.put [⟨"s", by decide⟩] (.file "other".toUTF8)) ⟨"p"⟩ 3
          (opener ++ ['l'] ++ closer) := by
  have hb : linkedOut.resolve ⟨"p"⟩ = .ok [⟨"p", by decide⟩] := by decide
  have ha : AgreeWithin ⟨"p"⟩ linkedOut
      (linkedOut.put [⟨"s", by decide⟩] (.file "other".toUTF8)) := by
    refine agreeWithin_put (a := "secret".toUTF8) (by decide) (by decide) fun base h => ?_
    cases hb.symm.trans h
    decide
  exact ⟨ha, expand_eq_of_agreeWithin ha 3 _⟩

end AgentDocs.Template
