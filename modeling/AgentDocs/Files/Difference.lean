import AgentDocs.Files.FileTree

/-!
# Differences of trees

What has to be done to one tree so that it holds what another holds.

* `FileTree.difference_self`: a tree does not differ from itself.
-/

namespace AgentDocs.Files

/-- A change at a location. -/
inductive Change where
  | removed (location : Location)
  | placed (location : Location) (entry : Entry)
  deriving DecidableEq

namespace FileTree

/-- The locations of a tree at which another one holds nothing. -/
def removals (before after : FileTree) : List Change :=
  (before.entries.filter fun x => (after.find? x.1).isNone).map fun x => .removed x.1

/-- The entries of a tree that another one does not hold. -/
def placements (before after : FileTree) : List Change :=
  (after.entries.filter fun x => before.find? x.1 ≠ some x.2).map fun x => .placed x.1 x.2

/-- The changes that lead from one tree to another. -/
def difference (before after : FileTree) : List Change :=
  before.removals after ++ before.placements after

/-- An entry of `t` away from the root is found at its location `l`. -/
theorem find?_of_mem {t : FileTree} {l : Location} {e : Entry} (hl : l ≠ [])
    (h : (l, e) ∈ t.entries) : t.find? l = some e := by
  simp only [find?, hl, if_false]
  have hn := t.nodup
  revert h hn
  induction t.entries with
  | nil => simp
  | cons x rest ih =>
    intro h hn
    rw [List.map_cons, List.nodup_cons] at hn
    rcases List.mem_cons.1 h with rfl | h
    · simp
    · have hx : (l == x.1) = false := by
        rw [beq_eq_false_iff_ne]
        exact fun he => hn.1 (he ▸ List.mem_map_of_mem (f := Prod.fst) h)
      rw [List.lookup_cons, hx]
      exact ih h hn.2

theorem difference_self {t : FileTree} (h : ∀ x ∈ t.entries, x.1 ≠ []) : t.difference t = [] := by
  have hf : ∀ x ∈ t.entries, t.find? x.1 = some x.2 := fun x hx => find?_of_mem (h x hx) hx
  simp only [difference, removals, placements, List.append_eq_nil_iff, List.map_eq_nil_iff,
    List.filter_eq_nil_iff]
  exact ⟨fun x hx => by simp [hf x hx], fun x hx => by simp [hf x hx]⟩

end FileTree

end AgentDocs.Files
