import Mathlib.Data.List.Dedup
import AgentDocs.Files.Difference
import AgentDocs.Proofs.Files.Same

/-!
# Directory listings

A directory lists each of its entries once, in an order that no path shows. Two workspaces that hold
the same entries may list them in different orders.

* `FileTree.mem_children_iff`, `FileTree.nodup_children`: what a directory lists.
* `mem_list_iff`, `lists_of_resolve_join`: the names that the directory at a path lists.
* `Same.perm_children`, `Same.list`: the listings of workspaces that hold the same entries.
* `FileTree.relisted`, `FileTree.children_relisted`: every order of listing is that of a tree.
* `same_relisted`: it holds the same entries.
-/

namespace AgentDocs.Files

namespace FileTree

variable {t : FileTree} {l dir : Location} {e : Entry} {f : FileName}

theorem mem_entries_iff (hl : l ≠ []) : (l, e) ∈ t.entries ↔ t.find? l = some e := by
  refine ⟨find?_of_mem hl, fun h => ?_⟩
  simp only [find?, hl, if_false] at h
  obtain ⟨before, after, he, -⟩ := List.lookup_eq_some_iff.1 h
  rw [he]
  exact List.mem_append_cons_self

/-- The directory `dir` lists what stands in it. -/
theorem mem_children_iff : f ∈ t.children dir ↔ ∃ e, t.find? (f :: dir) = some e := by
  rw [children, List.mem_filterMap]
  constructor
  · rintro ⟨⟨l, e⟩, hl, hf⟩
    rcases l with _ | ⟨name, parent⟩
    · cases hf
    · dsimp only at hf
      split at hf
      · next hp =>
        cases hf
        subst hp
        exact ⟨e, (mem_entries_iff (List.cons_ne_nil _ _)).1 hl⟩
      · cases hf
  · rintro ⟨e, he⟩
    exact ⟨(f :: dir, e), (mem_entries_iff (List.cons_ne_nil _ _)).2 he, by simp⟩

theorem nodup_children (t : FileTree) (dir : Location) : (t.children dir).Nodup := by
  unfold children
  refine List.pairwise_filterMap.2 (List.Pairwise.imp ?_ (List.pairwise_map.1 t.nodup))
  rintro ⟨l, e⟩ ⟨m, e'⟩ hne name hl name' hm heq
  refine hne ?_
  rcases l with _ | ⟨n, parent⟩
  · cases hl
  · rcases m with _ | ⟨n', parent'⟩
    · cases hm
    · dsimp only at hl hm
      split at hl
      · next hp =>
        split at hm
        · next hp' =>
          cases hl
          cases hm
          rw [hp, hp', heq]
        · cases hm
      · cases hl

end FileTree

namespace Workspace

variable {w v : Workspace} {p : PathName}

theorem list_eq_ok_iff {names : List FileName} :
    w.list p = .ok names ↔
      ∃ dir, w.openDirectory p = .ok dir ∧ w.tree.children dir = names := by
  unfold list
  cases w.openDirectory p <;> simp [Except.map]

theorem nodup_list (w : Workspace) {names : List FileName} (h : w.list p = .ok names) :
    names.Nodup := by
  obtain ⟨dir, -, rfl⟩ := list_eq_ok_iff.1 h
  exact w.tree.nodup_children dir

theorem list_of_isDirectory (h : w.isDirectory p = true) :
    w.list p = .error .permissionDenied ∨ ∃ names, w.list p = .ok names := by
  obtain ⟨l, -, -, hl⟩ := openDirectory_of_isDirectory h
  rw [list, hl]
  split
  · exact .inl rfl
  · exact .inr ⟨_, rfl⟩

theorem exists_list (hs : w.sealed = []) (h : w.isDirectory p = true) :
    ∃ names, w.list p = .ok names := by
  obtain ⟨l, -, -, hl⟩ := openDirectory_of_isDirectory h
  simp [list, hl, hs, Except.map]

/-- A path leads to a directory in which something has a name. -/
def Lists (w : Workspace) (p : PathName) (f : FileName) : Prop :=
  ∃ dir, w.resolve p = .ok dir ∧ w.tree.isDirectory dir = true ∧
    ∃ e, w.tree.find? (f :: dir) = some e

theorem mem_list_iff {names : List FileName} {f : FileName} (h : w.list p = .ok names) :
    f ∈ names ↔ w.Lists p f := by
  obtain ⟨dir, hdir, rfl⟩ := list_eq_ok_iff.1 h
  obtain ⟨hr, hd, -⟩ := openDirectory_eq_ok_iff.1 hdir
  rw [FileTree.mem_children_iff]
  constructor
  · exact fun he => ⟨dir, hr, hd, he⟩
  · rintro ⟨dir', hr', -, he⟩
    rw [hr] at hr'
    cases hr'
    exact he

theorem Lists.isDirectory {f : FileName} (h : w.Lists p f) : w.isDirectory p = true := by
  obtain ⟨dir, hdir, hd, -⟩ := h
  simpa [Workspace.isDirectory, entry?, hdir, FileTree.isDirectory] using hd

/-- A path in the directory at `p` leads somewhere only if the directory lists its last name. -/
theorem lists_of_resolve_join {f : FileName} {l : Location} (hp : p.raw.bytes ≠ [])
    (h : w.resolve (p.join f.raw) = .ok l) : w.Lists p f := by
  have ha := accepted_of_resolve h
  rw [resolve_join ha] at h
  obtain ⟨dir, hdir⟩ := exists_directoryAt_of_follow h
  obtain ⟨more, hmore⟩ := p.exists_bytes_join f
  have hd := (directoryAt_eq_ok_iff.1 hdir).2
  refine ⟨dir, resolve_of_directoryAt_way (PathName.refusal?_of_append hmore hp ha) hdir, hd, ?_⟩
  cases he : w.tree.find? (f :: dir) with
  | some e => exact ⟨e, rfl⟩
  | none =>
    obtain ⟨k, hk⟩ := exists_follow_append hdir
    cases (walk_child_of_none (k := k) hd he).symm.trans ((hk _).symm.trans h)

theorem Same.perm_children (h : Same w v) (dir : Location) :
    (v.tree.children dir).Perm (w.tree.children dir) := by
  refine (List.perm_ext_iff_of_nodup (v.tree.nodup_children dir) (w.tree.nodup_children dir)).2
    fun f => ?_
  rw [FileTree.mem_children_iff, FileTree.mem_children_iff, h.entries]

/-- A directory is listed by both workspaces, in one order or another, or by neither. -/
theorem Same.list (h : Same w v) (p : PathName) :
    (∃ e, w.list p = .error e ∧ v.list p = .error e) ∨
      ∃ names names', w.list p = .ok names ∧ v.list p = .ok names' ∧ names'.Perm names := by
  unfold Workspace.list
  rw [h.openDirectory]
  cases w.openDirectory p with
  | error e => exact .inl ⟨e, rfl, rfl⟩
  | ok l => exact .inr ⟨_, _, rfl, rfl, h.perm_children l⟩

end Workspace

/-! ## Listings in another order -/

/-- An order in which the directories of a tree may list their entries. -/
structure FileTree.Listing (t : FileTree) where
  order : Location → List FileName
  perm : ∀ dir, (order dir).Perm (t.children dir)

namespace FileTree

variable {t : FileTree} (a : Listing t) {dir : Location} {f : FileName}

/-- The directories that list something. -/
def parents (t : FileTree) : List Location :=
  (t.entries.filterMap fun x => x.1.head?.map fun _ => x.1.tail).dedup

theorem mem_parents (h : f ∈ t.children dir) : dir ∈ t.parents := by
  obtain ⟨e, he⟩ := mem_children_iff.1 h
  rw [parents, List.mem_dedup]
  exact List.mem_filterMap.2 ⟨_, (mem_entries_iff (List.cons_ne_nil f dir)).2 he, rfl⟩

namespace Listing

/-- The order in which a tree lists its entries by itself. -/
def given (t : FileTree) : Listing t := ⟨t.children, fun _ => .refl _⟩

/-- The same order the other way round. -/
def reversed (a : Listing t) : Listing t :=
  ⟨fun dir => (a.order dir).reverse, fun dir => (List.reverse_perm _).trans (a.perm dir)⟩

theorem mem_order_iff : f ∈ a.order dir ↔ ∃ e, t.find? (f :: dir) = some e :=
  (a.perm dir).mem_iff.trans mem_children_iff

/-- The locations of all entries, directory by directory. -/
def locations : List Location := t.parents.flatMap fun dir => (a.order dir).map (· :: dir)

theorem cons_mem_locations_iff : f :: dir ∈ a.locations ↔ ∃ e, t.find? (f :: dir) = some e := by
  rw [← a.mem_order_iff, locations, List.mem_flatMap]
  constructor
  · rintro ⟨parent, -, h⟩
    obtain ⟨g, hg, he⟩ := List.mem_map.1 h
    cases he
    exact hg
  · intro h
    exact ⟨dir, mem_parents ((a.perm dir).mem_iff.1 h), List.mem_map_of_mem h⟩

theorem nodup_locations : a.locations.Nodup := by
  refine List.nodup_flatMap.2 ⟨fun dir _ => ?_, (List.nodup_dedup _).imp fun hne => ?_⟩
  · exact ((a.perm dir).nodup_iff.2 (t.nodup_children dir)).map fun f g h => (List.cons.inj h).1
  · intro l hl hl'
    obtain ⟨f, -, rfl⟩ := List.mem_map.1 hl
    obtain ⟨g, -, he⟩ := List.mem_map.1 hl'
    exact hne (List.cons.inj he).2.symm

end Listing

/-- The tree with its entries listed in another order. -/
def relisted (t : FileTree) (a : Listing t) : FileTree where
  entries := a.locations.filterMap fun l => (t.find? l).map fun e => (l, e)
  nodup := by
    refine List.pairwise_map.2 (List.pairwise_filterMap.2 (a.nodup_locations.imp ?_))
    rintro l m hne x hx y hy
    obtain ⟨-, -, rfl⟩ := Option.map_eq_some_iff.1 hx
    obtain ⟨-, -, rfl⟩ := Option.map_eq_some_iff.1 hy
    exact hne

theorem find?_relisted (l : Location) : (t.relisted a).find? l = t.find? l := by
  rcases l with _ | ⟨f, dir⟩
  · rfl
  · refine Option.ext fun e => ?_
    rw [← mem_entries_iff (List.cons_ne_nil f dir), relisted, List.mem_filterMap]
    constructor
    · rintro ⟨l, -, h⟩
      obtain ⟨e', he, hx⟩ := Option.map_eq_some_iff.1 h
      cases hx
      exact he
    · intro h
      exact ⟨_, a.cons_mem_locations_iff.2 ⟨e, h⟩, by rw [h]; rfl⟩

/-- The name of what stands at a location directly below a directory. -/
def childOf? (dir : Location) : Location → Option FileName
  | [] => none
  | name :: parent => if parent = dir then some name else none

theorem children_eq : t.children dir = t.entries.filterMap fun x => childOf? dir x.1 := rfl

theorem filterMap_childOf? (parent : Location) :
    ((a.order parent).map (· :: parent)).filterMap (childOf? dir) =
      if parent = dir then a.order dir else [] := by
  rw [List.filterMap_map]
  split
  · next h =>
    subst h
    have hself : ∀ f ∈ a.order parent, (childOf? parent ∘ (· :: parent)) f = some f := by
      intro f _
      simp [childOf?]
    rw [List.filterMap_congr hself, List.filterMap_some]
  · next h => exact List.filterMap_eq_nil_iff.2 fun f _ => by simp [childOf?, h]

/-- Of the names in all directories, those in `dir` are left. -/
theorem flatMap_order (h : dir ∈ t.parents) :
    (t.parents.flatMap fun parent => if parent = dir then a.order dir else []) = a.order dir := by
  have hn : t.parents.Nodup := List.nodup_dedup _
  obtain ⟨before, after, hsplit⟩ := List.append_of_mem h
  rw [hsplit] at hn ⊢
  have hnone : ∀ {ds : List Location}, dir ∉ ds →
      (ds.flatMap fun parent => if parent = dir then a.order dir else []) = [] := by
    intro ds hds
    refine List.flatMap_eq_nil_iff.2 fun d hd => if_neg ?_
    rintro rfl
    exact hds hd
  obtain ⟨-, hafter, hapart⟩ := List.nodup_append.1 hn
  have hbefore : dir ∉ before := fun hd => hapart dir hd dir List.mem_cons_self rfl
  rw [List.flatMap_append, List.flatMap_cons, hnone hbefore,
    hnone (List.nodup_cons.1 hafter).1, if_pos rfl, List.nil_append, List.append_nil]

/-- A tree lists its entries in the order that `a` asks for. -/
theorem children_relisted (dir : Location) : (t.relisted a).children dir = a.order dir := by
  have hfind : ∀ l ∈ a.locations, ((t.find? l).map fun e => (l, e)).bind
      (fun x => childOf? dir x.1) = childOf? dir l := by
    rintro l hl
    rcases l with _ | ⟨f, parent⟩
    · rfl
    · obtain ⟨e, he⟩ := a.cons_mem_locations_iff.1 hl
      rw [he]
      rfl
  rw [children_eq, relisted, List.filterMap_filterMap, List.filterMap_congr hfind,
    Listing.locations, List.filterMap_flatMap]
  simp only [filterMap_childOf?]
  by_cases h : dir ∈ t.parents
  · exact flatMap_order a h
  · have hnil : a.order dir = [] := by
      refine List.eq_nil_iff_forall_not_mem.2 fun f hf => ?_
      exact h (mem_parents ((a.perm dir).mem_iff.1 hf))
    rw [hnil]
    exact List.flatMap_eq_nil_iff.2 fun d _ => ite_self _

end FileTree

namespace Workspace

/-- The workspace with its directories listed in another order. -/
def relisted (w : Workspace) (a : w.tree.Listing) : Workspace :=
  { w with tree := w.tree.relisted a }

theorem same_relisted (w : Workspace) (a : w.tree.Listing) : Same w (w.relisted a) :=
  ⟨rfl, rfl, FileTree.find?_relisted a⟩

theorem same_relistings (w : Workspace) (a b : w.tree.Listing) :
    Same (w.relisted a) (w.relisted b) :=
  (w.same_relisted a).symm.trans (w.same_relisted b)

theorem list_reversed (w : Workspace) (a : w.tree.Listing) (p : PathName) :
    (w.relisted a.reversed).list p = ((w.relisted a).list p).map List.reverse := by
  unfold Workspace.list
  rw [(w.same_relistings a a.reversed).openDirectory]
  cases (w.relisted a).openDirectory p with
  | error e => rfl
  | ok dir =>
    have hreversed : (w.relisted a.reversed).tree.children dir =
        ((w.relisted a).tree.children dir).reverse :=
      (FileTree.children_relisted a.reversed dir).trans
        (congrArg List.reverse (FileTree.children_relisted a dir).symm)
    exact congrArg Except.ok hreversed

end Workspace

end AgentDocs.Files
