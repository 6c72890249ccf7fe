import AgentDocs.Files.FileName

/-!
# File trees

A tree is a finite set of locations with what stands there: a file with its bytes, a symbolic link
with its target, or a directory. Directories are entries of their own, the root is always one, and
the order of the entries is the order in which directories list their children.

* `FileTree.find?_insert_self`, `FileTree.find?_insert_of_ne`: an insertion is seen only where it
  was made.
* `FileTree.find?_erase_self`, `FileTree.find?_erase_of_ne`: the same for a removal.
-/

namespace AgentDocs.Files

/-- The names that lead from the root to an entry, innermost first. The root is empty. -/
abbrev Location := List FileName

/-- What stands at a location. -/
inductive Entry where
  | file (bytes : ByteArray)
  | link (target : RawText)
  | directory

/-- Entries are compared by their bytes and their targets. -/
def Entry.decEq : (a b : Entry) → Decidable (a = b)
  | .file ⟨a⟩, .file ⟨b⟩ =>
    if h : a = b then isTrue (h ▸ rfl) else isFalse fun e => h (by cases e; rfl)
  | .link a, .link b =>
    if h : a = b then isTrue (h ▸ rfl) else isFalse fun e => h (by cases e; rfl)
  | .directory, .directory => isTrue rfl
  | .file _, .link _ => isFalse nofun
  | .file _, .directory => isFalse nofun
  | .link _, .file _ => isFalse nofun
  | .link _, .directory => isFalse nofun
  | .directory, .file _ => isFalse nofun
  | .directory, .link _ => isFalse nofun

instance : DecidableEq Entry := Entry.decEq

/-- A file tree: every location stands at most once in the list. -/
structure FileTree where
  entries : List (Location × Entry)
  nodup : (entries.map (·.1)).Nodup

namespace FileTree

/-- The tree that holds the root only. -/
def empty : FileTree := ⟨[], List.nodup_nil⟩

/-- What stands at a location, if anything does. -/
def find? (t : FileTree) (l : Location) : Option Entry :=
  if l = [] then some .directory else t.entries.lookup l

/-- A directory stands at a location. -/
def isDirectory (t : FileTree) (l : Location) : Bool := t.find? l == some .directory

/-- The names of the entries directly below a location, in listing order. -/
def children (t : FileTree) (dir : Location) : List FileName :=
  t.entries.filterMap fun (l, _) =>
    match l with
    | [] => none
    | name :: parent => if parent = dir then some name else none

theorem nodup_filter {entries : List (Location × Entry)} (h : (entries.map (·.1)).Nodup)
    (p : Location × Entry → Bool) : ((entries.filter p).map (·.1)).Nodup :=
  h.sublist (List.filter_sublist.map _)

/-- The tree without the entry at a location. -/
def erase (t : FileTree) (l : Location) : FileTree :=
  ⟨t.entries.filter (·.1 ≠ l), nodup_filter t.nodup _⟩

/-- The tree with an entry put at a location, in place of the one that stood there. -/
def insert (t : FileTree) (l : Location) (e : Entry) : FileTree :=
  ⟨(l, e) :: (t.erase l).entries, by
    refine List.nodup_cons.2 ⟨?_, (t.erase l).nodup⟩
    simp [erase]⟩

theorem find?_root (t : FileTree) : t.find? [] = some .directory := rfl

theorem lookup_filter_ne {entries : List (Location × Entry)} {l m : Location} (h : m ≠ l) :
    (entries.filter (·.1 ≠ l)).lookup m = entries.lookup m := by
  induction entries with
  | nil => rfl
  | cons x rest ih =>
    obtain ⟨k, e⟩ := x
    by_cases hk : k = l
    · subst hk
      have hm : (m == k) = false := by simpa using h
      simpa [List.filter_cons, List.lookup_cons, hm] using ih
    · simp only [List.filter_cons, ne_eq, hk, not_false_eq_true, decide_true, if_true,
        List.lookup_cons]
      rw [← ih]

theorem lookup_filter_self {entries : List (Location × Entry)} {l : Location} :
    (entries.filter (·.1 ≠ l)).lookup l = none := by
  rw [List.lookup_eq_none_iff]
  intro x hx
  simp only [ne_eq, decide_not, List.mem_filter, Bool.not_eq_eq_eq_not, Bool.not_true,
    decide_eq_false_iff_not] at hx
  simpa using fun h => hx.2 h.symm

theorem find?_erase_self {t : FileTree} {l : Location} (h : l ≠ []) :
    (t.erase l).find? l = none := by
  simp only [find?, h, if_false, erase]
  exact lookup_filter_self

theorem find?_erase_of_ne {t : FileTree} {l m : Location} (h : m ≠ l) :
    (t.erase l).find? m = t.find? m := by
  simp only [find?, erase, lookup_filter_ne h]

theorem find?_insert_self {t : FileTree} {l : Location} {e : Entry} (h : l ≠ []) :
    (t.insert l e).find? l = some e := by
  simp [find?, insert, h]

theorem find?_insert_of_ne {t : FileTree} {l m : Location} {e : Entry} (h : m ≠ l) :
    (t.insert l e).find? m = t.find? m := by
  have hm : (m == l) = false := by simpa using h
  simp only [find?, insert, List.lookup_cons, hm]
  split
  · rfl
  · exact lookup_filter_ne h

end FileTree

end AgentDocs.Files
