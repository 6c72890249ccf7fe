import Mathlib.Data.List.TakeWhile
import AgentDocs.Proofs.Build.Resweep
import AgentDocs.Proofs.Template.Sorted

/-!
# Stale agents

What a sweep reports, file by file. The names of agents are split at their first hyphen, the scope
and the choice of roles decide whether a file is looked at, and every name that has a template is
left out, whatever became of the template. Files that are shown alike belong to one name.

* `Identity.ofName?_eq_some_iff`: what a name is split into.
* `mem_candidates_iff`, `pairwise_candidates`: the files that a sweep looks at.
* `mem_stale_of_sweep_iff`: what it reports where all removals succeed.
* `run_sweeps_exactly`: the stale agents of a run.
-/

namespace AgentDocs

open AgentDocs.Files AgentDocs.Files.Workspace

/-! ## Names -/

theorem Identity.hyphen_mem_name (i : Identity) : '-' ∈ i.name.toList := by
  simp [Identity.name]

theorem Identity.name_ne_empty (i : Identity) : i.name ≠ "" := by
  intro h
  have := i.hyphen_mem_name
  rw [h] at this
  cases this

/-- The scope of `name` goes up to its first hyphen, and the command is all that is behind it. -/
theorem Identity.ofName?_eq_some_iff {name : String} {i : Identity} :
    Identity.ofName? name = some i ↔
      i.name = name ∧ '-' ∉ i.scope.toList ∧ i.scope ≠ "" ∧ i.command ≠ "" := by
  constructor
  · intro h
    simp only [Identity.ofName?] at h
    split at h
    · cases h
    · next hne =>
      cases h
      simp only [Bool.or_eq_true, List.isEmpty_iff, not_or] at hne
      have hcut := List.takeWhile_append_dropWhile (p := (· ≠ '-')) (l := name.toList)
      have hscope : '-' ∉ name.toList.takeWhile (· ≠ '-') := by
        intro hm
        simpa using List.mem_takeWhile_imp hm
      have hhead := List.head?_dropWhile_not (· ≠ '-') name.toList
      revert hne hcut hscope hhead
      generalize name.toList.takeWhile (· ≠ '-') = scope
      cases name.toList.dropWhile (· ≠ '-') with
      | nil => exact fun hne => absurd rfl hne.2
      | cons c command =>
        intro hne hcut hscope hhead
        obtain rfl : c = '-' := by simpa using hhead
        refine ⟨String.toList_injective ?_, ?_, by simpa using hne.1, by simpa using hne.2⟩
        · rw [← hcut]
          simp [Identity.name]
        · simpa using hscope
  · rintro ⟨rfl, hs, h1, h2⟩
    exact Identity.ofName?_name h1 h2 hs

/-- A choice of roles is about an agent: the command belongs to the role, as its own where the scope
is a role, and as the registry has it where the scope is a namespace. -/
def RoleFilter.Accepts (f : RoleFilter) (r : Registry) (i : Identity) : Prop :=
  match f with
  | .all => True
  | .role name =>
    if isOperational i.scope then i.scope = name else r.commandRole? i.command = some name

theorem considers_iff {s : Settings} {r : Registry} {filter : RoleFilter} {i : Identity} :
    Sweep.considers s r filter i = true ↔
      (isOperational i.scope = true ∨ s.isNamespace i.scope = true) ∧ filter.Accepts r i := by
  unfold Sweep.considers RoleFilter.Accepts
  cases isOperational i.scope <;> cases s.isNamespace i.scope <;> cases filter <;> simp

/-! ## The order of a sweep -/

namespace Sweep.Candidate

theorem le_iff {a b : Candidate} :
    a.le b = true ↔ a.name < b.name ∨ a.name = b.name ∧ a.path.le b.path = true := by
  simp [Candidate.le]

theorem sorts_le : Sorts Candidate.le where
  trans a b c hab hbc := by
    have htrans := sorts_stepsLE.trans a.path.steps b.path.steps c.path.steps
    simp only [le_iff, PathName.le] at *
    grind
  total a b := by
    have htotal := stepsLE_total a.path.steps b.path.steps
    rw [Bool.or_eq_true] at htotal ⊢
    simp only [le_iff, PathName.le]
    grind

/-- An agent stands in front of another: its name does, or its path under the same name. -/
def Before (a b : Candidate) : Prop :=
  a.name < b.name ∨ a.name = b.name ∧ a.path.le b.path = true ∧ b.path.le a.path = false

theorem Before.asymm {a b : Candidate} (h : a.Before b) : ¬ b.Before a := by
  rintro (h' | ⟨hname, hback, -⟩)
  · rcases h with h | ⟨hname, -⟩
    · exact String.lt_asymm h h'
    · exact String.lt_irrefl _ (hname ▸ h')
  · rcases h with h | ⟨-, -, h⟩
    · exact String.lt_irrefl _ (hname ▸ h)
    · rw [h] at hback
      cases hback

theorem Before.irrefl (a : Candidate) : ¬ a.Before a := fun h => h.asymm h

instance : Std.Irrefl Before := ⟨Before.irrefl⟩

instance : Std.Antisymm Before := ⟨fun _ _ h h' => absurd h' h.asymm⟩

theorem before_of_le {a b : Candidate} (h : a.le b = true) (h' : b.le a = false) : a.Before b := by
  rcases le_iff.1 h with hname | ⟨hname, hpath⟩
  · exact .inl hname
  · refine .inr ⟨hname, hpath, Bool.eq_false_iff.2 fun hback => ?_⟩
    rw [le_iff.2 (.inr ⟨hname.symm, hback⟩)] at h'
    cases h'

end Sweep.Candidate

/-! ## What a sweep looks at -/

section
variable {w : Workspace} {s : Settings} {r : Registry} {filter : RoleFilter} {out : PathName}
  {dir : Location} {f : FileName} {name : String} {c : Sweep.Candidate}

/-- The file of an agent that a sweep looks at. -/
structure IsCandidate (w : Workspace) (s : Settings) (r : Registry) (filter : RoleFilter)
    (dir : Location) (f : FileName) (name : String) : Prop where
  file : ∃ bytes, w.tree.find? (f :: dir) = some (.file bytes)
  shown : f.text = fileName name
  identity : ∃ i : Identity, i.name = name ∧ '-' ∉ i.scope.toList ∧ i.scope ≠ "" ∧
    i.command ≠ "" ∧ (isOperational i.scope = true ∨ s.isNamespace i.scope = true) ∧
    filter.Accepts r i

theorem candidate?_eq_some_iff :
    Sweep.candidate? w s r filter out dir f = some c ↔
      IsCandidate w s r filter dir f c.name ∧ c.path = out.join f.raw := by
  unfold Sweep.candidate?
  constructor
  · intro h
    split at h
    · next bytes hb =>
      obtain ⟨name, hname, h⟩ := Option.bind_eq_some_iff.1 h
      obtain ⟨i, hi, h⟩ := Option.bind_eq_some_iff.1 h
      split at h
      · next hc =>
        cases h
        obtain ⟨hn, hs, h1, h2⟩ := Identity.ofName?_eq_some_iff.1 hi
        obtain ⟨hk, ha⟩ := considers_iff.1 hc
        exact ⟨⟨⟨bytes, hb⟩, text_eq_of_nameOfFile? hname, i, hn, hs, h1, h2, hk, ha⟩, rfl⟩
      · cases h
    · cases h
  · rintro ⟨⟨⟨bytes, hb⟩, hf, i, hn, hs, h1, h2, hk, ha⟩, hpath⟩
    have hne : c.name ≠ "" := hn ▸ i.name_ne_empty
    have hi : Identity.ofName? c.name = some i :=
      Identity.ofName?_eq_some_iff.2 ⟨hn, hs, h1, h2⟩
    simp [hb, hf, nameOfFile?_fileName hne, hi, considers_iff.2 ⟨hk, ha⟩, ← hpath]

theorem mem_candidates_iff :
    c ∈ Sweep.candidates w s r filter out dir ↔
      ∃ f, IsCandidate w s r filter dir f c.name ∧ c.path = out.join f.raw := by
  rw [Sweep.candidates, List.mem_mergeSort, List.mem_filterMap]
  constructor
  · rintro ⟨f, -, hc⟩
    exact ⟨f, candidate?_eq_some_iff.1 hc⟩
  · rintro ⟨f, hc⟩
    obtain ⟨bytes, hb⟩ := hc.1.file
    exact ⟨f, FileTree.mem_children_iff.2 ⟨_, hb⟩, candidate?_eq_some_iff.2 hc⟩

/-- A sweep goes through the agents in increasing order and through each of them once. -/
theorem pairwise_candidates (w : Workspace) (s : Settings) (r : Registry) (filter : RoleFilter)
    (out : PathName) (dir : Location) :
    (Sweep.candidates w s r filter out dir).Pairwise Sweep.Candidate.Before := by
  have hkeys : ((w.tree.children dir).filterMap (Sweep.candidate? w s r filter out dir)).Pairwise
      fun a b => a.le b = true → b.le a ≠ true := by
    refine List.pairwise_filterMap.2 ((w.tree.nodup_children dir).imp ?_)
    intro f g hne a ha b hb hab hba
    have hpaths : a.path.steps = b.path.steps := by
      rcases Sweep.Candidate.le_iff.1 hab with hlt | ⟨hname, hab⟩
      · rcases Sweep.Candidate.le_iff.1 hba with hgt | ⟨hname, -⟩
        · exact absurd hgt (String.lt_asymm hlt)
        · exact absurd hlt (hname ▸ String.lt_irrefl _)
      · rcases Sweep.Candidate.le_iff.1 hba with hgt | ⟨-, hba⟩
        · exact absurd hgt (hname ▸ String.lt_irrefl _)
        · exact stepsLE_antisymm hab hba
    rw [(candidate?_eq_some_iff.1 ha).2, (candidate?_eq_some_iff.1 hb).2] at hpaths
    simp only [PathName.steps_join, List.append_cancel_left_eq, List.cons.injEq, Step.child.injEq,
      and_true] at hpaths
    exact hne hpaths
  exact (Sweep.Candidate.sorts_le.pairwise_mergeSort hkeys).imp fun ⟨hab, hba⟩ =>
    Sweep.Candidate.before_of_le hab hba

end

theorem mem_names_iff {d : Discovery} {name : String} :
    name ∈ d.names ↔ ∃ i ∈ d.identities, i.name = name := by
  simp [Discovery.names]

/-! ## What a sweep reports -/

section
variable {w : Workspace} {out : PathName} {s : Settings} {r : Registry} {filter : RoleFilter}
  {force : Bool} {known : List String} {dir : Location} {l : Location}

theorem find?_sweep_of_not_removed (hp : out.Passable) (hdir : w.directoryAt out.way = .ok dir)
    (hl : ∀ f, Removed out (Sweep.run w s r filter force out known).2.stale f → l ≠ f :: dir) :
    (Sweep.run w s r filter force out known).1.tree.find? l = w.tree.find? l := by
  have hself := grown_eq_self hp hdir
  rcases (sweep_stage w out s r filter force known).entries l with he | ⟨hn, -, hg⟩ |
    ⟨f, dir', hdir', rfl, hf⟩
  · exact he
  · rw [hself, hn] at hg
    cases hg
  · rw [hself, hdir] at hdir'
    cases hdir'
    exact absurd rfl (hl f (hf.resolve_left id))

theorem find?_of_mem_stale (hdir : w.openDirectory out = .ok dir) {x : Stale}
    (hx : x ∈ (Sweep.run w s r filter force out known).2.stale) :
    ∃ f bytes, x.path = out.join f.raw ∧ f.text = fileName x.name ∧
      w.tree.find? (f :: dir) = some (.file bytes) ∧
      ((Sweep.run w s r filter force out known).1.tree.find? (f :: dir) = none ↔
        force = true) := by
  have hmem := hx
  rw [sweep_of_directory hdir] at hmem
  obtain ⟨f, hpath, hf, bytes, hb⟩ :=
    exists_of_mem_candidates (List.mem_filter.1 (mem_of_mem_stale hmem)).1
  refine ⟨f, bytes, hpath, hf, hb, ?_⟩
  cases force with
  | false =>
    rw [sweep_of_not_force, hb]
    simp
  | true =>
    obtain ⟨hr, hd, -⟩ := openDirectory_eq_ok_iff.1 hdir
    refine iff_of_true ?_ rfl
    rw [sweep_of_directory hdir] at hx ⊢
    refine find?_of_mem_removed (directoryAt_way_of_resolve hr hd).2 (fun c hc => ?_) hx hpath
    obtain ⟨g, hg, -, bytes', hb'⟩ := exists_of_mem_candidates (List.mem_filter.1 hc).1
    refine ⟨g, hg, fun target ht => ?_⟩
    rw [hb'] at ht
    cases ht

variable (hdir : w.openDirectory out = .ok dir)
  (hr : (Sweep.run w s r filter force out known).2.failures = [])
include hdir hr

theorem stale_of_sweep :
    (Sweep.run w s r filter force out known).2.stale =
      ((Sweep.candidates w s r filter out dir).filter fun c => !known.contains c.name).map
        fun c => ⟨c.name, c.path, force⟩ := by
  rw [sweep_of_directory hdir] at hr ⊢
  exact stale_of_remove hr

theorem mem_stale_of_sweep_iff {x : Stale} :
    x ∈ (Sweep.run w s r filter force out known).2.stale ↔
      (∃ f, IsCandidate w s r filter dir f x.name ∧ x.path = out.join f.raw) ∧
        x.name ∉ known ∧ x.removed = force := by
  have hmem : ∀ c, c ∈ (Sweep.candidates w s r filter out dir).filter
      (fun c => !known.contains c.name) ↔
        (∃ f, IsCandidate w s r filter dir f c.name ∧ c.path = out.join f.raw) ∧
          c.name ∉ known := by
    intro c
    rw [List.mem_filter, mem_candidates_iff]
    simp
  rw [stale_of_sweep hdir hr, List.mem_map]
  constructor
  · rintro ⟨c, hc, rfl⟩
    exact ⟨((hmem c).1 hc).1, ((hmem c).1 hc).2, rfl⟩
  · rintro ⟨hf, hname, hforce⟩
    refine ⟨⟨x.name, x.path⟩, (hmem _).2 ⟨hf, hname⟩, ?_⟩
    rw [← hforce]

theorem pairwise_stale_of_sweep :
    ((Sweep.run w s r filter force out known).2.stale.map fun x =>
      Sweep.Candidate.mk x.name x.path).Pairwise Sweep.Candidate.Before := by
  rw [stale_of_sweep hdir hr, List.map_map]
  exact List.pairwise_map.2 ((pairwise_candidates w s r filter out dir).filter _)

end

/-! ## The stale agents of a run -/

/-- The file `f` is that of a stale agent in a directory: its name is shown as that of an agent that
a choice of roles is about, and of no template, readable or not. -/
structure Project.IsStale (p : Project) (v : Workspace) (d : Discovery) (filter : RoleFilter)
    (dir : Location) (f : FileName) (name : String) : Prop where
  candidate : IsCandidate v p.settings p.registry filter dir f name
  unknown : ∀ i ∈ d.identities, i.name ≠ name

section
variable {p : Project} {v : Workspace} {d : Discovery} {filter : RoleFilter} {dir : Location}
  {out : PathName} {stale : List Stale} {force : Bool}

/-- The names of `stale` increase strictly if and only if no two files are shown alike. -/
theorem pairwise_names_iff
    (hsorted : (stale.map fun x => Sweep.Candidate.mk x.name x.path).Pairwise
      Sweep.Candidate.Before)
    (hmem : ∀ x, x ∈ stale ↔
      (∃ f, p.IsStale v d filter dir f x.name ∧ x.path = out.join f.raw) ∧ x.removed = force) :
    (stale.map (·.name)).Pairwise (· < ·) ↔ ∀ f g name, p.IsStale v d filter dir f name →
      p.IsStale v d filter dir g name → f = g := by
  rw [List.pairwise_map] at hsorted ⊢
  constructor
  · intro hlt f g name hf hg
    have hx := (hmem ⟨name, out.join f.raw, force⟩).2 ⟨⟨f, hf, rfl⟩, rfl⟩
    have hy := (hmem ⟨name, out.join g.raw, force⟩).2 ⟨⟨g, hg, rfl⟩, rfl⟩
    by_contra hne
    have hdiffer : (⟨name, out.join f.raw, force⟩ : Stale) ≠ ⟨name, out.join g.raw, force⟩ :=
      fun he => hne (PathName.join_injective (Stale.mk.inj he).2.1)
    have hsymm : Std.Symm fun x y : Stale => x.name ≠ y.name := ⟨fun _ _ => Ne.symm⟩
    have hnames : stale.Pairwise fun x y => x.name ≠ y.name := by
      refine hlt.imp fun h he => ?_
      rw [he] at h
      exact String.lt_irrefl _ h
    exact hnames.forall hx hy hdiffer rfl
  · intro hall
    refine hsorted.imp_of_mem fun {x y} hx hy hxy => hxy.resolve_right ?_
    rintro ⟨hname, hle, hgt⟩
    obtain ⟨⟨f, hf, hxf⟩, -⟩ := (hmem x).1 hx
    obtain ⟨⟨g, hg, hyg⟩, -⟩ := (hmem y).1 hy
    change x.name = y.name at hname
    rw [hname] at hf
    rw [hxf, hyg, hall f g _ hf hg] at hle hgt
    rw [hle] at hgt
    cases hgt

end

/-- Where a run lists its agents and no removal fails, it reports exactly the stale agents of `v`,
the workspace that its templates left: each file once, in increasing order of their names and, under
one name, of their paths. So the names increase strictly unless two files are shown alike. The files
are gone afterwards if and only if the run was forced, and everything else is as the templates left
it, the file of every agent that has a template in particular. -/
theorem run_sweeps_exactly {p : Project} {w v : Workspace} {d : Discovery} {o : Options}
    {files : List FileName} (hm : o.mode ≠ .preview) (hv : (p.processed w d o).1 = v)
    (hlist : v.list p.outputRoot = .ok files) (hr : (p.swept w d o).2.failures = []) :
    ∃ dir, v.resolve p.outputRoot = .ok dir ∧
      ((p.run w d o).2.stale.map fun x => Sweep.Candidate.mk x.name x.path).Pairwise
        Sweep.Candidate.Before ∧
      ((p.run w d o).2.stale.map (·.path)).Nodup ∧
      (((p.run w d o).2.stale.map (·.name)).Pairwise (· < ·) ↔
        ∀ f g name, p.IsStale v d o.filter dir f name → p.IsStale v d o.filter dir g name →
          f = g) ∧
      (∀ x, x ∈ (p.run w d o).2.stale ↔
        (∃ f, p.IsStale v d o.filter dir f x.name ∧ x.path = p.outputRoot.join f.raw) ∧
          x.removed = o.force) ∧
      (∀ x ∈ (p.run w d o).2.stale, ∀ f : FileName, x.path = p.outputRoot.join f.raw →
        ((p.run w d o).1.tree.find? (f :: dir) = none ↔ o.force = true)) ∧
      (∀ l, (∀ x ∈ (p.run w d o).2.stale, ∀ f : FileName, x.path = p.outputRoot.join f.raw →
        l ≠ f :: dir) → (p.run w d o).1.tree.find? l = v.tree.find? l) ∧
      ∀ i ∈ d.identities, (∀ x ∈ (p.run w d o).2.stale, x.name ≠ i.name) ∧
        ∀ f : FileName, f.text = fileName i.name →
          (p.run w d o).1.tree.find? (f :: dir) = v.tree.find? (f :: dir) := by
  rw [Project.run_stale, Project.run_fst]
  rw [Project.swept_eq hm, hv] at hr ⊢
  obtain ⟨dir, hopen, -⟩ := list_eq_ok_iff.1 hlist
  obtain ⟨hdir, hd, -⟩ := openDirectory_eq_ok_iff.1 hopen
  obtain ⟨hacc, hway⟩ := directoryAt_way_of_resolve hdir hd
  have hp := PathName.passable_of_refusal hacc
  have hframe : ∀ l, (∀ x ∈ (Sweep.run v p.settings p.registry o.filter o.force p.outputRoot
      d.names).2.stale, ∀ f : FileName, x.path = p.outputRoot.join f.raw → l ≠ f :: dir) →
      (Sweep.run v p.settings p.registry o.filter o.force p.outputRoot
        d.names).1.tree.find? l = v.tree.find? l := by
    intro l hl
    apply find?_sweep_of_not_removed hp hway
    rintro f ⟨x, hx, -, hpath, -⟩
    exact hl x hx f hpath
  have hknown : ∀ i ∈ d.identities, ∀ x ∈ (Sweep.run v p.settings p.registry o.filter o.force
      p.outputRoot d.names).2.stale, x.name ≠ i.name := by
    intro i hi x hx hname
    exact notMem_known_of_mem_stale hx (mem_names_iff.2 ⟨i, hi, hname.symm⟩)
  have hmem : ∀ x, x ∈ (Sweep.run v p.settings p.registry o.filter o.force p.outputRoot
      d.names).2.stale ↔
        (∃ f, p.IsStale v d o.filter dir f x.name ∧ x.path = p.outputRoot.join f.raw) ∧
          x.removed = o.force := by
    intro x
    rw [mem_stale_of_sweep_iff hopen hr, mem_names_iff]
    constructor
    · rintro ⟨⟨f, hc, hpath⟩, hn, hforce⟩
      exact ⟨⟨f, ⟨hc, fun i hi hname => hn ⟨i, hi, hname⟩⟩, hpath⟩, hforce⟩
    · rintro ⟨⟨f, ⟨hc, hn⟩, hpath⟩, hforce⟩
      exact ⟨⟨f, hc, hpath⟩, fun ⟨i, hi, hname⟩ => hn i hi hname, hforce⟩
  have hsorted := pairwise_stale_of_sweep hopen hr
  refine ⟨dir, hdir, hsorted, ?_, pairwise_names_iff hsorted hmem, hmem, fun x hx f hpath => ?_,
    hframe, fun i hi => ⟨hknown i hi, fun f hf => hframe _ ?_⟩⟩
  · refine List.pairwise_map.2 ((List.pairwise_map.1 hsorted).imp_of_mem
      fun {x y} hx hy hxy hpath => Sweep.Candidate.Before.irrefl ⟨x.name, x.path⟩ ?_)
    obtain ⟨⟨f, hf, hxf⟩, -⟩ := (hmem x).1 hx
    obtain ⟨⟨g, hg, hyg⟩, -⟩ := (hmem y).1 hy
    obtain rfl : f = g := PathName.join_injective (by rw [← hxf, ← hyg, hpath])
    have hname : x.name = y.name :=
      fileName_injective (hf.candidate.shown.symm.trans hg.candidate.shown)
    rwa [← hname, ← hpath] at hxy
  · obtain ⟨g, bytes, hg, -, -, hgone⟩ := find?_of_mem_stale hopen hx
    obtain rfl : g = f := PathName.join_injective (hg.symm.trans hpath)
    exact hgone
  · intro x hx g hpath hfg
    cases hfg
    obtain ⟨⟨g, hg, hxg⟩, -⟩ := (hmem x).1 hx
    obtain rfl : f = g := PathName.join_injective (hpath.symm.trans hxg)
    exact hknown i hi x hx (fileName_injective (hg.candidate.shown.symm.trans hf))

/-! ## A directory with one stale agent -/

/-- A project with the standard settings. -/
def shelf : Project where
  root := ⟨"."⟩
  settings := .standard
  registry := .empty
  handoffs := .standard

/-- Its directory of agents. -/
def shelfDirectory : Location := [⟨"agents", by decide⟩, ⟨".github", by decide⟩]

/-- The file of the agent that has a template. -/
def shelfFile : FileName := ⟨"pm-x.agent.md", by decide⟩

/-- The file of the agent that has no template. -/
def shelfStale : FileName := ⟨"pm-old-x.agent.md", by decide⟩

/-- A file that is named like an agent of a scope that is not known. -/
def shelfForeign : FileName := ⟨"zz-x.agent.md", by decide⟩

/-- The directory holds an agent with a template and one without, a link that is named like an
agent, and files whose names have no command or no known scope. -/
def shelfWorkspace : Workspace where
  tree := (((((((FileTree.empty.insert (shelfDirectory.drop 1) .directory).insert
    shelfDirectory .directory).insert
      (⟨"pm-.agent.md", by decide⟩ :: shelfDirectory) (.file .empty)).insert
      (shelfForeign :: shelfDirectory) (.file .empty)).insert
      (⟨"pm-link.agent.md", by decide⟩ :: shelfDirectory) (.link "pm-x.agent.md")).insert
      (shelfFile :: shelfDirectory) (.file .empty)).insert
      (shelfStale :: shelfDirectory) (.file .empty))
  start := []
  sealed := []

/-- The template of the one agent cannot be read. -/
def shelfDiscovery : Discovery where
  templates := []
  unreadable := [⟨⟨"pm", "x"⟩, .role, ⟨"./templates/commands/pm/x.md"⟩, .invalidEncoding⟩]
  partials := []

theorem failures_of_shelf :
    (shelf.swept shelfWorkspace shelfDiscovery ⟨.sync, true, .all⟩).2.failures = [] := by
  have hdir : shelfWorkspace.openDirectory shelf.outputRoot = .ok shelfDirectory := by
    decide +kernel
  have hfound : (shelfWorkspace.tree.children shelfDirectory).filterMap (Sweep.candidate?
      shelfWorkspace shelf.settings shelf.registry .all shelf.outputRoot shelfDirectory) =
        [⟨"pm-old-x", shelf.outputRoot.join shelfStale.raw⟩,
          ⟨"pm-x", shelf.outputRoot.join shelfFile.raw⟩] := by
    decide +kernel
  have hc : Sweep.candidates shelfWorkspace shelf.settings shelf.registry .all shelf.outputRoot
      shelfDirectory = [⟨"pm-old-x", shelf.outputRoot.join shelfStale.raw⟩,
        ⟨"pm-x", shelf.outputRoot.join shelfFile.raw⟩] := by
    rw [Sweep.candidates, hfound]
    exact List.mergeSort_of_pairwise (by decide +kernel)
  have hn : shelfDiscovery.names = ["pm-x"] := by decide +kernel
  rw [Project.swept_eq (by simp)]
  show (Sweep.run shelfWorkspace _ _ _ _ _ _).2.failures = []
  rw [sweep_of_directory hdir, hc, hn]
  decide +kernel

theorem run_sweeps_exactly_shelf :
    (∃ files, shelfWorkspace.list shelf.outputRoot = .ok files) ∧
      (shelf.swept shelfWorkspace shelfDiscovery ⟨.sync, true, .all⟩).2.failures = [] ∧
      ∃ x ∈ (shelf.run shelfWorkspace shelfDiscovery ⟨.sync, true, .all⟩).2.stale,
        x.name = "pm-old-x" ∧ x.removed = true ∧
        (shelf.run shelfWorkspace shelfDiscovery ⟨.sync, true, .all⟩).1.tree.find?
          (shelfStale :: shelfDirectory) = none ∧
        ∀ y ∈ (shelf.run shelfWorkspace shelfDiscovery ⟨.sync, true, .all⟩).2.stale,
          y.name ≠ "pm-x" := by
  have hfiles : shelfWorkspace.list shelf.outputRoot =
      .ok (shelfWorkspace.tree.children shelfDirectory) := by decide +kernel
  obtain ⟨dir, hdir, -, -, -, hstale, hgone, -, hknown⟩ := run_sweeps_exactly
    (o := ⟨.sync, true, .all⟩) (d := shelfDiscovery) (by simp) rfl hfiles failures_of_shelf
  obtain rfl : shelfDirectory = dir := by
    have h : shelfWorkspace.resolve shelf.outputRoot = .ok shelfDirectory := by decide +kernel
    cases h.symm.trans hdir
    rfl
  have hx : ⟨"pm-old-x", shelf.outputRoot.join shelfStale.raw, true⟩ ∈
      (shelf.run shelfWorkspace shelfDiscovery ⟨.sync, true, .all⟩).2.stale := by
    refine (hstale _).2 ⟨⟨shelfStale, ⟨⟨⟨.empty, by decide +kernel⟩, by decide +kernel,
      ⟨"pm", "old-x"⟩, by decide, by decide, by decide, by decide, .inl (by decide), trivial⟩, ?_⟩,
      rfl⟩, rfl⟩
    intro i hi
    obtain rfl := List.mem_singleton.1 hi
    decide
  have hi : ⟨"pm", "x"⟩ ∈ shelfDiscovery.identities := List.mem_singleton.2 rfl
  exact ⟨⟨_, hfiles⟩, failures_of_shelf, _, hx, rfl, rfl, (hgone _ hx shelfStale rfl).2 rfl,
    (hknown _ hi).1⟩

end AgentDocs
