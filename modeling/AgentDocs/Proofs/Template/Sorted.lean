import Mathlib.Data.List.Pairwise
import Mathlib.Data.List.Perm.Basic
import AgentDocs.Proofs.Files.Directory
import AgentDocs.Proofs.Template.Found

/-!
# Discoveries in order

A discovery sorts what it finds, so that the order in which directories list their entries can only
tell where two of them have one key.

* `Sorts.mergeSort_eq`: sorting forgets the order in front of it where the keys differ.
* `Sorts.pairwise_mergeSort`: there what is sorted increases strictly.
* `Sorts.nodup_of_mergeSort_reverse`: and only there.
* `templates_ofFound_of_perm`, `nodup_of_ofFound_reverse`: so it is with the lists of a discovery.
* `Same.search`, `Same.discovery`: the discoveries in workspaces that hold the same entries.
* `search_reversed`: a discovery where directories list their entries the other way round.
-/

namespace AgentDocs

open AgentDocs.Files AgentDocs.Files.Workspace

/-! ## Orders -/

/-- A comparison by which lists can be sorted. -/
structure Sorts {α : Type} (le : α → α → Bool) : Prop where
  trans : ∀ a b c, le a b = true → le b c = true → le a c = true
  total : ∀ a b, (le a b || le b a) = true

/-- Two entries of a list without repetitions stand in one order only. -/
theorem not_swapped_of_nodup {α : Type} {l : List α} {a b : α} (hn : l.Nodup)
    (hab : [a, b].Sublist l) : ¬ [b, a].Sublist l := by
  intro hba
  induction l with
  | nil => cases hab
  | cons c l ih =>
    rw [List.nodup_cons] at hn
    cases hab with
    | cons _ hab =>
      cases hba with
      | cons _ hba => exact ih hn.2 hab hba
      | cons_cons _ _ => exact hn.1 (hab.subset (by simp))
    | cons_cons _ hab =>
      cases hba with
      | cons _ hba => exact hn.1 (hba.subset (by simp))
      | cons_cons _ _ => exact hn.1 (hab.subset (by simp))

namespace Sorts

variable {α β : Type} {le : α → α → Bool} {l l' : List α}

/-- Things can be sorted by a `key`. -/
theorem comap (h : Sorts le) (key : β → α) : Sorts fun a b => le (key a) (key b) where
  trans _ _ _ := h.trans _ _ _
  total _ _ := h.total _ _

theorem mergeSort_eq (h : Sorts le)
    (hkeys : ∀ a ∈ l, ∀ b ∈ l, le a b = true → le b a = true → a = b) (hp : l'.Perm l) :
    l'.mergeSort le = l.mergeSort le := by
  have hperm : (l'.mergeSort le).Perm (l.mergeSort le) :=
    (l'.mergeSort_perm le).trans (hp.trans (l.mergeSort_perm le).symm)
  refine List.Perm.eq_of_pairwise (fun a b ha hb => ?_) (List.pairwise_mergeSort h.trans h.total l')
    (List.pairwise_mergeSort h.trans h.total l) hperm
  exact hkeys a (hp.mem_iff.1 (List.mem_mergeSort.1 ha)) b (List.mem_mergeSort.1 hb)

/-- Sorting is stable: where `l` is sorted the same from both of its ends, no `key` stands in it
twice. -/
theorem nodup_of_mergeSort_reverse {key : β → α} {l : List β} (h : Sorts le) (hn : l.Nodup)
    (he : l.reverse.mergeSort (fun a b => le (key a) (key b)) =
      l.mergeSort fun a b => le (key a) (key b)) : (l.map key).Nodup := by
  have hkey := h.comap key
  refine List.pairwise_map.2 (List.pairwise_iff_forall_sublist.2 fun {a b} hab hkeys => ?_)
  have hrefl : ∀ k, le k k = true := fun k => by simpa using h.total k k
  have hba : [b, a].Sublist l.reverse := List.reverse_sublist.2 hab
  refine not_swapped_of_nodup ((List.mergeSort_perm _ _).nodup_iff.2 hn)
    (List.pair_sublist_mergeSort hkey.trans hkey.total ?_ hab) ?_
  · rw [hkeys]
    exact hrefl _
  · rw [← he]
    refine List.pair_sublist_mergeSort hkey.trans hkey.total ?_ hba
    rw [hkeys]
    exact hrefl _

/-- Where no two keys are equal, what is sorted increases strictly. -/
theorem pairwise_mergeSort (h : Sorts le)
    (hn : l.Pairwise fun a b => le a b = true → le b a ≠ true) :
    (l.mergeSort le).Pairwise fun a b => le a b = true ∧ le b a = false := by
  have hsorted := List.pairwise_mergeSort h.trans h.total l
  have hkeys := (List.mergeSort_perm l le).symm.pairwise hn fun hab hba hab' => hab hab' hba
  exact (hsorted.and hkeys).imp fun ⟨hab, hne⟩ => ⟨hab, Bool.eq_false_iff.2 (hne hab)⟩

end Sorts

namespace Discovery

theorem identityLE_iff {a b : Identity} :
    identityLE a b = true ↔ a.scope < b.scope ∨ a.scope = b.scope ∧ a.command ≤ b.command := by
  simp [identityLE]

theorem identityLE_antisymm {a b : Identity} (hab : identityLE a b = true)
    (hba : identityLE b a = true) : a = b := by
  rw [identityLE_iff] at hab hba
  cases a
  cases b
  grind

theorem sorts_identityLE : Sorts identityLE where
  trans a b c hab hbc := by
    rw [identityLE_iff] at *
    grind
  total a b := by
    rw [Bool.or_eq_true, identityLE_iff, identityLE_iff]
    grind

end Discovery

namespace Files

theorem Step.le_iff {a b : Step} :
    a.le b = true ↔ a.rank < b.rank ∨ a.rank = b.rank ∧ a.nameBytes ≤ b.nameBytes := by
  simp [Step.le]

theorem Step.eq_of_rank_eq {a b : Step} (hr : a.rank = b.rank) (hn : a.nameBytes = b.nameBytes) :
    a = b := by
  cases a with
  | child f =>
    cases b with
    | child g => rw [FileName.raw_injective (RawText.ext_bytes hn)]
    | _ => cases hr
  | _ => cases b <;> simp_all [Step.rank]

theorem Step.le_antisymm {a b : Step} (hab : a.le b = true) (hba : b.le a = true) : a = b := by
  rw [Step.le_iff] at hab hba
  refine Step.eq_of_rank_eq ?_ ?_
  · grind
  · grind

theorem Step.sorts_le : Sorts Step.le where
  trans a b c hab hbc := by
    rw [Step.le_iff] at *
    grind
  total a b := by
    rw [Bool.or_eq_true, Step.le_iff, Step.le_iff]
    grind

theorem stepsLE_cons_iff {a b : Step} {as bs : List Step} :
    stepsLE (a :: as) (b :: bs) = true ↔
      a = b ∧ stepsLE as bs = true ∨ a ≠ b ∧ a.le b = true := by
  rw [stepsLE]
  split <;> simp_all

theorem stepsLE_antisymm {as bs : List Step} (hab : stepsLE as bs = true)
    (hba : stepsLE bs as = true) : as = bs := by
  induction as generalizing bs with
  | nil =>
    cases bs with
    | nil => rfl
    | cons b bs => cases hba
  | cons a as ih =>
    cases bs with
    | nil => cases hab
    | cons b bs =>
      rw [stepsLE_cons_iff] at hab hba
      rcases hab with ⟨rfl, hab⟩ | ⟨hne, hab⟩
      · rcases hba with ⟨-, hba⟩ | ⟨hne, -⟩
        · rw [ih hab hba]
        · exact absurd rfl hne
      · rcases hba with ⟨rfl, -⟩ | ⟨-, hba⟩
        · exact absurd rfl hne
        · exact absurd (Step.le_antisymm hab hba) hne

theorem stepsLE_trans {as bs cs : List Step} (hab : stepsLE as bs = true)
    (hbc : stepsLE bs cs = true) : stepsLE as cs = true := by
  induction as generalizing bs cs with
  | nil => rfl
  | cons a as ih =>
    cases bs with
    | nil => cases hab
    | cons b bs =>
      cases cs with
      | nil => cases hbc
      | cons c cs =>
        rw [stepsLE_cons_iff] at hab hbc ⊢
        rcases hab with ⟨rfl, hab⟩ | ⟨hne, hab⟩
        · rcases hbc with ⟨rfl, hbc⟩ | hbc
          · exact .inl ⟨rfl, ih hab hbc⟩
          · exact .inr hbc
        · rcases hbc with ⟨rfl, -⟩ | ⟨-, hbc⟩
          · exact .inr ⟨hne, hab⟩
          · -- coming back to the first step would make it the second one
            refine .inr ⟨?_, Step.sorts_le.trans a b c hab hbc⟩
            rintro rfl
            exact hne (Step.le_antisymm hab hbc)

theorem stepsLE_total (as bs : List Step) : (stepsLE as bs || stepsLE bs as) = true := by
  induction as generalizing bs with
  | nil => rfl
  | cons a as ih =>
    cases bs with
    | nil => rfl
    | cons b bs =>
      by_cases h : a = b
      · subst h
        simpa only [stepsLE, if_true] using ih bs
      · rw [stepsLE, stepsLE, if_neg h, if_neg (Ne.symm h)]
        exact Step.sorts_le.total a b

theorem sorts_stepsLE : Sorts stepsLE := ⟨fun _ _ _ => stepsLE_trans, stepsLE_total⟩

end Files

/-! ## Sorted lists of a discovery -/

namespace Discovery

section
variable {found found' : List Found} {commandsRoot : PathName}

/-- The templates of a discovery forget the order of `found`, where no two of them have one
identity. -/
theorem templates_ofFound_of_perm (h : ((ofFound found).templates.map (·.identity)).Nodup)
    (hp : found'.Perm found) : (ofFound found').templates = (ofFound found).templates := by
  refine (sorts_identityLE.comap Template.identity).mergeSort_eq (fun a ha b hb hab hba => ?_)
    (hp.filterMap _)
  exact List.inj_on_of_nodup_map h (List.mem_mergeSort.2 ha) (List.mem_mergeSort.2 hb)
    (identityLE_antisymm hab hba)

theorem unreadable_ofFound_of_perm (h : ((ofFound found).unreadable.map (·.identity)).Nodup)
    (hp : found'.Perm found) : (ofFound found').unreadable = (ofFound found).unreadable := by
  refine (sorts_identityLE.comap Unreadable.identity).mergeSort_eq (fun a ha b hb hab hba => ?_)
    (hp.filterMap _)
  exact List.inj_on_of_nodup_map h (List.mem_mergeSort.2 ha) (List.mem_mergeSort.2 hb)
    (identityLE_antisymm hab hba)

theorem partials_ofFound_of_perm
    (h : ∀ p ∈ (ofFound found).partials, ∀ q ∈ (ofFound found).partials, p.steps = q.steps → p = q)
    (hp : found'.Perm found) : (ofFound found').partials = (ofFound found).partials := by
  refine (sorts_stepsLE.comap PathName.steps).mergeSort_eq (fun p hp q hq hpq hqp => ?_)
    (hp.filterMap _)
  exact h p (List.mem_mergeSort.2 hp) q (List.mem_mergeSort.2 hq) (stepsLE_antisymm hpq hqp)

/-- A discovery that comes out the same from both ends of `found` has no two templates of one
identity. -/
theorem nodup_of_ofFound_reverse (hapart : found.Pairwise Apart)
    (h : ofFound found.reverse = ofFound found) :
    ((ofFound found).templates.map (·.identity)).Nodup ∧
      ((ofFound found).unreadable.map (·.identity)).Nodup := by
  have htemplates : (found.filterMap Found.template?).Nodup := by
    refine List.pairwise_filterMap.2 (hapart.imp fun {x y} hne t ht u hu htu => hne ?_)
    rw [Found.path_of_template? ht, Found.path_of_template? hu, htu]
  have hunreadable : (found.filterMap Found.unreadable?).Nodup := by
    refine List.pairwise_filterMap.2 (hapart.imp fun {x y} hne t ht u hu htu => hne ?_)
    rw [Found.path_of_unreadable? ht, Found.path_of_unreadable? hu, htu]
  obtain ⟨ht, hu, -⟩ := Discovery.mk.injEq .. ▸ h
  rw [List.filterMap_reverse] at ht hu
  constructor
  · exact (((List.mergeSort_perm _ _).map _).nodup_iff).2
      (sorts_identityLE.nodup_of_mergeSort_reverse htemplates ht)
  · exact (((List.mergeSort_perm _ _).map _).nodup_iff).2
      (sorts_identityLE.nodup_of_mergeSort_reverse hunreadable hu)

theorem path_eq_of_steps_eq {a b f g : FileName}
    (h : ((commandsRoot.join a.raw).join f.raw).steps =
      ((commandsRoot.join b.raw).join g.raw).steps) :
    (commandsRoot.join a.raw).join f.raw = (commandsRoot.join b.raw).join g.raw := by
  simp only [PathName.steps_join, List.append_assoc, List.append_cancel_left_eq,
    List.singleton_append, List.cons.injEq, Step.child.injEq, and_true] at h
  rw [h.1, h.2]

theorem partial_eq_of_steps_eq {w : Workspace} {root : PathName} {s : Settings} {d : Discovery}
    (h : search w root s = .ok d) {p q : PathName} (hp : p ∈ d.partials) (hq : q ∈ d.partials)
    (hsteps : p.steps = q.steps) : p = q := by
  obtain ⟨found, rfl, hfound, -⟩ := search_eq_ok h
  obtain ⟨a, f, hf⟩ := hfound _ (mem_partials_ofFound.1 hp)
  obtain ⟨b, g, hg⟩ := hfound _ (mem_partials_ofFound.1 hq)
  obtain rfl : p = _ := hf.path
  obtain rfl : q = _ := hg.path
  exact path_eq_of_steps_eq hsteps

end

/-! ## Workspaces that hold the same entries -/

section
variable {w v : Workspace} {s : Settings} {root commandsRoot directory : PathName}
  {kind : ScopeKind} {scopes scopes' : List FileName}

theorem examine_of_same (h : Same w v) (scope : String) :
    examine v s directory scope kind = examine w s directory scope kind := by
  funext name
  simp only [examine, h.isFile, h.readText]

/-- The search of `scope` fails in both workspaces, or finds the same entries in some order. -/
theorem searchScope_of_same (h : Same w v) (s : Settings) (commandsRoot : PathName)
    (scope : FileName) :
    (∃ e, searchScope w s commandsRoot scope = .error e ∧
        searchScope v s commandsRoot scope = .error e) ∨
      ∃ found found', searchScope w s commandsRoot scope = .ok found ∧
        searchScope v s commandsRoot scope = .ok found' ∧ found'.Perm found := by
  unfold searchScope
  dsimp only
  rw [h.isDirectory]
  split
  · rcases h.list (commandsRoot.join scope.raw) with ⟨e, hw, hv⟩ | ⟨names, names', hw, hv, hp⟩
    · rw [hw, hv]
      exact .inl ⟨e, rfl, rfl⟩
    · rw [hw, hv, examine_of_same h]
      exact .inr ⟨_, _, rfl, rfl, hp.filterMap _⟩
  · exact .inr ⟨_, _, rfl, rfl, .refl _⟩

theorem search_of_same (h : Same w v) (hlist : w.list (s.commandsRoot root) = .ok scopes)
    (hall : ∀ scope ∈ scopes, searchScope w s (s.commandsRoot root) scope =
      .ok (foundIn w s (s.commandsRoot root) scope)) :
    ∃ found', search v root s = .ok (ofFound found') ∧
      found'.Perm (scopes.flatMap (foundIn w s (s.commandsRoot root))) := by
  rcases h.list (s.commandsRoot root) with ⟨e, hw, -⟩ | ⟨names, scopes', hw, hv, hp⟩
  · cases hw.symm.trans hlist
  · cases hw.symm.trans hlist
    have hscope : ∀ scope ∈ scopes, searchScope v s (s.commandsRoot root) scope =
          .ok (foundIn v s (s.commandsRoot root) scope) ∧
        (foundIn v s (s.commandsRoot root) scope).Perm
          (foundIn w s (s.commandsRoot root) scope) := by
      intro scope hscope
      rcases searchScope_of_same h s (s.commandsRoot root) scope with
        ⟨e, hw, -⟩ | ⟨found, found', hw, hv, hp⟩
      · cases hw.symm.trans (hall scope hscope)
      · simp only [foundIn, hv, hw]
        exact ⟨rfl, hp⟩
    refine ⟨_, search_of_list hv fun scope hs => (hscope scope (hp.mem_iff.1 hs)).1, ?_⟩
    exact (hp.flatMap_right _).trans (List.Perm.flatMap_left _ fun scope hs => (hscope scope hs).2)

end

end Discovery

/-- A discovery fails in both workspaces, or puts together the entries `found` in one and `found'`
in the other, which differ in their order. -/
theorem Files.Workspace.Same.search {w v : Workspace} (h : Same w v) (root : PathName)
    (s : Settings) :
    (∃ e, Discovery.search w root s = .error e ∧ Discovery.search v root s = .error e) ∨
      ∃ found found', Discovery.search w root s = .ok (Discovery.ofFound found) ∧
        Discovery.search v root s = .ok (Discovery.ofFound found') ∧ found'.Perm found := by
  rcases Discovery.search_cases w root s with ⟨hroot, hw⟩ | hw | ⟨scopes, hl, hall, hw⟩
  · refine .inr ⟨[], [], hw, ?_, .refl _⟩
    have hroot' := (h.isDirectory (s.commandsRoot root)).trans hroot
    simp [Discovery.search, hroot']
  · rcases Discovery.search_cases v root s with ⟨hroot, hv⟩ | hv | ⟨scopes, hl, hall, -⟩
    · have hroot' := (h.symm.isDirectory (s.commandsRoot root)).trans hroot
      simp [Discovery.search, hroot'] at hw
    · exact .inl ⟨_, hw, hv⟩
    · obtain ⟨found, hfound, -⟩ := Discovery.search_of_same h.symm hl hall
      cases hw.symm.trans hfound
  · obtain ⟨found', hv, hp⟩ := Discovery.search_of_same h hl hall
    exact .inr ⟨_, found', hw, hv, hp⟩

/-- A discovery `d` records the same in both workspaces, partial files in the same order, and
templates too where no two of them have one identity. -/
theorem Files.Workspace.Same.discovery {w v : Workspace} {d : Discovery} {root : PathName}
    {s : Settings} (h : Same w v) (hd : Discovery.search w root s = .ok d) :
    ∃ d', Discovery.search v root s = .ok d' ∧
      (d'.templates.Perm d.templates ∧ d'.unreadable.Perm d.unreadable) ∧
      ((d.templates.map (·.identity)).Nodup → d'.templates = d.templates) ∧
      ((d.unreadable.map (·.identity)).Nodup → d'.unreadable = d.unreadable) ∧
      d'.partials = d.partials := by
  rcases h.search root s with ⟨e, hw, -⟩ | ⟨found, found', hw, hv, hp⟩
  · cases hw.symm.trans hd
  · cases hw.symm.trans hd
    refine ⟨_, hv, ⟨?_, ?_⟩, fun ht => Discovery.templates_ofFound_of_perm ht hp,
      fun hu => Discovery.unreadable_ofFound_of_perm hu hp,
      Discovery.partials_ofFound_of_perm (fun p hp q hq => ?_) hp⟩
    · exact ((List.mergeSort_perm _ _).trans (hp.filterMap _)).trans (List.mergeSort_perm _ _).symm
    · exact ((List.mergeSort_perm _ _).trans (hp.filterMap _)).trans (List.mergeSort_perm _ _).symm
    · exact Discovery.partial_eq_of_steps_eq hd hp hq

/-! ## The other way round -/

namespace Discovery

section
variable {w : Workspace} {a : w.tree.Listing} {s : Settings} {root commandsRoot : PathName}

theorem searchScope_reversed (scope : FileName) :
    searchScope (w.relisted a.reversed) s commandsRoot scope =
      (searchScope (w.relisted a) s commandsRoot scope).map List.reverse := by
  have hsame := w.same_relistings a a.reversed
  unfold searchScope
  dsimp only
  rw [hsame.isDirectory, list_reversed]
  split
  · rw [examine_of_same hsame]
    cases (w.relisted a).list (commandsRoot.join scope.raw) with
    | error e => rfl
    | ok names => exact congrArg Except.ok List.filterMap_reverse
  · rfl

/-- Where directories list their entries as `a.reversed` does, all is `found` in the opposite order.
-/
theorem search_reversed {d : Discovery} (h : search (w.relisted a) root s = .ok d) :
    ∃ found, d = ofFound found ∧ found.Pairwise Apart ∧
      search (w.relisted a.reversed) root s = .ok (ofFound found.reverse) := by
  have hsame := w.same_relistings a a.reversed
  rcases search_cases (w.relisted a) root s with ⟨hroot, hw⟩ | hw | ⟨scopes, hl, hall, hw⟩
  · cases hw.symm.trans h
    rw [← hsame.isDirectory] at hroot
    exact ⟨[], rfl, .nil, by simp [search, hroot]⟩
  · cases hw.symm.trans h
  · cases hw.symm.trans h
    refine ⟨_, rfl, pairwise_apart_flatMap ((w.relisted a).nodup_list hl), ?_⟩
    have hscope : ∀ scope ∈ scopes,
        searchScope (w.relisted a.reversed) s (s.commandsRoot root) scope =
          .ok (foundIn (w.relisted a) s (s.commandsRoot root) scope).reverse := by
      intro scope hscope
      rw [searchScope_reversed, hall scope hscope]
      rfl
    have hfound : ∀ scope ∈ scopes,
        foundIn (w.relisted a.reversed) s (s.commandsRoot root) scope =
          (foundIn (w.relisted a) s (s.commandsRoot root) scope).reverse := by
      intro scope hs
      rw [foundIn, hscope scope hs]
      rfl
    have hlist : (w.relisted a.reversed).list (s.commandsRoot root) = .ok scopes.reverse := by
      rw [list_reversed, hl]
      rfl
    rw [search_of_list hlist fun scope hs => ?_]
    · rw [List.flatMap_reverse, List.flatMap_congr fun scope hs => ?_]
      exact (congrArg List.reverse (hfound scope hs)).trans (List.reverse_reverse _)
    · rw [hfound scope (List.mem_reverse.1 hs)]
      exact hscope scope (List.mem_reverse.1 hs)

end

end Discovery

end AgentDocs
