import Mathlib.Data.List.TakeWhile
import AgentDocs.Proofs.Files.Listing
import AgentDocs.Template.Discovery

/-!
# What discovery finds

Every source that a discovery records is a file of its own, and the texts of the names of its
directory and of the file make its identity. With accepted settings the name of an agent leads back
to its identity, so different identities have different names.

* `splitExtension_eq_some_iff`: the names of files with an extension.
* `search_cases`, `search_eq_ok`: when a search succeeds, with each entry at its own path.
* `isFile_of_mem_sources`: the sources are files.
* `eq_of_name_eq`: agents with one name have one identity.
* `exists_fileName`: the name of the file of an agent can stand in a directory.
-/

namespace AgentDocs

open AgentDocs.Files AgentDocs.Files.Workspace

/-! ## Names -/

/-- The last dot cuts `name`, unless nothing stands in front of it. -/
theorem splitExtension_eq_some_iff {name stem extension : RawText} :
    splitExtension name = (stem, some extension) ↔
      stem.bytes ≠ [] ∧ dot ∉ extension.bytes ∧ name = stem ++ "." ++ extension := by
  have hbytes : (stem ++ "." ++ extension).bytes = stem.bytes ++ dot :: extension.bytes := by
    rw [RawText.bytes_append, RawText.bytes_append, List.append_assoc]
    rfl
  constructor
  · intro h
    simp only [splitExtension] at h
    split at h
    · cases h
    · next hs =>
      have hcut := List.takeWhile_append_dropWhile (p := (· != dot)) (l := name.bytes.reverse)
      have hdot : dot ∉ name.bytes.reverse.takeWhile (· != dot) := fun hm => by
        simpa using List.mem_takeWhile_imp hm
      simp only [Prod.mk.injEq, Option.some.injEq] at h
      obtain ⟨rfl, rfl⟩ := h
      rcases hd : name.bytes.reverse.dropWhile (· != dot) with _ | ⟨c, rest⟩
      · simp [hd] at hs
      · have hc : c = dot := by
          have := List.head_dropWhile_not (· != dot) (l := name.bytes.reverse) (by simp [hd])
          simpa [hd] using this
        subst hc
        rw [hd] at hcut hs hbytes
        refine ⟨by simpa using hs, by simpa using hdot, RawText.ext_bytes (hbytes.trans ?_).symm⟩
        simpa using congrArg List.reverse hcut
  · rintro ⟨hstem, hdot, rfl⟩
    have hp : (fun c : UInt8 => c != dot) = fun c => decide (c ≠ dot) := by
      funext c
      simp [bne, Bool.beq_eq_decide_eq]
    have hreverse : (stem ++ "." ++ extension).bytes.reverse =
        extension.bytes.reverse ++ dot :: stem.bytes.reverse := by
      rw [hbytes]
      simp
    obtain ⟨htake, hdrop⟩ := Identity.takeWhile_append_of_notMem (c := dot)
      (s := extension.bytes.reverse) (t := stem.bytes.reverse) (by simpa using hdot)
    simp only [splitExtension, hreverse, hp, htake, hdrop]
    simp [hstem]

/-! ## Entries of a directory -/

namespace Found

/-- The identity of an entry that is a template, readable or not. -/
def identity? : Found → Option Identity
  | template t => some t.identity
  | unreadable u => some u.identity
  | partialFile _ => none

/-- The path of an entry. -/
def path : Found → PathName
  | template t => t.path
  | unreadable u => u.path
  | partialFile path => path

variable {x : Found}

theorem path_of_template? {t : Template} (h : x.template? = some t) : x.path = t.path := by
  cases x <;> cases h
  rfl

theorem path_of_unreadable? {u : Unreadable} (h : x.unreadable? = some u) : x.path = u.path := by
  cases x <;> cases h
  rfl

theorem path_of_partial? {p : PathName} (h : x.partial? = some p) : x.path = p := by
  cases x <;> cases h
  rfl

end Found

namespace Discovery

section
variable {w : Workspace} {s : Settings} {directory commandsRoot : PathName} {scope : String}
  {kind : ScopeKind} {name : FileName} {x : Found}

/-- What is found under `name` is the file there, and its identity comes from the name. -/
theorem examine_eq_some (h : examine w s directory scope kind name = some x) :
    x.path = directory.join name.raw ∧ w.isFile (directory.join name.raw) = true ∧
      ∃ stem : RawText, stem.bytes ≠ [] ∧ name.raw = stem ++ "." ++ templateExtension ∧
        ∀ i, x.identity? = some i → i = ⟨scope, stem.text⟩ := by
  simp only [examine] at h
  rcases hs : splitExtension name.raw with ⟨stem, extension⟩
  rw [hs] at h
  dsimp only at h
  split at h
  · cases h
  · next hc =>
    obtain ⟨rfl, hfile⟩ : extension = some (RawText.ofString templateExtension) ∧
        w.isFile (directory.join name.raw) = true := by
      simpa using hc
    obtain ⟨hstem, -, hname⟩ := splitExtension_eq_some_iff.1 hs
    split at h
    · cases h
      exact ⟨rfl, hfile, stem, hstem, hname, fun i hi => by cases hi⟩
    · split at h
      · cases h
        exact ⟨rfl, hfile, stem, hstem, hname, fun i hi => (Option.some.inj hi).symm⟩
      · cases h
        exact ⟨rfl, hfile, stem, hstem, hname, fun i hi => (Option.some.inj hi).symm⟩

/-- The entry `x` was found in the directory of the scope `scope` under the name `file`. -/
structure FoundAt (w : Workspace) (s : Settings) (commandsRoot : PathName) (scope file : FileName)
    (x : Found) : Prop where
  path : x.path = (commandsRoot.join scope.raw).join file.raw
  isFile : w.isFile x.path = true
  kind : ∃ kind, scopeKind? s scope.text = some kind
  identity : ∃ stem : RawText, stem.bytes ≠ [] ∧ file.raw = stem ++ "." ++ templateExtension ∧
    ∀ i, x.identity? = some i → i = ⟨scope.text, stem.text⟩

/-- Two entries do not stand at one path. -/
def Apart (x y : Found) : Prop := x.path ≠ y.path

/-- The path of a file in the directory of a scope tells both names. -/
theorem names_eq_of_path_eq {a b f g : FileName}
    (h : (commandsRoot.join a.raw).join f.raw = (commandsRoot.join b.raw).join g.raw) :
    a = b ∧ f = g := by
  simpa [PathName.steps_join] using congrArg PathName.steps h

/-- What is found in the directory of a scope, in listing order. -/
def foundIn (w : Workspace) (s : Settings) (commandsRoot : PathName) (scope : FileName) :
    List Found :=
  (searchScope w s commandsRoot scope).toOption.getD []

theorem searchScope_cases (w : Workspace) (s : Settings) (commandsRoot : PathName)
    (scope : FileName) :
    searchScope w s commandsRoot scope = .error .permissionDenied ∨
      searchScope w s commandsRoot scope = .ok (foundIn w s commandsRoot scope) := by
  unfold foundIn searchScope
  dsimp only
  split
  · next hd _ =>
    rcases list_of_isDirectory hd with hl | ⟨names, hl⟩
    · rw [hl]
      exact .inl rfl
    · rw [hl]
      exact .inr rfl
  · exact .inr rfl

theorem exists_of_mem_foundIn {scope : FileName} (h : x ∈ foundIn w s commandsRoot scope) :
    ∃ (names : List FileName) (kind : ScopeKind) (file : FileName),
      w.list (commandsRoot.join scope.raw) = .ok names ∧ scopeKind? s scope.text = some kind ∧
        file ∈ names ∧ examine w s (commandsRoot.join scope.raw) scope.text kind file = some x := by
  unfold foundIn searchScope at h
  dsimp only at h
  split at h
  · next kind hd hk =>
    rcases list_of_isDirectory hd with hl | ⟨names, hl⟩
    · rw [hl] at h
      cases h
    · rw [hl] at h
      obtain ⟨file, hfile, he⟩ := List.mem_filterMap.1 h
      exact ⟨names, kind, file, hl, hk, hfile, he⟩
  · cases h

theorem foundAt_of_mem_foundIn {scope : FileName} (h : x ∈ foundIn w s commandsRoot scope) :
    ∃ file, FoundAt w s commandsRoot scope file x := by
  obtain ⟨-, kind, file, -, hk, -, he⟩ := exists_of_mem_foundIn h
  obtain ⟨hpath, hfile, hid⟩ := examine_eq_some he
  exact ⟨file, hpath, hpath ▸ hfile, ⟨kind, hk⟩, hid⟩

theorem pairwise_apart_foundIn (w : Workspace) (s : Settings) (commandsRoot : PathName)
    (scope : FileName) : (foundIn w s commandsRoot scope).Pairwise Apart := by
  unfold foundIn searchScope
  dsimp only
  split
  · next hd _ =>
    rcases list_of_isDirectory hd with hl | ⟨names, hl⟩
    · rw [hl]
      exact .nil
    · rw [hl]
      refine List.pairwise_filterMap.2 ((w.nodup_list hl).imp fun hne x hx y hy hpath => hne ?_)
      rw [(examine_eq_some hx).1, (examine_eq_some hy).1] at hpath
      exact (names_eq_of_path_eq hpath).2
  · exact .nil

theorem pairwise_apart_flatMap {scopes : List FileName} (hn : scopes.Nodup) :
    (scopes.flatMap (foundIn w s commandsRoot)).Pairwise Apart := by
  refine List.pairwise_flatMap.2 ⟨fun scope _ => pairwise_apart_foundIn w s commandsRoot scope,
    hn.imp fun hne x hx y hy hpath => hne ?_⟩
  obtain ⟨f, hf⟩ := foundAt_of_mem_foundIn hx
  obtain ⟨g, hg⟩ := foundAt_of_mem_foundIn hy
  rw [hf.path, hg.path] at hpath
  exact (names_eq_of_path_eq hpath).1

end

/-! ## Searches -/

section
variable {α β ε : Type} {f : α → Except ε β} {g : α → β} {e : ε} {l : List α}

theorem mapM_eq_ok (h : ∀ a ∈ l, f a = .ok (g a)) : l.mapM f = .ok (l.map g) := by
  induction l with
  | nil => rfl
  | cons a rest ih =>
    rw [List.forall_mem_cons] at h
    rw [List.mapM_cons, h.1, ih h.2]
    rfl

theorem mapM_eq_error_or (h : ∀ a, f a = .error e ∨ f a = .ok (g a)) (l : List α) :
    l.mapM f = .error e ∨ ∀ a ∈ l, f a = .ok (g a) := by
  induction l with
  | nil => exact .inr (by simp)
  | cons a rest ih =>
    rw [List.mapM_cons]
    rcases h a with ha | ha
    · rw [ha]
      exact .inl rfl
    · rcases ih with ih | ih
      · rw [ha, ih]
        exact .inl rfl
      · exact .inr (List.forall_mem_cons.2 ⟨ha, ih⟩)

end

section
variable {w : Workspace} {root : PathName} {s : Settings} {scopes : List FileName}

theorem isDirectory_of_list {p : PathName} {names : List FileName} (h : w.list p = .ok names) :
    w.isDirectory p = true := by
  obtain ⟨dir, hdir, -⟩ := list_eq_ok_iff.1 h
  obtain ⟨hr, hd, -⟩ := openDirectory_eq_ok_iff.1 hdir
  simpa [Workspace.isDirectory, entry?, hr, FileTree.isDirectory] using hd

theorem search_of_list (hlist : w.list (s.commandsRoot root) = .ok scopes)
    (hall : ∀ scope ∈ scopes, searchScope w s (s.commandsRoot root) scope =
      .ok (foundIn w s (s.commandsRoot root) scope)) :
    search w root s = .ok (ofFound (scopes.flatMap (foundIn w s (s.commandsRoot root)))) := by
  simp only [search, isDirectory_of_list hlist, Bool.not_true, Bool.false_eq_true, if_false, hlist,
    mapM_eq_ok hall, bind, Except.bind, pure, Except.pure, ofFile, Except.mapError,
    List.flatMap_def]

/-- All that a search can come to: there is nothing to search, something may not be listed, or what
is found in all scopes is put together. -/
theorem search_cases (w : Workspace) (root : PathName) (s : Settings) :
    (w.isDirectory (s.commandsRoot root) = false ∧ search w root s = .ok (ofFound [])) ∨
      search w root s = .error (.file .permissionDenied) ∨
      ∃ scopes, w.list (s.commandsRoot root) = .ok scopes ∧
        (∀ scope ∈ scopes, searchScope w s (s.commandsRoot root) scope =
          .ok (foundIn w s (s.commandsRoot root) scope)) ∧
        search w root s = .ok (ofFound (scopes.flatMap (foundIn w s (s.commandsRoot root)))) := by
  cases hroot : w.isDirectory (s.commandsRoot root) with
  | false => exact .inl ⟨rfl, by simp [search, hroot]⟩
  | true =>
    refine .inr ?_
    rcases list_of_isDirectory hroot with hl | ⟨scopes, hl⟩
    · exact .inl (by simp [search, hroot, hl, bind, Except.bind, ofFile, Except.mapError])
    · rcases mapM_eq_error_or (searchScope_cases w s (s.commandsRoot root)) scopes with hm | hall
      · exact .inl (by simp [search, hroot, hl, hm, bind, Except.bind, ofFile, Except.mapError])
      · exact .inr ⟨scopes, hl, hall, search_of_list hl hall⟩

/-- A search fails only where a directory is `sealed`. -/
theorem exists_search (hs : w.sealed = []) (root : PathName) (s : Settings) :
    ∃ d, search w root s = .ok d := by
  cases hroot : w.isDirectory (s.commandsRoot root) with
  | false => exact ⟨ofFound [], by simp [search, hroot]⟩
  | true =>
    obtain ⟨scopes, hlist⟩ := exists_list hs hroot
    refine ⟨_, search_of_list hlist fun scope _ => ?_⟩
    refine (searchScope_cases w s _ scope).resolve_left fun hscope => ?_
    simp only [searchScope] at hscope
    split at hscope
    · next hd _ =>
      obtain ⟨names, hnames⟩ := exists_list hs hd
      rw [hnames] at hscope
      cases hscope
    · cases hscope

theorem search_of_pair {scope : FileName} {a b : Template}
    (hroot : w.isDirectory (s.commandsRoot root) = true)
    (hscopes : w.list (s.commandsRoot root) = .ok [scope])
    (hfound : searchScope w s (s.commandsRoot root) scope = .ok [.template a, .template b])
    (hsorted : [a, b].Pairwise fun s t => identityLE s.identity t.identity) :
    search w root s = .ok ⟨[a, b], [], []⟩ := by
  have h := List.mergeSort_of_pairwise hsorted
  have ho : ofFound [.template a, .template b] = ⟨[a, b], [], []⟩ := by
    simp only [ofFound, List.filterMap_cons, List.filterMap_nil, Found.template?,
      Found.unreadable?, Found.partial?, List.mergeSort_nil, h]
  simp only [search, hroot, hscopes, hfound, List.mapM_cons, List.mapM_nil, bind, Except.bind, pure,
    Except.pure, ofFile, Except.mapError, Bool.not_true, Bool.false_eq_true, if_false,
    List.flatten_cons, List.flatten_nil, List.append_nil, ho]

end

/-! ## Discoveries -/

/-- The paths of all sources that a discovery records. -/
def sources (d : Discovery) : List PathName :=
  d.templates.map (·.path) ++ d.unreadable.map (·.path) ++ d.partials

/-- The three lists of a discovery are all that is `found`. -/
theorem perm_sources_ofFound (found : List Found) :
    (ofFound found).sources.Perm (found.map Found.path) := by
  have hperm : ((found.filterMap Found.template?).map (·.path) ++
      (found.filterMap Found.unreadable?).map (·.path) ++
      found.filterMap Found.partial?).Perm (found.map Found.path) := by
    induction found with
    | nil => exact .refl _
    | cons x rest ih =>
      cases x with
      | template t => exact ih.cons t.path
      | unreadable u =>
        simp only [List.append_assoc] at ih ⊢
        exact List.perm_middle.trans (ih.cons u.path)
      | partialFile path => exact List.perm_middle.trans (ih.cons path)
  refine (List.Perm.append (List.Perm.append ?_ ?_) ?_).trans hperm
  · exact (List.mergeSort_perm _ _).map _
  · exact (List.mergeSort_perm _ _).map _
  · exact List.mergeSort_perm _ _

section
variable {w : Workspace} {root : PathName} {s : Settings} {d : Discovery}

theorem search_eq_ok (h : search w root s = .ok d) :
    ∃ found, d = ofFound found ∧
      (∀ x ∈ found, ∃ scope file, FoundAt w s (s.commandsRoot root) scope file x) ∧
      found.Pairwise Apart := by
  rcases search_cases w root s with ⟨-, hs⟩ | hs | ⟨scopes, hl, -, hs⟩
  · cases hs.symm.trans h
    exact ⟨[], rfl, by simp, .nil⟩
  · cases hs.symm.trans h
  · cases hs.symm.trans h
    refine ⟨_, rfl, fun x hx => ?_, pairwise_apart_flatMap (w.nodup_list hl)⟩
    obtain ⟨scope, -, hx⟩ := List.mem_flatMap.1 hx
    exact ⟨scope, foundAt_of_mem_foundIn hx⟩

theorem nodup_sources (h : search w root s = .ok d) : d.sources.Nodup := by
  obtain ⟨found, rfl, -, hapart⟩ := search_eq_ok h
  exact (perm_sources_ofFound found).nodup_iff.2 (List.pairwise_map.2 hapart)

theorem mem_templates_ofFound {found : List Found} {t : Template} :
    t ∈ (ofFound found).templates ↔ .template t ∈ found := by
  simp only [ofFound, List.mem_mergeSort, List.mem_filterMap]
  constructor
  · rintro ⟨x, hx, ht⟩
    cases x with
    | template t' => cases ht; exact hx
    | unreadable u => cases ht
    | partialFile path => cases ht
  · exact fun h => ⟨_, h, rfl⟩

theorem mem_unreadable_ofFound {found : List Found} {u : Unreadable} :
    u ∈ (ofFound found).unreadable ↔ .unreadable u ∈ found := by
  simp only [ofFound, List.mem_mergeSort, List.mem_filterMap]
  constructor
  · rintro ⟨x, hx, hu⟩
    cases x with
    | template t => cases hu
    | unreadable u' => cases hu; exact hx
    | partialFile path => cases hu
  · exact fun h => ⟨_, h, rfl⟩

theorem mem_partials_ofFound {found : List Found} {path : PathName} :
    path ∈ (ofFound found).partials ↔ .partialFile path ∈ found := by
  simp only [ofFound, List.mem_mergeSort, List.mem_filterMap]
  constructor
  · rintro ⟨x, hx, hp⟩
    cases x with
    | template t => cases hp
    | unreadable u => cases hp
    | partialFile path' => cases hp; exact hx
  · exact fun h => ⟨_, h, rfl⟩

theorem isFile_of_mem_sources (h : search w root s = .ok d) {path : PathName}
    (hp : path ∈ d.sources) : w.isFile path = true := by
  obtain ⟨found, rfl, hall, -⟩ := search_eq_ok h
  simp only [sources, List.mem_append, List.mem_map] at hp
  obtain ⟨x, hx, rfl⟩ : ∃ x ∈ found, x.path = path := by
    rcases hp with (⟨t, ht, rfl⟩ | ⟨u, hu, rfl⟩) | hp
    · exact ⟨_, mem_templates_ofFound.1 ht, rfl⟩
    · exact ⟨_, mem_unreadable_ofFound.1 hu, rfl⟩
    · exact ⟨_, mem_partials_ofFound.1 hp, rfl⟩
  obtain ⟨scope, file, hfound⟩ := hall x hx
  exact hfound.isFile

/-! ## Identities -/

theorem perm_identities_ofFound (found : List Found) :
    (ofFound found).identities.Perm (found.filterMap Found.identity?) := by
  have hperm : ((found.filterMap Found.template?).map (·.identity) ++
      (found.filterMap Found.unreadable?).map (·.identity)).Perm
      (found.filterMap Found.identity?) := by
    induction found with
    | nil => exact .refl _
    | cons x rest ih =>
      cases x with
      | template t => exact ih.cons t.identity
      | unreadable u => exact List.perm_middle.trans (ih.cons u.identity)
      | partialFile path => exact ih
  refine (List.Perm.append ?_ ?_).trans hperm
  · exact (List.mergeSort_perm _ _).map _
  · exact (List.mergeSort_perm _ _).map _

theorem exists_of_mem_identities (h : search w root s = .ok d) {i : Identity}
    (hi : i ∈ d.identities) :
    ∃ (scope file : FileName) (stem : RawText), (∃ kind, scopeKind? s scope.text = some kind) ∧
      stem.bytes ≠ [] ∧ file.raw = stem ++ "." ++ templateExtension ∧
      i = ⟨scope.text, stem.text⟩ := by
  obtain ⟨found, rfl, hall, -⟩ := search_eq_ok h
  obtain ⟨x, hx, hxi⟩ := List.mem_filterMap.1 ((perm_identities_ofFound found).mem_iff.1 hi)
  obtain ⟨scope, file, hx⟩ := hall x hx
  obtain ⟨stem, hstem, hfile, hid⟩ := hx.identity
  exact ⟨scope, file, stem, hx.kind, hstem, hfile, hid i hxi⟩

theorem command_ne_of_mem (h : search w root s = .ok d) {i : Identity} (hi : i ∈ d.identities) :
    i.command ≠ "" := by
  obtain ⟨-, -, stem, -, hstem, -, rfl⟩ := exists_of_mem_identities h hi
  exact mt RawText.text_eq_empty_iff.1 hstem

/-- The file of an agent that has a template can stand in a directory. -/
theorem exists_fileName (h : search w root s = .ok d) {i : Identity} (hi : i ∈ d.identities) :
    ∃ f : FileName, f.raw = fileName i.name := by
  obtain ⟨scope, file, stem, -, -, hf, rfl⟩ := exists_of_mem_identities h hi
  have hslash : '/' ∉ (Identity.name ⟨scope.text, stem.text⟩).toList := by
    have hstem : separator ∉ stem.bytes := fun hm => file.separator_notMem_bytes (by
      rw [hf]
      exact List.mem_append_left _ (List.mem_append_left _ hm))
    simp only [Identity.name, String.toList_append, List.mem_append, not_or]
    exact ⟨⟨scope.slash_notMem_text, by decide⟩, RawText.slash_notMem_text hstem⟩
  exact ⟨⟨_, isFileName_of_append (congrArg RawText.bytes (RawText.ofString_append _ _))
    (RawText.separator_notMem_bytes hslash) (by decide) (by decide)⟩, rfl⟩

theorem scopeKind?_eq_some_iff {scope : String} {kind : ScopeKind} :
    scopeKind? s scope = some kind ↔
      (isOperational scope = true ∨ s.isNamespace scope = true) ∧
        kind = if isOperational scope = true then .role else .namespaced := by
  unfold scopeKind?
  cases isOperational scope <;> cases s.isNamespace scope <;> simp [eq_comm]

theorem isNamespaceName_of_scopeKind? (ha : s.isAccepted = true) {scope : String}
    {kind : ScopeKind} (h : scopeKind? s scope = some kind) :
    Settings.isNamespaceName scope = true := by
  rcases (scopeKind?_eq_some_iff.1 h).1 with ho | hn
  · have hm : scope ∈ operationalRoles := by simpa [isOperational] using ho
    have hall : ∀ role ∈ operationalRoles, Settings.isNamespaceName role = true := by decide
    exact hall scope hm
  · have hm : scope ∈ s.namespaces := by simpa [Settings.isNamespace] using hn
    exact (Settings.isNamespace_of_accepted ha hm).2

/-- With accepted settings the name of an agent of a known scope is read back, whatever hyphens its
command has. -/
theorem ofName?_name_of_scopeKind? (ha : s.isAccepted = true) {i : Identity} {kind : ScopeKind}
    (h : scopeKind? s i.scope = some kind) (hc : i.command ≠ "") :
    Identity.ofName? i.name = some i := by
  have hname := isNamespaceName_of_scopeKind? ha h
  simp only [Settings.isNamespaceName, Bool.and_eq_true, Bool.not_eq_true'] at hname
  exact Identity.ofName?_name (by simpa using hname.1.1) hc (by simpa using hname.1.2)

theorem ofName?_name_of_mem (h : search w root s = .ok d) (ha : s.isAccepted = true) {i : Identity}
    (hi : i ∈ d.identities) : Identity.ofName? i.name = some i := by
  have hc := command_ne_of_mem h hi
  obtain ⟨scope, -, stem, ⟨kind, hkind⟩, -, -, rfl⟩ := exists_of_mem_identities h hi
  exact ofName?_name_of_scopeKind? ha hkind hc

/-- With accepted settings no two identities of `d` have one name. -/
theorem eq_of_name_eq (h : search w root s = .ok d) (ha : s.isAccepted = true) {i j : Identity}
    (hi : i ∈ d.identities) (hj : j ∈ d.identities) (hij : i.name = j.name) : i = j := by
  have hback := ofName?_name_of_mem h ha hi
  rw [hij, ofName?_name_of_mem h ha hj] at hback
  exact (Option.some.inj hback).symm

end

end Discovery

/-! ## Workspaces with templates -/

/-- The location of the templates of a role. -/
def roleDirectory : Location :=
  [⟨"pm", by decide⟩, ⟨"commands", by decide⟩, ⟨"templates", by decide⟩]

/-- The workspace in which one file stands there. -/
def workspaceWith (f : FileName) (text : String) : Workspace where
  tree := (((FileTree.empty.insert (roleDirectory.drop 2) .directory).insert
    (roleDirectory.drop 1) .directory).insert roleDirectory .directory).insert
      (f :: roleDirectory) (.file text.toUTF8)
  start := []
  sealed := []

/-- A name of a template that ends with a byte which is no text. -/
def blurredName (byte : UInt8) (h : isFileName ⟨[97, byte, dot, 109, 100]⟩ = true) : FileName :=
  ⟨⟨[97, byte, dot, 109, 100]⟩, h⟩

/-- The template in a file of such a name. -/
def blurredTemplate (byte : UInt8) (text : String) : Template :=
  ⟨⟨"pm", "a\ufffd"⟩, .role, ⟨"./templates/commands/pm/a" ++ ⟨[byte]⟩ ++ ".md"⟩, text⟩

/-- A workspace with two templates whose names differ and are shown alike. -/
def lookalikeWorkspace : Workspace :=
  (workspaceWith (blurredName 255 (by decide)) "one").put
    (blurredName 254 (by decide) :: roleDirectory) (.file "two".toUTF8)

/-- The discovery of the two templates. -/
def lookalikeDiscovery : Discovery where
  templates := [blurredTemplate 254 "two", blurredTemplate 255 "one"]
  unreadable := []
  partials := []

theorem search_lookalike :
    Discovery.search lookalikeWorkspace ⟨"."⟩ .standard = .ok lookalikeDiscovery := by
  have hfound : lookalikeWorkspace.isDirectory (Settings.standard.commandsRoot ⟨"."⟩) = true ∧
      lookalikeWorkspace.list (Settings.standard.commandsRoot ⟨"."⟩) = .ok [⟨"pm", by decide⟩] ∧
      Discovery.searchScope lookalikeWorkspace .standard (Settings.standard.commandsRoot ⟨"."⟩)
        ⟨"pm", by decide⟩ =
          .ok [.template (blurredTemplate 254 "two"), .template (blurredTemplate 255 "one")] := by
    decide +kernel
  obtain ⟨hroot, hscopes, hscope⟩ := hfound
  exact Discovery.search_of_pair hroot hscopes hscope (List.pairwise_pair.2 (by decide +kernel))

end AgentDocs
