import AgentDocs.Proofs.Files.Place
import AgentDocs.Proofs.Template.Sorted

/-!
# The inventory of a discovery

The files that a discovery is about are described by the tree and the settings alone: they stand
under the name of a template in the directory of a known scope. Each of them is recorded once, as
its name and its bytes say, and nothing else is recorded. Sources are told apart by their paths.
They are sorted by what their names show, which two of them may have in common.

* `Source`: a file that a discovery is about, and `Source.record`, what it is recorded as.
* `Source.eq_of_path_eq`, `Source.eq_of_identity_eq`: what tells sources apart.
* `mem_foundIn_iff`: what is found in a directory are the records of its sources.
* `exists_found`: a discovery finds the records of all sources.
* `search_exact`: its lists, with their order.
* `search_passes_over`: a link that can be followed, but not from where the search comes.
-/

namespace AgentDocs

open AgentDocs.Files AgentDocs.Files.Workspace

namespace Discovery

theorem isPartial_iff {s : Settings} {stem : String} :
    isPartial s stem = true ↔ s.partialMark ≠ "" ∧ s.partialMark.toList <+: stem.toList := by
  simp [isPartial]

/-! ## Sources -/

/-- A file under the name of a template in the directory of a known scope. Links are followed on the
way to it. -/
structure Source (w : Workspace) (s : Settings) (commandsRoot : PathName) where
  scope : FileName
  file : FileName
  stem : RawText
  bytes : ByteArray
  known : isOperational scope.text = true ∨ s.isNamespace scope.text = true
  stem_ne : stem.bytes ≠ []
  named : file.raw = stem ++ "." ++ templateExtension
  inRoot : w.Lists commandsRoot scope
  inScope : w.Lists (commandsRoot.join scope.raw) file
  contents : w.contents? ((commandsRoot.join scope.raw).join file.raw) = some bytes

namespace Source

variable {w : Workspace} {s : Settings} {commandsRoot : PathName}

/-- The path of a source. -/
def path (x : Source w s commandsRoot) : PathName :=
  (commandsRoot.join x.scope.raw).join x.file.raw

/-- The identity of a source: what the name of its scope shows, and what its stem shows. -/
def identity (x : Source w s commandsRoot) : Identity := ⟨x.scope.text, x.stem.text⟩

/-- The kind of its scope. -/
def kind (x : Source w s commandsRoot) : ScopeKind :=
  if isOperational x.scope.text = true then .role else .namespaced

/-- The source is a partial file. -/
def IsPartial (x : Source w s commandsRoot) : Prop :=
  s.partialMark ≠ "" ∧ s.partialMark.toList <+: x.stem.text.toList

instance (x : Source w s commandsRoot) : Decidable x.IsPartial :=
  inferInstanceAs (Decidable (_ ∧ _))

/-- What a source is recorded as. -/
def record (x : Source w s commandsRoot) : Found :=
  if x.IsPartial then .partialFile x.path
  else
    match String.fromUTF8? x.bytes with
    | some text => .template ⟨x.identity, x.kind, x.path, text⟩
    | none => .unreadable ⟨x.identity, x.kind, x.path, .invalidEncoding⟩

theorem command_ne (x : Source w s commandsRoot) : x.identity.command ≠ "" :=
  mt RawText.text_eq_empty_iff.1 x.stem_ne

/-- No two sources stand at one `path`. -/
theorem eq_of_path_eq {x y : Source w s commandsRoot} (h : x.path = y.path) : x = y := by
  have hnames : x.scope = y.scope ∧ x.file = y.file := names_eq_of_path_eq h
  have hstem : x.stem = y.stem := by
    have hx : splitExtension x.file.raw = (x.stem, some (RawText.ofString templateExtension)) :=
      splitExtension_eq_some_iff.2 ⟨x.stem_ne, by decide, x.named⟩
    rw [hnames.2, splitExtension_eq_some_iff.2 ⟨y.stem_ne, by decide, y.named⟩] at hx
    exact (Prod.mk.inj hx).1.symm
  have hbytes : x.bytes = y.bytes := by
    have hx := x.contents
    rw [hnames.1, hnames.2] at hx
    exact Option.some.inj (hx.symm.trans y.contents)
  cases x
  cases y
  obtain ⟨rfl, rfl⟩ := hnames
  cases hstem
  cases hbytes
  rfl

/-- The names of a source are texts, so that nothing is lost where they are shown. -/
def IsShown (x : Source w s commandsRoot) : Prop :=
  x.scope.raw.text?.isSome = true ∧ x.stem.text?.isSome = true

/-- Sources whose names are texts are told apart by their `identity`. -/
theorem eq_of_identity_eq {x y : Source w s commandsRoot} (hx : x.IsShown) (hy : y.IsShown)
    (h : x.identity = y.identity) : x = y := by
  have hscope : x.scope = y.scope :=
    FileName.raw_injective (RawText.eq_of_text_eq hx.1 hy.1 (congrArg Identity.scope h))
  have hstem : x.stem = y.stem := RawText.eq_of_text_eq hx.2 hy.2 (congrArg Identity.command h)
  refine eq_of_path_eq ?_
  rw [path, path, x.named, y.named, hscope, hstem]

theorem path_record (x : Source w s commandsRoot) : x.record.path = x.path := by
  unfold record
  split
  · rfl
  · split <;> rfl

theorem identity?_record (x : Source w s commandsRoot) :
    x.record.identity? = if x.IsPartial then none else some x.identity := by
  unfold record
  split
  · rfl
  · split <;> rfl

theorem record_eq_template_iff (x : Source w s commandsRoot) {t : Template} :
    x.record = .template t ↔ ¬ x.IsPartial ∧
      ∃ text, String.fromUTF8? x.bytes = some text ∧ t = ⟨x.identity, x.kind, x.path, text⟩ := by
  unfold record
  by_cases hx : x.IsPartial
  · simp [hx]
  · cases String.fromUTF8? x.bytes <;> simp [hx, eq_comm]

theorem record_eq_unreadable_iff (x : Source w s commandsRoot) {u : Unreadable} :
    x.record = .unreadable u ↔ ¬ x.IsPartial ∧
      String.fromUTF8? x.bytes = none ∧ u = ⟨x.identity, x.kind, x.path, .invalidEncoding⟩ := by
  unfold record
  by_cases hx : x.IsPartial
  · simp [hx]
  · cases String.fromUTF8? x.bytes <;> simp [hx, eq_comm]

theorem record_eq_partialFile_iff (x : Source w s commandsRoot) {p : PathName} :
    x.record = .partialFile p ↔ x.IsPartial ∧ p = x.path := by
  unfold record
  by_cases hx : x.IsPartial
  · simp [hx, eq_comm]
  · cases String.fromUTF8? x.bytes <;> simp [hx]

theorem scopeKind?_scope (x : Source w s commandsRoot) :
    scopeKind? s x.scope.text = some x.kind :=
  scopeKind?_eq_some_iff.2 ⟨x.known, rfl⟩

end Source

section
variable {w : Workspace} {s : Settings} {root commandsRoot directory : PathName}
  {scope name : FileName} {kind : ScopeKind} {y : Found}

theorem examine_source (x : Source w s commandsRoot) :
    examine w s (commandsRoot.join x.scope.raw) x.scope.text x.kind x.file = some x.record := by
  have hsplit : splitExtension x.file.raw = (x.stem, some (RawText.ofString templateExtension)) :=
    splitExtension_eq_some_iff.2 ⟨x.stem_ne, by decide, x.named⟩
  have hfile : w.isFile ((commandsRoot.join x.scope.raw).join x.file.raw) = true :=
    isFile_iff_contents?.2 ⟨x.bytes, x.contents⟩
  have hpartial : isPartial s x.stem.text = true ↔ x.IsPartial := isPartial_iff
  simp only [examine, hsplit, hfile, readText_of_contents? x.contents, hpartial]
  unfold Source.record
  by_cases hx : x.IsPartial
  · simp only [if_pos hx]
    rfl
  · simp only [if_neg hx]
    cases String.fromUTF8? x.bytes <;> rfl

/-- What is found in the directory of `scope`, where it is listed, are the records of the sources in
it. -/
theorem mem_foundIn_iff (hroot : w.Lists commandsRoot scope)
    (hscope : searchScope w s commandsRoot scope = .ok (foundIn w s commandsRoot scope)) :
    y ∈ foundIn w s commandsRoot scope ↔
      ∃ x : Source w s commandsRoot, x.scope = scope ∧ x.record = y := by
  constructor
  · intro h
    obtain ⟨names, kind, file, hlist, hk, hfile, hy⟩ := exists_of_mem_foundIn h
    obtain ⟨-, hisFile, stem, hstem, hname, -⟩ := examine_eq_some hy
    obtain ⟨bytes, hb⟩ := isFile_iff_contents?.1 hisFile
    obtain ⟨hknown, rfl⟩ := scopeKind?_eq_some_iff.1 hk
    refine ⟨⟨scope, file, stem, bytes, hknown, hstem, hname, hroot,
      (mem_list_iff hlist).1 hfile, hb⟩, rfl, ?_⟩
    exact Option.some.inj ((examine_source _).symm.trans hy)
  · rintro ⟨x, rfl, rfl⟩
    simp only [searchScope, x.inScope.isDirectory, x.scopeKind?_scope] at hscope
    rcases list_of_isDirectory x.inScope.isDirectory with hlist | ⟨names, hlist⟩
    · rw [hlist] at hscope
      cases hscope
    · rw [hlist] at hscope
      rw [← Except.ok.inj hscope]
      exact List.mem_filterMap.2 ⟨x.file, (mem_list_iff hlist).2 x.inScope, examine_source x⟩

/-! ## What is found -/

/-- A discovery `d` puts the records of all sources together, each of them `found` once. -/
theorem exists_found {d : Discovery} (h : search w root s = .ok d) :
    ∃ found, d = ofFound found ∧ found.Pairwise Apart ∧
      ∀ y, y ∈ found ↔ ∃ x : Source w s (s.commandsRoot root), x.record = y := by
  rcases search_cases w root s with ⟨hroot, hs⟩ | hs | ⟨scopes, hlist, hall, hs⟩
  · cases hs.symm.trans h
    refine ⟨[], rfl, .nil, fun y => iff_of_false (by simp) ?_⟩
    rintro ⟨x, -⟩
    rw [x.inRoot.isDirectory] at hroot
    cases hroot
  · cases hs.symm.trans h
  · cases hs.symm.trans h
    refine ⟨_, rfl, pairwise_apart_flatMap (w.nodup_list hlist), fun y => ?_⟩
    rw [List.mem_flatMap]
    constructor
    · rintro ⟨scope, hscope, hy⟩
      obtain ⟨x, -, hx⟩ :=
        (mem_foundIn_iff ((mem_list_iff hlist).1 hscope) (hall scope hscope)).1 hy
      exact ⟨x, hx⟩
    · rintro ⟨x, hx⟩
      have hscope := (mem_list_iff hlist).2 x.inRoot
      exact ⟨x.scope, hscope, (mem_foundIn_iff x.inRoot (hall _ hscope)).2 ⟨x, rfl, hx⟩⟩

end

/-! ## The lists of a discovery -/

/-- An identity stands in front of another: its scope does, or its command in the same scope. -/
def Before (i j : Identity) : Prop := i.scope < j.scope ∨ i.scope = j.scope ∧ i.command < j.command

theorem before_of_identityLE {i j : Identity} (hij : identityLE i j = true) (hne : i ≠ j) :
    Before i j := by
  rw [identityLE_iff] at hij
  refine hij.imp_right fun ⟨hs, hc⟩ => ⟨hs, String.not_le.1 fun hji => hne ?_⟩
  obtain ⟨scope, command⟩ := i
  obtain ⟨scope', command'⟩ := j
  exact Identity.mk.injEq .. ▸ ⟨hs, String.le_antisymm hc hji⟩

theorem Before.irrefl (i : Identity) : ¬ Before i i := by
  rintro (h | ⟨-, h⟩) <;> exact absurd h (String.lt_irrefl _)

section
variable {α : Type} {l : List α} {key : α → Identity}

/-- What is sorted by the identities that `key` gives increases. -/
theorem pairwise_sorted (l : List α) (key : α → Identity) :
    ((l.mergeSort fun a b => identityLE (key a) (key b)).map key).Pairwise
      fun i j => i = j ∨ Before i j := by
  have hs := sorts_identityLE.comap key
  refine List.pairwise_map.2 ((List.pairwise_mergeSort hs.trans hs.total l).imp fun h => ?_)
  exact or_iff_not_imp_left.2 (before_of_identityLE h)

theorem pairwise_before_iff {is : List Identity} (h : is.Pairwise fun i j => i = j ∨ Before i j) :
    is.Pairwise Before ↔ is.Nodup := by
  constructor
  · refine fun hb => List.Pairwise.imp (fun hij => ?_) hb
    rintro rfl
    exact Before.irrefl _ hij
  · exact fun hn => (h.and hn).imp fun ⟨hij, hne⟩ => hij.resolve_left hne

end

section
variable {w : Workspace} {s : Settings} {root : PathName} {d : Discovery}

theorem mem_templates_iff (h : search w root s = .ok d) {t : Template} :
    t ∈ d.templates ↔ ∃ x : Source w s (s.commandsRoot root), ¬ x.IsPartial ∧
      ∃ text, String.fromUTF8? x.bytes = some text ∧ t = ⟨x.identity, x.kind, x.path, text⟩ := by
  obtain ⟨found, rfl, -, hmem⟩ := exists_found h
  rw [mem_templates_ofFound, hmem]
  exact exists_congr fun x => x.record_eq_template_iff

theorem mem_unreadable_iff (h : search w root s = .ok d) {u : Unreadable} :
    u ∈ d.unreadable ↔ ∃ x : Source w s (s.commandsRoot root), ¬ x.IsPartial ∧
      String.fromUTF8? x.bytes = none ∧ u = ⟨x.identity, x.kind, x.path, .invalidEncoding⟩ := by
  obtain ⟨found, rfl, -, hmem⟩ := exists_found h
  rw [mem_unreadable_ofFound, hmem]
  exact exists_congr fun x => x.record_eq_unreadable_iff

theorem mem_partials_iff (h : search w root s = .ok d) {p : PathName} :
    p ∈ d.partials ↔ ∃ x : Source w s (s.commandsRoot root), x.IsPartial ∧ p = x.path := by
  obtain ⟨found, rfl, -, hmem⟩ := exists_found h
  rw [mem_partials_ofFound, hmem]
  exact exists_congr fun x => x.record_eq_partialFile_iff

theorem count_sources (h : search w root s = .ok d) (x : Source w s (s.commandsRoot root)) :
    d.sources.count x.path = 1 := by
  refine List.count_eq_one_of_mem (nodup_sources h) ?_
  obtain ⟨found, rfl, -, hmem⟩ := exists_found h
  refine (perm_sources_ofFound found).mem_iff.2 (List.mem_map.2 ⟨x.record, ?_, x.path_record⟩)
  exact (hmem _).2 ⟨x, rfl⟩

/-- The partial files of a discovery increase strictly. -/
theorem pairwise_partials (h : search w root s = .ok d) :
    d.partials.Pairwise fun p q => p.le q = true ∧ q.le p = false := by
  obtain ⟨found, rfl, hapart, hmem⟩ := exists_found h
  refine (sorts_stepsLE.comap PathName.steps).pairwise_mergeSort
    (List.pairwise_filterMap.2 (hapart.imp_of_mem fun {a b} ha hb hne p hp q hq hpq hqp => ?_))
  obtain ⟨x, rfl⟩ := (hmem a).1 ha
  obtain ⟨y, rfl⟩ := (hmem b).1 hb
  obtain rfl := Found.path_of_partial? hp
  obtain rfl := Found.path_of_partial? hq
  rw [x.path_record, y.path_record] at hpq hqp
  refine hne ?_
  rw [x.path_record, y.path_record]
  exact path_eq_of_steps_eq (stepsLE_antisymm hpq hqp)

/-- The templates of a discovery `d` increase, readable or not. -/
theorem pairwise_identities (h : search w root s = .ok d) :
    ((d.templates.map (·.identity)).Pairwise fun i j => i = j ∨ Before i j) ∧
      (d.unreadable.map (·.identity)).Pairwise fun i j => i = j ∨ Before i j := by
  obtain ⟨found, rfl, -⟩ := exists_found h
  exact ⟨pairwise_sorted _ _, pairwise_sorted _ _⟩

/-- The kind of a template is that of its scope. -/
theorem kind_of_mem_templates (h : search w root s = .ok d) {t : Template} (ht : t ∈ d.templates) :
    scopeKind? s t.identity.scope = some t.kind := by
  obtain ⟨x, -, text, -, rfl⟩ := (mem_templates_iff h).1 ht
  exact x.scopeKind?_scope

theorem kind_of_mem_unreadable (h : search w root s = .ok d) {u : Unreadable}
    (hu : u ∈ d.unreadable) : scopeKind? s u.identity.scope = some u.kind := by
  obtain ⟨x, -, -, rfl⟩ := (mem_unreadable_iff h).1 hu
  exact x.scopeKind?_scope

/-- Every source is recorded at its own path, once and in one list, and nothing else is: among the
partial files if its stem begins with the mark, else among the templates with its text if its bytes
are one, else among those that cannot be read. Each list increases, strictly where the identities in
it are different. -/
theorem search_exact (h : search w root s = .ok d) :
    (∀ p, p ∈ d.partials ↔
      ∃ x : Source w s (s.commandsRoot root), x.IsPartial ∧ p = x.path) ∧
    (∀ t, t ∈ d.templates ↔ ∃ x : Source w s (s.commandsRoot root), ¬ x.IsPartial ∧
      ∃ text, String.fromUTF8? x.bytes = some text ∧ t = ⟨x.identity, x.kind, x.path, text⟩) ∧
    (∀ u, u ∈ d.unreadable ↔ ∃ x : Source w s (s.commandsRoot root), ¬ x.IsPartial ∧
      String.fromUTF8? x.bytes = none ∧ u = ⟨x.identity, x.kind, x.path, .invalidEncoding⟩) ∧
    (∀ x y : Source w s (s.commandsRoot root), x.path = y.path → x = y) ∧
    (∀ x : Source w s (s.commandsRoot root), d.sources.count x.path = 1) ∧
    ((d.templates.map (·.identity)).Pairwise fun i j => i = j ∨ Before i j) ∧
    ((d.templates.map (·.identity)).Pairwise Before ↔ (d.templates.map (·.identity)).Nodup) ∧
    ((d.unreadable.map (·.identity)).Pairwise fun i j => i = j ∨ Before i j) ∧
    ((d.unreadable.map (·.identity)).Pairwise Before ↔ (d.unreadable.map (·.identity)).Nodup) ∧
    d.partials.Pairwise fun p q => p.le q = true ∧ q.le p = false := by
  obtain ⟨htemplates, hunreadable⟩ := pairwise_identities h
  exact ⟨fun _ => mem_partials_iff h, fun _ => mem_templates_iff h, fun _ => mem_unreadable_iff h,
    fun _ _ => Source.eq_of_path_eq, count_sources h, htemplates, pairwise_before_iff htemplates,
    hunreadable, pairwise_before_iff hunreadable, pairwise_partials h⟩

end

/-! ## A directory of all sorts -/

/-- The location of the templates of a namespace. -/
def namespaceDirectory : Location := ⟨"flow", by decide⟩ :: roleDirectory.drop 1

/-- A workspace in which the directory of a role holds a template with a dot in its stem, a file
without a stem, a link to itself, a directory, a file that is no text and a partial file. The
directory of a namespace is a link to that of the role. -/
def mixedWorkspace : Workspace :=
  ((((((workspaceWith ⟨"dotted.agent.md", by decide⟩ "text").put
    (⟨".md", by decide⟩ :: roleDirectory) (.file .empty)).put
    (⟨"loop.md", by decide⟩ :: roleDirectory) (.link "loop.md")).put
    (⟨"nested.md", by decide⟩ :: roleDirectory) .directory).put
    (⟨"garbled.md", by decide⟩ :: roleDirectory) (.file ⟨#[255]⟩)).put
    (⟨"_part.md", by decide⟩ :: roleDirectory) (.file .empty)).put
    namespaceDirectory (.link "pm")

theorem exists_template_mixed :
    ∃ x : Source mixedWorkspace .standard (Settings.standard.commandsRoot ⟨"."⟩), ¬ x.IsPartial ∧
      ∃ text, String.fromUTF8? x.bytes = some text ∧
        ⟨⟨"flow", "dotted.agent"⟩, .namespaced,
          ⟨"./templates/commands/flow/dotted.agent.md"⟩, "text"⟩ =
            Template.mk x.identity x.kind x.path text := by
  exact ⟨⟨⟨"flow", by decide⟩, ⟨"dotted.agent.md", by decide⟩, "dotted.agent", "text".toUTF8,
    .inr (by decide), by decide, by decide,
    ⟨roleDirectory.drop 1, by decide +kernel, by decide +kernel, .link "pm", by decide +kernel⟩,
    ⟨roleDirectory, by decide +kernel, by decide +kernel, .file "text".toUTF8, by decide +kernel⟩,
    by decide +kernel⟩, by decide, "text", by decide +kernel, by decide +kernel⟩

theorem exists_garbled_mixed :
    ∃ x : Source mixedWorkspace .standard (Settings.standard.commandsRoot ⟨"."⟩), ¬ x.IsPartial ∧
      String.fromUTF8? x.bytes = none ∧
        ⟨⟨"pm", "garbled"⟩, .role, ⟨"./templates/commands/pm/garbled.md"⟩, .invalidEncoding⟩ =
          Unreadable.mk x.identity x.kind x.path .invalidEncoding := by
  exact ⟨⟨⟨"pm", by decide⟩, ⟨"garbled.md", by decide⟩, "garbled", ⟨#[255]⟩,
    .inl (by decide), by decide, by decide,
    ⟨roleDirectory.drop 1, by decide +kernel, by decide +kernel, .directory, by decide +kernel⟩,
    ⟨roleDirectory, by decide +kernel, by decide +kernel, .file ⟨#[255]⟩, by decide +kernel⟩,
    by decide +kernel⟩, by decide, by decide +kernel, by decide +kernel⟩

theorem search_exact_mixed :
    ∃ d, search mixedWorkspace ⟨"."⟩ .standard = .ok d ∧
      ⟨⟨"flow", "dotted.agent"⟩, .namespaced,
        ⟨"./templates/commands/flow/dotted.agent.md"⟩, "text"⟩ ∈ d.templates ∧
      ⟨⟨"pm", "garbled"⟩, .role, ⟨"./templates/commands/pm/garbled.md"⟩, .invalidEncoding⟩ ∈
        d.unreadable ∧
      d.sources.count ⟨"./templates/commands/pm/garbled.md"⟩ = 1 ∧
      ∀ t ∈ d.templates, t.identity.command ≠ "" ∧
        t.path ≠ ⟨"./templates/commands/pm/loop.md"⟩ ∧
        t.path ≠ ⟨"./templates/commands/pm/nested.md"⟩ := by
  obtain ⟨d, hsearch⟩ := exists_search (w := mixedWorkspace) (by decide) ⟨"."⟩ .standard
  obtain ⟨-, htemplates, hunreadable, -, hcount, -⟩ := search_exact hsearch
  have hloop : mixedWorkspace.contents? ⟨"./templates/commands/pm/loop.md"⟩ = none := by
    decide +kernel
  have hnested : mixedWorkspace.contents? ⟨"./templates/commands/pm/nested.md"⟩ = none := by
    decide +kernel
  refine ⟨_, hsearch, (htemplates _).2 exists_template_mixed,
    (hunreadable _).2 exists_garbled_mixed, ?_, fun t ht => ?_⟩
  · obtain ⟨x, -, -, hx⟩ := exists_garbled_mixed
    exact (Unreadable.mk.inj hx).2.2.1 ▸ hcount x
  · obtain ⟨x, -, text, -, rfl⟩ := (htemplates t).1 ht
    have hcontents : mixedWorkspace.contents? x.path = some x.bytes := x.contents
    refine ⟨x.command_ne, fun he => ?_, fun he => ?_⟩
    · rw [show x.path = _ from he, hloop] at hcontents
      cases hcontents
    · rw [show x.path = _ from he, hnested] at hcontents
      cases hcontents

/-! ## Links on the way -/

/-- The name of a link, a letter repeated. -/
def chainName (n : Nat) : FileName :=
  ⟨⟨108 :: .replicate n 108⟩, by simp [isFileName, dot, separator]⟩

/-- What each link leads to: the one before it, and the first one the templates. -/
def chainTarget : Nat → RawText
  | 0 => "templates/commands"
  | n + 1 => (chainName n).raw

/-- A workspace in which as many links lead to the templates as one path may pass. One of the
templates is a link to the other. -/
def chainWorkspace : Workspace :=
  (List.range linkLimit).foldl
    (fun w n => w.put [chainName n] (.link (chainTarget n)))
    ((workspaceWith ⟨"real.md", by decide⟩ "text").put (⟨"alias.md", by decide⟩ :: roleDirectory)
      (.link "real.md"))

/-- Settings by which the templates are looked for behind the last link. -/
def chainSettings : Settings :=
  { Settings.standard with commandsDir := ⟨(chainName (linkLimit - 1)).raw⟩ }

/-- A link to a file in the directory of a scope is passed over if the way to it has taken all links
that one path may pass. Two files that are shown alike do not increase strictly. -/
theorem search_passes_over :
    chainWorkspace.contents? ⟨"templates/commands/pm/alias.md"⟩ = some "text".toUTF8 ∧
      (∃ d, search chainWorkspace ⟨"."⟩ chainSettings = .ok d ∧
        d.identities = [⟨"pm", "real"⟩] ∧ d.partials = []) ∧
      search lookalikeWorkspace ⟨"."⟩ .standard = .ok lookalikeDiscovery ∧
      ¬ (lookalikeDiscovery.templates.map (·.identity)).Pairwise Before := by
  have hchain : (match search chainWorkspace ⟨"."⟩ chainSettings with
      | .ok d => decide (d.identities = [⟨"pm", "real"⟩] ∧ d.partials = [])
      | .error _ => false) = true := by
    decide +kernel
  refine ⟨by decide +kernel, ?_, search_lookalike, ?_⟩
  · split at hchain
    · next d hd => exact ⟨d, hd, of_decide_eq_true hchain⟩
    · cases hchain
  · intro h
    exact Before.irrefl _ (List.rel_of_pairwise_cons h (List.mem_singleton.2 rfl))

end Discovery

end AgentDocs
