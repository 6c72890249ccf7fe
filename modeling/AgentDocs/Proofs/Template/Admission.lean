import AgentDocs.Proofs.Files.Walk
import AgentDocs.Template.Target

/-!
# Which targets are admitted

A target is admitted exactly where it leads to a file below the root, links followed on the way
and in the root itself. A spelling that could leave the root is refused before anything is looked
at, and backslashes count there although they are plain characters in file names.

* `mem_segments_iff`, `isRefused_iff`: refused spellings, said by the places of characters.
* `resolve_eq_ok_iff`, `LeadsTo.isCanonical`: where a path leads, said by the rules of walks.
* `locate_admits`: what comes of every target.
-/

namespace AgentDocs

open AgentDocs.Files AgentDocs.Text

/-! ## Segments by their places -/

/-- The `segment` of a text stands between two separators or ends. -/
theorem Files.mem_segments_iff {text segment : List Char} :
    segment ∈ segments '/' text ↔ '/' ∉ segment ∧ ∃ before after,
      text = before ++ segment ++ after ∧ (∀ c ∈ before.getLast?, c = '/') ∧
        ∀ c ∈ after.head?, c = '/' := by
  constructor
  · intro h
    refine ⟨notMem_of_mem_segments h, ?_⟩
    obtain ⟨above, below, hs⟩ := List.append_of_mem h
    have hjoin : (segments '/' text).flatMap (fun s => '/' :: s) = '/' :: text :=
      flatMap_segments text
    rw [hs, List.flatMap_append, List.flatMap_cons] at hjoin
    have hbelow : ∀ c ∈ (below.flatMap fun s => '/' :: s).head?, c = '/' := by
      cases below with
      | nil => simp
      | cons s more => simp
    rcases above with _ | ⟨first, above⟩
    · refine ⟨[], below.flatMap fun s => '/' :: s, ?_, by simp, hbelow⟩
      simpa using hjoin.symm
    · refine ⟨first ++ (above.flatMap fun s => '/' :: s) ++ ['/'],
        below.flatMap fun s => '/' :: s, ?_, by simp, hbelow⟩
      simpa using hjoin.symm
  · rintro ⟨hn, before, after, rfl, hb, ha⟩
    have hleft : ∃ above, segments '/' (before ++ segment) = above ++ [segment] := by
      rcases List.eq_nil_or_concat before with rfl | ⟨front, c, rfl⟩
      · exact ⟨[], segments_of_notMem hn⟩
      · obtain rfl : c = '/' := hb c (by simp)
        refine ⟨segments '/' front, ?_⟩
        rw [List.concat_eq_append, List.append_assoc, List.singleton_append, segments_append,
          segments_of_notMem hn]
    obtain ⟨above, hleft⟩ := hleft
    cases after with
    | nil => simp [hleft]
    | cons c rest =>
      obtain rfl : c = '/' := ha c rfl
      rw [segments_append, hleft]
      simp

namespace Template

/-! ## Spellings -/

/-- Both slashes separate the segments of a target. -/
def IsSlash (c : Char) : Prop := c = '/' ∨ c = '\\'

/-- A target steps up: two dots stand between two slashes or ends. -/
def StepsUp (target : List Char) : Prop :=
  ∃ before after, target = before ++ ['.', '.'] ++ after ∧
    (∀ c ∈ before.getLast?, IsSlash c) ∧ ∀ c ∈ after.head?, IsSlash c

/-- A target could leave the root by its spelling: it is empty, begins with a slash or steps up. -/
def Escapes (target : List Char) : Prop :=
  target = [] ∨ (∃ c ∈ target.head?, IsSlash c) ∨ StepsUp target

/-- A target with every slash as a separator of paths. -/
def slashed (target : List Char) : List Char := target.map fun c => if c = '\\' then '/' else c

theorem slash_iff {c : Char} : (if c = '\\' then '/' else c) = '/' ↔ IsSlash c := by
  unfold IsSlash
  split <;> simp_all

theorem slashed_eq_dots_iff {target : List Char} :
    slashed target = ['.', '.'] ↔ target = ['.', '.'] := by
  have hdot : ∀ c : Char, (if c = '\\' then '/' else c) = '.' ↔ c = '.' := by
    intro c
    split
    · next h => simp [h]
    · rfl
  constructor
  · intro h
    obtain ⟨a, rest, rfl, ha, hrest⟩ := List.map_eq_cons_iff.1 h
    obtain ⟨b, rest', rfl, hb, hnil⟩ := List.map_eq_cons_iff.1 hrest
    rw [(hdot a).1 ha, (hdot b).1 hb, List.map_eq_nil_iff.1 hnil]
  · rintro rfl
    rfl

theorem dots_mem_segments_iff {target : List Char} :
    ['.', '.'] ∈ segments '/' (slashed target) ↔ StepsUp target := by
  rw [mem_segments_iff]
  constructor
  · rintro ⟨-, before, after, h, hb, ha⟩
    obtain ⟨front, back, rfl, hfront, rfl⟩ := List.map_eq_append_iff.1 h
    obtain ⟨left, dots, rfl, rfl, hdots⟩ := List.map_eq_append_iff.1 hfront
    rw [← slashed, slashed_eq_dots_iff] at hdots
    refine ⟨left, back, by rw [hdots], fun c hc => ?_, fun c hc => ?_⟩
    · exact slash_iff.1 (hb _ (by simpa using ⟨c, hc, rfl⟩))
    · exact slash_iff.1 (ha _ (by simpa using ⟨c, hc, rfl⟩))
  · rintro ⟨before, after, rfl, hb, ha⟩
    refine ⟨by decide, slashed before, slashed after, by simp [slashed], ?_, ?_⟩
    · simpa [slashed] using fun c hc => slash_iff.2 (hb c hc)
    · simpa [slashed] using fun c hc => slash_iff.2 (ha c hc)

/-- The refused spellings are those that could leave the root: `isRefused` tells `Escapes`. -/
theorem isRefused_iff {target : List Char} : isRefused target = true ↔ Escapes target := by
  rw [isRefused, Escapes, ← dots_mem_segments_iff]
  cases target with
  | nil => simp
  | cons c rest => simp [IsSlash, slashed, or_assoc]

instance (target : List Char) : Decidable (Escapes target) := decidable_of_iff _ isRefused_iff

end Template

/-! ## Where paths lead -/

/-- Every location on the way to a location is a directory, and so none of them is a link. -/
def Files.FileTree.IsCanonical (t : FileTree) (l : Location) : Prop :=
  ∀ name dir, name :: dir <:+ l → t.isDirectory dir = true

theorem Files.FileTree.IsCanonical.tail {t : FileTree} {l : Location} (h : t.IsCanonical l) :
    t.IsCanonical l.tail :=
  fun name dir hs => h name dir (hs.trans (List.tail_suffix l))

/-- A walk from `here`, if that is canonical, ends at a canonical location. -/
theorem Files.FileTree.Leads.isCanonical {t : FileTree} {n : Nat} {here l : Location}
    {steps : List Step} (h : t.Leads n here steps l) (hc : t.IsCanonical here) :
    t.IsCanonical l := by
  induction h with
  | done => exact hc
  | root _ ih => exact ih fun name dir hs => absurd (List.suffix_nil.1 hs) (by simp)
  | stay _ _ ih => exact ih hc
  | up _ _ ih => exact ih hc.tail
  | into hd _ _ _ ih =>
    refine ih fun name dir hs => ?_
    rcases List.suffix_cons_iff.1 hs with heq | hs
    · cases heq
      exact hd
    · exact hc name dir hs
  | link _ _ _ ih => exact ih hc

namespace Files.Workspace

variable {w : Workspace} {p : PathName} {l m : Location}

/-- A path leads to a location: it is a proper path, and its steps lead there with no more links
than may be followed. -/
structure LeadsTo (w : Workspace) (p : PathName) (l : Location) : Prop where
  proper : p.refusal? = none
  leads : w.tree.Leads linkLimit w.start p.moves l

/-- A path leads to a file. -/
structure LeadsToFile (w : Workspace) (p : PathName) (l : Location) : Prop
    extends LeadsTo w p l where
  file : ∃ bytes, w.tree.find? l = some (.file bytes)

theorem resolve_eq_ok_iff : w.resolve p = .ok l ↔ w.LeadsTo p l := by
  constructor
  · intro h
    unfold resolve at h
    split at h
    · cases h
    · next hr => exact ⟨hr, FileTree.walk_eq_ok_iff.1 h⟩
  · intro h
    simp only [resolve, h.proper]
    exact FileTree.walk_eq_ok_iff.2 h.leads

theorem LeadsTo.unique (h : w.LeadsTo p l) (k : w.LeadsTo p m) : m = l := by
  rw [← resolve_eq_ok_iff] at h k
  rw [h] at k
  cases k
  rfl

theorem LeadsTo.isCanonical (h : w.LeadsTo p l) (hs : w.tree.IsCanonical w.start) :
    w.tree.IsCanonical l :=
  h.leads.isCanonical hs

theorem isFile_iff : w.isFile p = true ↔ ∃ l, w.LeadsToFile p l := by
  constructor
  · intro h
    unfold isFile at h
    split at h
    · next bytes he =>
      obtain ⟨l, hl, hf⟩ := resolve_isSome_of_entry? he
      exact ⟨l, resolve_eq_ok_iff.1 hl, bytes, hf⟩
    · cases h
  · rintro ⟨l, h, bytes, hf⟩
    simp only [isFile, entry?, resolve_eq_ok_iff.2 h, hf]

end Files.Workspace

namespace Template

open Files.Workspace

/-! ## Targets -/

/-- The path that a target asks for. -/
def askedPath (root : PathName) (requested : List Char) : PathName :=
  root.join (String.ofList (trim requested))

section
variable {w : Workspace} {root : PathName} {requested : List Char} {base l : Location}

theorem isEmpty_trim_of_not_escapes (hr : ¬ Escapes (trim requested)) :
    (trim requested).isEmpty = false := by
  rw [List.isEmpty_eq_false_iff]
  exact fun h => hr (.inl h)

theorem locate_of_not_isFile (hr : ¬ Escapes (trim requested))
    (hf : ¬ ∃ l, w.LeadsToFile (askedPath root requested) l) :
    locate w root requested = .error (.includeNotFound (askedPath root requested)) := by
  have hne := isEmpty_trim_of_not_escapes hr
  rw [← isRefused_iff, Bool.not_eq_true] at hr
  rw [← isFile_iff, Bool.not_eq_true, askedPath] at hf
  simp [locate, askedPath, hne, hr, hf]

theorem locate_of_leadsToFile (hr : ¬ Escapes (trim requested)) (hb : w.LeadsTo root base)
    (hf : w.LeadsToFile (askedPath root requested) l) :
    locate w root requested =
      if base <:+ l then .ok l else .error (.pathEscape (String.ofList (trim requested))) := by
  have hne := isEmpty_trim_of_not_escapes hr
  have hfile := isFile_iff.2 ⟨l, hf⟩
  have hpath := resolve_eq_ok_iff.2 hf.toLeadsTo
  rw [askedPath] at hfile hpath
  rw [← isRefused_iff, Bool.not_eq_true] at hr
  simp only [locate, hne, hr, hfile, resolve_eq_ok_iff.2 hb, hpath, liesBelow,
    List.isSuffixOf_iff_suffix, Bool.false_eq_true, if_false, Bool.not_true]

end

/-- What comes of a target. A spelling that could leave the root is refused in every workspace. Any
other target is admitted exactly where it leads to a file below the location that the root leads to,
and what is found is the location of that file, with no link on the way to it. Where it leads to no
file it is not found, and where it leads to a file elsewhere it is refused. -/
theorem locate_admits (w : Workspace) (root : PathName) (requested : List Char) :
    (Escapes (trim requested) →
      locate w root requested = .error (.pathEscape (String.ofList
        (if (trim requested).isEmpty then requested else trim requested)))) ∧
    (¬ Escapes (trim requested) → ∀ base, w.LeadsTo root base →
      (∀ l, locate w root requested = .ok l ↔
        w.LeadsToFile (askedPath root requested) l ∧ base <:+ l) ∧
      (w.tree.IsCanonical w.start →
        ∀ l, locate w root requested = .ok l → w.tree.IsCanonical l) ∧
      (locate w root requested = .error (.includeNotFound (askedPath root requested)) ↔
        ¬ ∃ l, w.LeadsToFile (askedPath root requested) l) ∧
      (locate w root requested = .error (.pathEscape (String.ofList (trim requested))) ↔
        ∃ l, w.LeadsToFile (askedPath root requested) l ∧ ¬ base <:+ l)) := by
  refine ⟨fun hr => locate_of_isRefused (isRefused_iff.2 hr), fun hr base hb => ?_⟩
  by_cases hf : ∃ l, w.LeadsToFile (askedPath root requested) l
  · obtain ⟨m, hm⟩ := hf
    -- A path leads to one place, so whatever is said of some file is said of `m`.
    have hunique : ∀ l, w.LeadsToFile (askedPath root requested) l → l = m :=
      fun l hl => hm.toLeadsTo.unique hl.toLeadsTo
    rw [locate_of_leadsToFile hr hb hm]
    by_cases hs : base <:+ m
    · rw [if_pos hs]
      refine ⟨fun l => ⟨?_, ?_⟩, ?_, by simpa using ⟨m, hm⟩, ?_⟩
      · rintro ⟨⟩
        exact ⟨hm, hs⟩
      · rintro ⟨hl, -⟩
        rw [hunique l hl]
      · rintro hc l ⟨⟩
        exact hm.toLeadsTo.isCanonical hc
      · simp only [reduceCtorEq, false_iff]
        rintro ⟨l, hl, hn⟩
        exact hn (hunique l hl ▸ hs)
    · rw [if_neg hs]
      refine ⟨fun l => ⟨nofun, ?_⟩, nofun, by simpa using ⟨m, hm⟩, by simpa using ⟨m, hm, hs⟩⟩
      rintro ⟨hl, hbelow⟩
      exact absurd (hunique l hl ▸ hbelow) hs
  · rw [locate_of_not_isFile hr hf]
    refine ⟨fun l => ⟨nofun, fun h => absurd ⟨l, h.1⟩ hf⟩, nofun, by simpa using hf, ?_⟩
    simp only [Except.error.injEq, reduceCtorEq, false_iff]
    rintro ⟨l, hl, -⟩
    exact hf ⟨l, hl⟩

/-- The directory `home` holds a file, a link to itself and a link to a file in its sibling `homes`,
and the link `way` leads to it. -/
def siblings : Workspace where
  tree := (((((FileTree.empty.insert [⟨"home", by decide⟩] .directory).insert
    [⟨"homes", by decide⟩] .directory).insert
    [⟨"page", by decide⟩, ⟨"home", by decide⟩] (.file "text".toUTF8)).insert
    [⟨"loop", by decide⟩, ⟨"home", by decide⟩] (.link "../way/.")).insert
    [⟨"out", by decide⟩, ⟨"home", by decide⟩] (.link "../homes/note")).insert
    [⟨"note", by decide⟩, ⟨"homes", by decide⟩] (.file "secret".toUTF8) |>.insert
    [⟨"way", by decide⟩] (.link "home")
  start := []
  sealed := []

theorem locate_admits_siblings :
    siblings.LeadsTo ⟨"./way"⟩ [⟨"home", by decide⟩] ∧
      (¬ Escapes (trim " loop/loop//page ".toList) ∧
        siblings.LeadsToFile (askedPath ⟨"./way"⟩ " loop/loop//page ".toList)
          [⟨"page", by decide⟩, ⟨"home", by decide⟩] ∧
        locate siblings ⟨"./way"⟩ " loop/loop//page ".toList =
          .ok [⟨"page", by decide⟩, ⟨"home", by decide⟩]) ∧
      (¬ Escapes (trim "out".toList) ∧
        locate siblings ⟨"./way"⟩ "out".toList = .error (.pathEscape "out")) ∧
      Escapes (trim "loop\\..".toList) ∧
        locate siblings ⟨"./way"⟩ "loop\\..".toList = .error (.pathEscape "loop\\..") := by
  have hroot : siblings.LeadsTo ⟨"./way"⟩ [⟨"home", by decide⟩] :=
    resolve_eq_ok_iff.1 (by decide +kernel)
  have hin : siblings.LeadsToFile (askedPath ⟨"./way"⟩ " loop/loop//page ".toList)
      [⟨"page", by decide⟩, ⟨"home", by decide⟩] :=
    ⟨resolve_eq_ok_iff.1 (by decide +kernel), "text".toUTF8, by decide +kernel⟩
  have hout : siblings.LeadsToFile (askedPath ⟨"./way"⟩ "out".toList)
      [⟨"note", by decide⟩, ⟨"homes", by decide⟩] :=
    ⟨resolve_eq_ok_iff.1 (by decide +kernel), "secret".toUTF8, by decide +kernel⟩
  have hf : ¬ Escapes (trim " loop/loop//page ".toList) := by decide +kernel
  have ho : ¬ Escapes (trim "out".toList) := by decide +kernel
  have hup : Escapes (trim "loop\\..".toList) := by decide +kernel
  refine ⟨hroot, ⟨hf, hin, ?_⟩, ⟨ho, ?_⟩, hup, ?_⟩
  · exact (((locate_admits siblings _ _).2 hf _ hroot).1 _).2 ⟨hin, by decide +kernel⟩
  · exact ((locate_admits siblings _ _).2 ho _ hroot).2.2.2.2 ⟨_, hout, by decide +kernel⟩
  · exact (locate_admits siblings _ _).1 hup

end Template

end AgentDocs
