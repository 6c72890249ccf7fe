import AgentDocs.Build.Run
import AgentDocs.Proofs.Build.Artifact

/-!
# The footprint of a run

What a run does to a workspace. It makes the directories on the path of the agents, and directly in
the last of them it writes files and removes files; it reports each of these. Everything else is as
it was.

* `Stage`: the workspaces that a run can come to, the invariant of all its steps.
* `Stage.settle`, `Stage.remove`: the two steps that change a workspace.
* `run_stage`: a whole run, with what it reports as the only changes.
-/

namespace AgentDocs

open AgentDocs.Files AgentDocs.Files.Workspace

/-! ## Changed files -/

/-- What can become of the entry of a file, where `W` may be written and `R` may be removed. -/
def Changed (W R : FileName → Prop) (f : FileName) (before after : Option Entry) : Prop :=
  (W f ∧ before ≠ some .directory ∧ ∃ bytes, after = some (.file bytes)) ∨
    (R f ∧ after = none ∧ ∃ bytes, before = some (.file bytes))

/-- A workspace differs from another in some files of one directory. -/
structure Worked (W R : FileName → Prop) (g w : Workspace) (dir : Location) : Prop where
  start : w.start = g.start
  sealed : w.sealed = g.sealed
  entries : ∀ l, w.tree.find? l = g.tree.find? l ∨
    ∃ f, l = f :: dir ∧ Changed W R f (g.tree.find? l) (w.tree.find? l)

section
variable {W R W' R' : FileName → Prop} {g w : Workspace} {dir : Location} {f : FileName}

theorem Changed.mono {a b : Option Entry} (hW : ∀ f, W f → W' f) (hR : ∀ f, R f → R' f)
    (h : Changed W R f a b) : Changed W' R' f a b := by
  rcases h with ⟨hf, h⟩ | ⟨hf, h⟩
  · exact .inl ⟨hW f hf, h⟩
  · exact .inr ⟨hR f hf, h⟩

theorem Worked.refl (g : Workspace) (dir : Location) : Worked W R g g dir :=
  ⟨rfl, rfl, fun _ => .inl rfl⟩

theorem Worked.mono (hW : ∀ f, W f → W' f) (hR : ∀ f, R f → R' f) (h : Worked W R g w dir) :
    Worked W' R' g w dir := by
  refine ⟨h.start, h.sealed, fun l => ?_⟩
  rcases h.entries l with hl | ⟨f, hf, hc⟩
  · exact .inl hl
  · exact .inr ⟨f, hf, hc.mono hW hR⟩

/-- A file `f` that is neither written nor removed is as it was in `g`. -/
theorem Worked.find?_eq (h : Worked W R g w dir) (hW : ¬ W f) (hR : ¬ R f) :
    w.tree.find? (f :: dir) = g.tree.find? (f :: dir) := by
  rcases h.entries (f :: dir) with he | ⟨f', hf, ⟨hfW, -⟩ | ⟨hfR, -⟩⟩
  · exact he
  · cases hf
    exact absurd hfW hW
  · cases hf
    exact absurd hfR hR

theorem Worked.isDirectory (h : Worked W R g w dir) {l : Location}
    (hd : g.tree.isDirectory l = true) : w.tree.isDirectory l = true := by
  have hg : g.tree.find? l = some .directory := by simpa [FileTree.isDirectory] using hd
  rcases h.entries l with hl | ⟨f, -, ⟨-, hn, -⟩ | ⟨-, -, bytes, hb⟩⟩
  · simp [FileTree.isDirectory, hl, hg]
  · exact absurd hg hn
  · rw [hg] at hb
    cases hb

theorem Worked.put {bytes : ByteArray} (h : Worked W R g w dir) (hf : W f)
    (hn : w.tree.find? (f :: dir) ≠ some .directory) :
    Worked W R g (w.put (f :: dir) (.file bytes)) dir := by
  refine ⟨h.start, h.sealed, fun l => ?_⟩
  by_cases hl : l = f :: dir
  · subst hl
    refine .inr ⟨f, rfl, ?_⟩
    rw [show (w.put (f :: dir) (.file bytes)).tree.find? (f :: dir) = some (.file bytes) from
      FileTree.find?_insert_self (by simp)]
    refine .inl ⟨hf, fun hg => hn ?_, bytes, rfl⟩
    simpa [FileTree.isDirectory] using
      h.isDirectory (l := f :: dir) (by simpa [FileTree.isDirectory] using hg)
  · rw [show (w.put (f :: dir) (.file bytes)).tree.find? l = w.tree.find? l from
      FileTree.find?_insert_of_ne hl]
    exact h.entries l

/-- One more file `f` is removed. It was there from the beginning. -/
theorem Worked.drop {bytes : ByteArray} (h : Worked W R g w dir) (hf : R f) (hw : ¬ W f)
    (he : w.tree.find? (f :: dir) = some (.file bytes)) :
    Worked W R g (w.drop (f :: dir)) dir := by
  refine ⟨h.start, h.sealed, fun l => ?_⟩
  by_cases hl : l = f :: dir
  · subst hl
    refine .inr ⟨f, rfl, ?_⟩
    rw [show (w.drop (f :: dir)).tree.find? (f :: dir) = none from
      FileTree.find?_erase_self (by simp)]
    rcases h.entries (f :: dir) with hg | ⟨f', hf', ⟨hw', -⟩ | ⟨-, hn, -⟩⟩
    · exact .inr ⟨hf, rfl, bytes, by rw [← hg, he]⟩
    · cases hf'
      exact absurd hw' hw
    · rw [he] at hn
      cases hn
  · rw [show (w.drop (f :: dir)).tree.find? l = w.tree.find? l from FileTree.find?_erase_of_ne hl]
    exact h.entries l

variable {p : PathName}

/-- The way to `dir` is walked as before, or a link on it was written over and no path leads through
it any more. -/
theorem Worked.follow_or_stopped (h : Worked W R g w dir) (hg : g.directoryAt p.way = .ok dir) :
    (∃ k, ∀ more, w.follow (p.way ++ more) = w.tree.walk k dir more) ∨
      (∃ f target, W f ∧ g.tree.find? (f :: dir) = some (.link target)) ∧
        ∀ more, .root ∉ more → more ≠ [] → w.follow (p.way ++ more) = .error .notDirectory := by
  obtain ⟨hl, hd⟩ := directoryAt_eq_ok_iff.1 hg
  have hu : ∀ m e, g.tree.find? m = some e → (∀ b, e ≠ .file b) → w.tree.find? m = some e ∨
      (∃ target, e = .link target) ∧ ∃ b, w.tree.find? m = some (.file b) := by
    intro m e he hn
    rcases h.entries m with hm | ⟨f, rfl, ⟨-, hd, hw⟩ | ⟨-, -, bytes, hb⟩⟩
    · exact .inl (hm.trans he)
    · cases e with
      | directory => exact absurd he hd
      | file b => exact absurd rfl (hn b)
      | link target => exact .inr ⟨⟨target, rfl⟩, hw⟩
    · rw [he] at hb
      cases hb
      exact absurd rfl (hn bytes)
  unfold Workspace.follow
  rw [h.start]
  rcases (FileTree.leads_of_walk hl).append_or_stopped hd p.root_notMem_tail_way hu with
    hk | ⟨⟨m, target, b, hm, hb⟩, hs⟩
  · exact .inl hk
  · refine .inr ⟨?_, hs⟩
    rcases h.entries m with he | ⟨f, rfl, ⟨hf, -⟩ | ⟨-, hn, -⟩⟩
    · rw [he, hm] at hb
      cases hb
    · exact ⟨f, target, hf, hm⟩
    · rw [hb] at hn
      cases hn

theorem Worked.eq_of_directoryAt (h : Worked W R g w dir) (hg : g.directoryAt p.way = .ok dir)
    {l : Location} (hl : w.directoryAt p.way = .ok l) : l = dir := by
  obtain ⟨hf, hd⟩ := directoryAt_eq_ok_iff.1 hl
  rcases h.follow_or_stopped hg with ⟨k, hk⟩ | ⟨-, hs⟩
  · have := hk []
    rw [List.append_nil, hf, FileTree.Leads.done.walk] at this
    cases this
    rfl
  · obtain ⟨k, hk⟩ := exists_follow_append hl
    have := hs [.here] (by simp) (by simp)
    rw [hk, (FileTree.Leads.stay hd .done).walk] at this
    cases this

/-- Where no link is written over, the way of `p` still leads to `dir`. -/
theorem Worked.directoryAt (h : Worked W R g w dir) (hg : g.directoryAt p.way = .ok dir)
    (hn : ∀ f, W f → ∀ target, g.tree.find? (f :: dir) ≠ some (.link target)) :
    w.directoryAt p.way = .ok dir := by
  have hd := h.isDirectory (directoryAt_eq_ok_iff.1 hg).2
  rcases h.follow_or_stopped hg with ⟨k, hk⟩ | ⟨⟨f, target, hf, hl⟩, -⟩
  · refine directoryAt_eq_ok_iff.2 ⟨?_, hd⟩
    rw [← List.append_nil p.way, hk, FileTree.Leads.done.walk]
  · exact absurd hl (hn f hf target)

end

/-! ## Stages -/

/-- A workspace that a run from `w₀` can come to: nothing is changed, the directories on the path of
the agents are made as far as that goes, or the files in the last of them are worked on. -/
inductive Stage (W R : FileName → Prop) (out : PathName) (w₀ : Workspace) : Workspace → Prop
  | begun : Stage W R out w₀ w₀
  | made : Stage W R out w₀ (w₀.grown out)
  | worked {w : Workspace} {dir : Location} : (w₀.grown out).directoryAt out.way = .ok dir →
      Worked W R (w₀.grown out) w dir → Stage W R out w₀ w

section
variable {W R W' R' : FileName → Prop} {out : PathName} {w₀ w v : Workspace} {f : FileName}

theorem Stage.mono (hW : ∀ f, W f → W' f) (hR : ∀ f, R f → R' f) (h : Stage W R out w₀ w) :
    Stage W' R' out w₀ w := by
  cases h with
  | begun => exact .begun
  | made => exact .made
  | worked hg hw => exact .worked hg (hw.mono hW hR)

/-- A file `f` that holds what it held from the beginning is not among the written ones. -/
theorem Stage.except (h : Stage W R out w₀ w)
    (hf : ∀ dir bytes, (w₀.grown out).directoryAt out.way = .ok dir →
      w.tree.find? (f :: dir) = some (.file bytes) →
        w₀.tree.find? (f :: dir) = some (.file bytes)) :
    Stage (fun g => W g ∧ g ≠ f) R out w₀ w := by
  cases h with
  | begun => exact .begun
  | made => exact .made
  | @worked _ dir hg hw =>
    refine .worked hg ⟨hw.start, hw.sealed, fun l => ?_⟩
    rcases hw.entries l with hl | ⟨g, rfl, ⟨hW, hn, bytes, hb⟩ | ⟨hR, hc⟩⟩
    · exact .inl hl
    · by_cases hgf : g = f
      · subst hgf
        exact .inl (hb.trans ((grows_grown w₀ out).find?_of_some (hf dir bytes hg hb)).symm)
      · exact .inr ⟨g, rfl, .inl ⟨⟨hW, hgf⟩, hn, bytes, hb⟩⟩
    · exact .inr ⟨g, rfl, .inr ⟨hR, hc⟩⟩

theorem Stage.start (h : Stage W R out w₀ w) : w.start = w₀.start := by
  cases h with
  | begun => rfl
  | made => exact (grows_grown w₀ out).start
  | worked _ hw => exact hw.start.trans (grows_grown w₀ out).start

theorem Stage.sealed (h : Stage W R out w₀ w) : w.sealed = w₀.sealed := by
  cases h with
  | begun => rfl
  | made => exact (grows_grown w₀ out).sealed
  | worked _ hw => exact hw.sealed.trans (grows_grown w₀ out).sealed

theorem Stage.isDirectory (h : Stage W R out w₀ w) {l : Location}
    (hd : w₀.tree.isDirectory l = true) : w.tree.isDirectory l = true := by
  have hg := (grows_grown w₀ out).isDirectory hd
  cases h with
  | begun => exact hd
  | made => exact hg
  | worked _ hw => exact hw.isDirectory hg

theorem Stage.worked_of_directoryAt (h : Stage W R out w₀ w) (hp : out.Passable) {l : Location}
    (hl : w.directoryAt out.way = .ok l) :
    (w₀.grown out).directoryAt out.way = .ok l ∧ Worked W R (w₀.grown out) w l := by
  cases h with
  | begun =>
    rw [grown_eq_self hp hl]
    exact ⟨hl, .refl _ _⟩
  | made => exact ⟨hl, .refl _ _⟩
  | worked hg hw =>
    obtain rfl := hw.eq_of_directoryAt hg hl
    exact ⟨hg, hw⟩

/-- All that a run changes at a location `l`: a missing directory is made there, or it is a file in
the last of them. -/
theorem Stage.changed (h : Stage W R out w₀ w) (l : Location) :
    w.tree.find? l = w₀.tree.find? l ∨
      (w₀.tree.find? l = none ∧ w.tree.find? l = some .directory ∧
        (w₀.grown out).tree.find? l = some .directory) ∨
      ∃ f dir, (w₀.grown out).directoryAt out.way = .ok dir ∧ l = f :: dir ∧
        Changed W R f ((w₀.grown out).tree.find? l) (w.tree.find? l) := by
  have hgrown := (grows_grown w₀ out).entries l
  cases h with
  | begun => exact .inl rfl
  | made => exact hgrown.imp_right fun ⟨hn, hd⟩ => .inl ⟨hn, hd, hd⟩
  | @worked _ dir hg hw =>
    rcases hw.entries l with hl | ⟨f, hf, hc⟩
    · rw [hl]
      exact hgrown.imp_right fun ⟨hn, hd⟩ => .inl ⟨hn, hd, hd⟩
    · exact .inr (.inr ⟨f, dir, hg, hf, hc⟩)

theorem Stage.entries (h : Stage W R out w₀ w) (l : Location) :
    w.tree.find? l = w₀.tree.find? l ∨
      (w₀.tree.find? l = none ∧ w.tree.find? l = some .directory ∧
        (w₀.grown out).tree.find? l = some .directory) ∨
      ∃ f dir, (w₀.grown out).directoryAt out.way = .ok dir ∧ l = f :: dir ∧ (W f ∨ R f) := by
  refine (h.changed l).imp_right fun hl => hl.imp_right ?_
  rintro ⟨f, dir, hdir, hf, hc⟩
  exact ⟨f, dir, hdir, hf, hc.imp (·.1) (·.1)⟩

end

/-! ## The steps of a run -/

section
variable {W R : FileName → Prop} {out : PathName} {w₀ w v : Workspace} {f : FileName} {a : String}
  {r : Except FileError Action}

theorem Worked.directoryAt_of_read {g : Workspace} {dir : Location} (h : Worked W R g w dir)
    (hg : g.directoryAt out.way = .ok dir) {existing : Option String}
    (hr : w.readNormalized? (out.join f.raw) = .ok existing) :
    w.directoryAt out.way = .ok dir := by
  rcases h.follow_or_stopped hg with ⟨k, hk⟩ | ⟨-, hs⟩
  · refine directoryAt_eq_ok_iff.2 ⟨?_, h.isDirectory (directoryAt_eq_ok_iff.1 hg).2⟩
    rw [← List.append_nil out.way, hk, FileTree.Leads.done.walk]
  · obtain ⟨e, he⟩ := readNormalized?_of_stopped (hs [.child f] (by simp) (by simp))
    rw [he] at hr
    cases hr

/-- Where something is read and then written, the directory of the agents is reached. -/
theorem Stage.grown_of_read (h : Stage W R out w₀ w) {existing : Option String}
    (hr : w.readNormalized? (out.join f.raw) = .ok existing) :
    w.grown out = w₀.grown out ∨ ∃ dir, (w₀.grown out).directoryAt out.way = .ok dir ∧
      w.directoryAt out.way = .ok dir ∧ w.grown out = w ∧ Worked W R (w₀.grown out) w dir := by
  have hp := PathName.passable_of_join (accepted_of_readNormalized? hr)
  cases h with
  | begun => exact .inl rfl
  | made => exact .inl (grown_grown w₀ hp)
  | @worked _ dir hg hw =>
    have hl := hw.directoryAt_of_read hg hr
    exact .inr ⟨dir, hg, hl, grown_eq_self hp hl, hw⟩

/-- The step of a run that settles the artifact `a`. -/
theorem Stage.settle (h : Stage W R out w₀ w) (hf : r = .ok .written → W f)
    (hs : settle w .sync (out.join f.raw) a = (v, r)) : Stage W R out w₀ v := by
  rcases settle_sync_cases hs with ⟨rfl, -⟩ | ⟨rfl, -⟩ | ⟨⟨existing, hr⟩, hcases⟩
  · exact h
  · exact h
  · rcases h.grown_of_read hr with hg | ⟨dir, hg, hl, hw, hworked⟩
    · rw [hg] at hcases
      rcases hcases with ⟨rfl, -⟩ | ⟨hwritten, l, hl, hn, rfl⟩
      · exact .made
      · exact .worked hl ((Worked.refl _ l).put (hf hwritten) hn)
    · rw [hw] at hcases
      rcases hcases with ⟨rfl, -⟩ | ⟨hwritten, l, hl', hn, rfl⟩
      · exact h
      · rw [hl] at hl'
        cases hl'
        exact .worked hg (hworked.put (hf hwritten) hn)

/-- The step of a run that removes the agent in the file `f`. -/
theorem Stage.remove {r : Except FileError Unit} (h : Stage W R out w₀ w) (hp : out.Passable)
    (hf : r = .ok () → R f) (hw : ¬ W f)
    (hn : ∀ dir, (w₀.grown out).directoryAt out.way = .ok dir →
      ∀ target, w.tree.find? (f :: dir) ≠ some (.link target))
    (hr : w.removeFile (out.join f.raw) = (v, r)) : Stage W R out w₀ v := by
  rcases removeFile_join hr with ⟨rfl, -⟩ | ⟨rfl, l, e, hl, he, hd, rfl⟩
  · exact h
  · obtain ⟨hg, hworked⟩ := h.worked_of_directoryAt hp hl
    cases e with
    | directory => exact absurd rfl hd
    | link target => exact absurd he (hn l hg target)
    | file bytes => exact .worked hg (hworked.drop (hf rfl) hw he)

end

/-! ## Templates -/

/-- The file of an agent is among those that some outcomes report as written. -/
def Written (os : List Outcome) (f : FileName) : Prop :=
  ∃ o ∈ os, o.action = .written ∧ f.raw = fileName o.identity.name

/-- A file in the directory `out` is among those that a sweep reports as removed: it has the path
that is reported, and its name shows as that of the agent. -/
def Removed (out : PathName) (stale : List Stale) (f : FileName) : Prop :=
  ∃ s ∈ stale, s.removed = true ∧ s.path = out.join f.raw ∧ f.text = fileName s.name

/-- The outcome that an action on the artifact of a template makes. -/
def Project.outcome (p : Project) (mode : Mode) (t : Template) (d : AgentDocument)
    (action : Action) : Outcome where
  identity := t.identity
  path := agentPath p.outputRoot t.identity.name
  action
  preview := if mode = .preview then some d.header.render else none

section
variable {p : Project} {mode : Mode} {W R : FileName → Prop} {w₀ w v : Workspace} {t : Template}

theorem process_of_error {e : Error} (h : p.compile w t = .error e) :
    p.process mode w t = (w, ⟨t.identity, false, .error e⟩) := by
  simp only [Project.process, h]

theorem process_of_ok {d : AgentDocument} (h : p.compile w t = .ok d) :
    p.process mode w t =
      let settled := settle w mode (agentPath p.outputRoot t.identity.name) d.artifact
      (settled.1, ⟨t.identity, d.descriptionDefaulted,
        (ofFile settled.2).map (p.outcome mode t d)⟩) := by
  simp only [Project.process, h]
  rcases settle w mode (agentPath p.outputRoot t.identity.name) d.artifact with ⟨v, e | action⟩ <;>
    rfl

theorem process_of_settle {d : AgentDocument} {action : Action} (h : p.compile w t = .ok d)
    (hs : settle w mode (agentPath p.outputRoot t.identity.name) d.artifact = (v, .ok action)) :
    p.process mode w t =
      (v, ⟨t.identity, d.descriptionDefaulted, .ok (p.outcome mode t d action)⟩) := by
  rw [process_of_ok h, hs]
  rfl

/-- The outcome for a template that compiles to `d`. -/
theorem outcome?_process_of_ok {d : AgentDocument} (h : p.compile w t = .ok d) :
    (p.process mode w t).2.outcome? =
      (settle w mode (agentPath p.outputRoot t.identity.name) d.artifact).2.toOption.map
        (p.outcome mode t d) := by
  rw [process_of_ok h]
  rcases settle w mode (agentPath p.outputRoot t.identity.name) d.artifact with ⟨v, e | action⟩ <;>
    rfl

theorem process_fst (h : mode ≠ .sync) : (p.process mode w t).1 = w := by
  cases hc : p.compile w t with
  | error e => rw [process_of_error hc]
  | ok d =>
    rw [process_of_ok hc]
    cases mode with
    | sync => exact absurd rfl h
    | preview => rfl
    | validate => rfl

theorem processAll_cons (rest : List Template) :
    p.processAll mode w (t :: rest) =
      let x := p.process mode w t
      let more := p.processAll mode x.1 rest
      (more.1, x.2 :: more.2) := rfl

/-- The templates of `rest` find the workspace that those of `before` have left. -/
theorem processAll_append (before rest : List Template) :
    p.processAll mode w (before ++ rest) =
      ((p.processAll mode (p.processAll mode w before).1 rest).1,
        (p.processAll mode w before).2 ++
          (p.processAll mode (p.processAll mode w before).1 rest).2) := by
  induction before generalizing w with
  | nil => rfl
  | cons t before ih =>
    rw [List.cons_append, processAll_cons, processAll_cons]
    dsimp only
    rw [ih, List.cons_append]

/-- Every outcome belongs to the turn of a template `t`, in the workspace that those of `before`
have left. -/
theorem exists_turn_of_mem_outcomes {ts : List Template} {o : Outcome}
    (h : o ∈ (p.processAll mode w ts).2.filterMap Processed.outcome?) :
    ∃ before t after, ts = before ++ t :: after ∧
      (p.process mode (p.processAll mode w before).1 t).2.outcome? = some o := by
  induction ts generalizing w with
  | nil => cases h
  | cons t rest ih =>
    rw [processAll_cons] at h
    dsimp only at h
    rw [← List.singleton_append, List.filterMap_append] at h
    rcases List.mem_append.1 h with h | h
    · obtain ⟨x, hx, hox⟩ := List.mem_filterMap.1 h
      rw [List.mem_singleton.1 hx] at hox
      exact ⟨[], t, rest, rfl, hox⟩
    · obtain ⟨before, t', after, rfl, ho⟩ := ih h
      exact ⟨t :: before, t', after, rfl, ho⟩

theorem processAll_fst (h : mode ≠ .sync) (ts : List Template) :
    (p.processAll mode w ts).1 = w := by
  induction ts generalizing w with
  | nil => rfl
  | cons t rest ih =>
    rw [processAll_cons]
    dsimp only
    rw [process_fst h]
    exact ih

/-- A template is processed from one `Stage` to the next. -/
theorem Stage.process (h : Stage W R p.outputRoot w₀ w)
    (hf : ∃ f : FileName, f.raw = fileName t.identity.name) :
    Stage (fun f => W f ∨ Written ([(p.process mode w t).2].filterMap Processed.outcome?) f) R
      p.outputRoot w₀ (p.process mode w t).1 := by
  by_cases hm : mode = .sync
  · subst hm
    cases hc : p.compile w t with
    | error e =>
      rw [process_of_error hc]
      exact h.mono (fun f => .inl) fun _ => id
    | ok d =>
      obtain ⟨f, hf⟩ := hf
      rw [process_of_ok hc, agentPath, ← hf]
      rcases hs : AgentDocs.settle w .sync (p.outputRoot.join f.raw) d.artifact with ⟨v, r⟩
      refine (h.mono (fun f => .inl) fun _ => id).settle ?_ hs
      rintro rfl
      refine .inr ⟨p.outcome .sync t d .written, ?_, rfl, hf⟩
      simp [Processed.outcome?, ofFile, Except.mapError, Except.map, Except.toOption]
  · rw [process_fst hm]
    exact h.mono (fun f => .inl) fun _ => id

/-- So are all of `ts`. -/
theorem Stage.processAll {ts : List Template} (h : Stage W R p.outputRoot w₀ w)
    (hf : ∀ t ∈ ts, ∃ f : FileName, f.raw = fileName t.identity.name) :
    Stage (fun f => W f ∨ Written ((p.processAll mode w ts).2.filterMap Processed.outcome?) f) R
      p.outputRoot w₀ (p.processAll mode w ts).1 := by
  induction ts generalizing W w with
  | nil => exact h.mono (fun f => .inl) fun _ => id
  | cons t rest ih =>
    rw [List.forall_mem_cons] at hf
    refine (ih (h.process hf.1) hf.2).mono (fun f hW => ?_) fun _ => id
    rw [processAll_cons]
    dsimp only
    rw [← List.singleton_append, List.filterMap_append]
    rcases hW with (hW | ⟨o, ho, hW⟩) | ⟨o, ho, hW⟩
    · exact .inl hW
    · exact .inr ⟨o, List.mem_append_left _ ho, hW⟩
    · exact .inr ⟨o, List.mem_append_right _ ho, hW⟩

end

/-! ## The sweep -/

section
variable {out : PathName} {W R : FileName → Prop} {w₀ w : Workspace}

/-- What a sweep looks at is a file in `dir`. -/
theorem exists_of_mem_candidates {s : Settings} {r : Registry} {filter : RoleFilter}
    {dir : Location} {c : Sweep.Candidate} (h : c ∈ Sweep.candidates w s r filter out dir) :
    ∃ f : FileName, c.path = out.join f.raw ∧ f.text = fileName c.name ∧
      ∃ bytes, w.tree.find? (f :: dir) = some (.file bytes) := by
  simp only [Sweep.candidates, List.mem_mergeSort, List.mem_filterMap] at h
  obtain ⟨f, -, hc⟩ := h
  unfold Sweep.candidate? at hc
  split at hc
  · next bytes hb =>
    cases hn : nameOfFile? f.text with
    | none => simp [hn] at hc
    | some found =>
      simp only [hn, Option.bind_eq_bind, Option.bind_some] at hc
      obtain ⟨i, -, hi⟩ := Option.bind_eq_some_iff.1 hc
      split at hi
      · cases hi
        exact ⟨f, rfl, text_eq_of_nameOfFile? hn, bytes, hb⟩
      · cases hi
  · cases hc

/-- All of `cs` that a sweep removes is reported. -/
theorem Stage.removeAll {force : Bool} {cs : List Sweep.Candidate} (h : Stage W R out w₀ w)
    (hp : out.Passable)
    (hn : ∀ c ∈ cs, ∃ f : FileName, c.path = out.join f.raw ∧ f.text = fileName c.name ∧ ¬ W f ∧
      ∀ dir, (w₀.grown out).directoryAt out.way = .ok dir →
        ∀ target, w.tree.find? (f :: dir) ≠ some (.link target)) :
    Stage W (fun f => R f ∨ Removed out (Sweep.remove force w cs).2.stale f) out w₀
      (Sweep.remove force w cs).1 := by
  cases force with
  | false =>
    rw [Sweep.remove_of_not_force]
    exact h.mono (fun _ => id) fun f => .inl
  | true =>
    induction cs generalizing R w with
    | nil => exact h.mono (fun _ => id) fun f => .inl
    | cons c rest ih =>
      rw [List.forall_mem_cons] at hn
      obtain ⟨⟨f, hpath, hf, hw, hlink⟩, hrest⟩ := hn
      simp only [Sweep.remove, if_true, hpath]
      rcases hr : w.removeFile (out.join f.raw) with ⟨v, e | ⟨⟩⟩
      · obtain ⟨rfl, -⟩ | ⟨he, -⟩ := removeFile_join hr
        · exact ih h hrest
        · cases he
      · have hv : Stage W (fun g => R g ∨ g = f) out w₀ v :=
          (h.mono (fun _ => id) fun g => .inl).remove hp (fun _ => .inr rfl) hw hlink hr
        have hkept : ∀ c ∈ rest, ∃ f : FileName, c.path = out.join f.raw ∧
            f.text = fileName c.name ∧ ¬ W f ∧
            ∀ dir, (w₀.grown out).directoryAt out.way = .ok dir →
              ∀ target, v.tree.find? (f :: dir) ≠ some (.link target) := by
          intro c' hc'
          obtain ⟨g, hg, hgname, hgw, hglink⟩ := hrest c' hc'
          refine ⟨g, hg, hgname, hgw, fun dir hdir target ht => ?_⟩
          obtain ⟨rfl, -⟩ | ⟨-, l, -, -, -, -, rfl⟩ := removeFile_join hr
          · exact hglink dir hdir target ht
          · by_cases hgl : g :: dir = f :: l
            · rw [hgl, show (w.drop (f :: l)).tree.find? (f :: l) = none from
                FileTree.find?_erase_self (by simp)] at ht
              cases ht
            · rw [show (w.drop (f :: l)).tree.find? (g :: dir) = w.tree.find? (g :: dir) from
                FileTree.find?_erase_of_ne hgl] at ht
              exact hglink dir hdir target ht
        refine (ih hv hkept).mono (fun _ => id) fun g hg => ?_
        rcases hg with (hg | rfl) | ⟨s, hs, hg⟩
        · exact .inl hg
        · exact .inr ⟨_, List.mem_cons_self, rfl, rfl, hf⟩
        · exact .inr ⟨s, List.mem_cons_of_mem _ hs, hg⟩

theorem mem_of_mem_stale {force : Bool} {cs : List Sweep.Candidate} {s : Stale}
    (h : s ∈ (Sweep.remove force w cs).2.stale) : ⟨s.name, s.path⟩ ∈ cs := by
  induction cs generalizing w with
  | nil => cases h
  | cons c rest ih =>
    have hcons : ∀ {u : Workspace} {removed : Bool},
        s ∈ ⟨c.name, c.path, removed⟩ :: (Sweep.remove force u rest).2.stale →
          ⟨s.name, s.path⟩ ∈ c :: rest := by
      intro u removed hs
      rcases List.mem_cons.1 hs with rfl | hs
      · exact List.mem_cons_self
      · exact List.mem_cons_of_mem _ (ih hs)
    cases force with
    | false => exact hcons h
    | true =>
      simp only [Sweep.remove, if_true] at h
      rcases hr : w.removeFile c.path with ⟨v, e | ⟨⟩⟩
      · rw [hr] at h
        exact List.mem_cons_of_mem _ (ih h)
      · rw [hr] at h
        exact hcons h

theorem notMem_known_of_mem_stale {s : Settings} {r : Registry} {filter : RoleFilter}
    {force : Bool} {known : List String} {x : Stale}
    (h : x ∈ (Sweep.run w s r filter force out known).2.stale) : x.name ∉ known := by
  unfold Sweep.run at h
  split at h
  · cases h
  · split at h
    · cases h
    · have := (List.mem_filter.1 (mem_of_mem_stale h)).2
      simpa using this

/-- A sweep does not report the file of an agent that is among the `known` ones. -/
theorem raw_ne_of_mem_stale {s : Settings} {r : Registry} {filter : RoleFilter} {force : Bool}
    {known : List String} {x : Stale} {f : FileName} {name : String}
    (h : x ∈ (Sweep.run w s r filter force out known).2.stale) (hx : f.text = fileName x.name)
    (hk : name ∈ known) : f.raw ≠ fileName name := by
  intro hf
  refine notMem_known_of_mem_stale h ?_
  rwa [← eq_of_text_eq_fileName hf hx]

/-- A sweep that leaves out the files that were written goes on to the next `Stage`. -/
theorem Stage.sweep {s : Settings} {r : Registry} {filter : RoleFilter} {force : Bool}
    {known : List String} (h : Stage W R out w₀ w)
    (hW : ∀ f, W f → ∃ name ∈ known, f.raw = fileName name) :
    Stage W (fun f => R f ∨ Removed out (Sweep.run w s r filter force out known).2.stale f) out w₀
      (Sweep.run w s r filter force out known).1 := by
  unfold Sweep.run
  split
  · exact h.mono (fun _ => id) fun f => .inl
  · cases hr : w.openDirectory out with
    | error e => exact h.mono (fun _ => id) fun f => .inl
    | ok dir =>
      obtain ⟨hres, hdir, -⟩ := openDirectory_eq_ok_iff.1 hr
      obtain ⟨hacc, hway⟩ := directoryAt_way_of_resolve hres hdir
      have hp := PathName.passable_of_refusal hacc
      refine h.removeAll hp fun c hc => ?_
      obtain ⟨hcand, hknown⟩ := List.mem_filter.1 hc
      obtain ⟨f, hpath, hf, bytes, hb⟩ := exists_of_mem_candidates hcand
      refine ⟨f, hpath, hf, fun hfW => ?_, fun dir' hdir' target ht => ?_⟩
      · obtain ⟨name', hname', hf'⟩ := hW f hfW
        obtain rfl := eq_of_text_eq_fileName hf' hf
        simp [hname'] at hknown
      · have hg := (h.worked_of_directoryAt hp hway).1
        rw [hg] at hdir'
        cases hdir'
        rw [hb] at ht
        cases ht

end

/-! ## Runs -/

namespace Project

/-- The templates of a run processed. -/
def processed (p : Project) (w : Workspace) (d : Discovery) (o : Options) :
    Workspace × List Processed :=
  p.processAll o.mode w (d.selectedTemplates o.filter p.registry)

/-- The sweep of a run. -/
def swept (p : Project) (w : Workspace) (d : Discovery) (o : Options) :
    Workspace × Sweep.Result :=
  if o.mode = .preview then ((p.processed w d o).1, ⟨[], []⟩)
  else Sweep.run (p.processed w d o).1 p.settings p.registry o.filter o.force p.outputRoot d.names

variable (p : Project) (w : Workspace) (d : Discovery) (o : Options)

theorem swept_eq {p : Project} {w : Workspace} {d : Discovery} {o : Options}
    (h : o.mode ≠ .preview) :
    p.swept w d o = Sweep.run (p.processed w d o).1 p.settings p.registry o.filter o.force
      p.outputRoot d.names := if_neg h

theorem run_fst : (p.run w d o).1 = (p.swept w d o).1 := rfl

theorem run_outcomes :
    (p.run w d o).2.outcomes = (p.processed w d o).2.filterMap Processed.outcome? := rfl

theorem run_drifted :
    (p.run w d o).2.drifted = (p.run w d o).2.outcomes.filterMap Outcome.drifted? := rfl

theorem run_stale : (p.run w d o).2.stale = (p.swept w d o).2.stale := rfl

theorem run_failures :
    (p.run w d o).2.failures =
      (d.selectedUnreadable o.filter p.registry).map (fun u => ⟨u.identity.name, u.error⟩) ++
        (p.processed w d o).2.filterMap Processed.failure? ++ (p.swept w d o).2.failures := rfl

theorem run_failures_eq_nil_iff :
    (p.run w d o).2.failures = [] ↔
      d.selectedUnreadable o.filter p.registry = [] ∧
        (p.processed w d o).2.filterMap Processed.failure? = [] ∧
        (p.swept w d o).2.failures = [] := by
  rw [run_failures, List.append_eq_nil_iff, List.append_eq_nil_iff, List.map_eq_nil_iff, and_assoc]

end Project

section
variable {p : Project} {mode : Mode} {w : Workspace}

theorem outcomes_sublist (p : Project) (mode : Mode) (w : Workspace) (ts : List Template) :
    (((p.processAll mode w ts).2.filterMap Processed.outcome?).map (·.identity)).Sublist
      (ts.map (·.identity)) := by
  induction ts generalizing w with
  | nil => exact .refl _
  | cons t rest ih =>
    rw [processAll_cons, List.map_cons]
    dsimp only
    have hrest := ih (p.process mode w t).1
    cases ho : (p.process mode w t).2.outcome? with
    | none =>
      rw [List.filterMap_cons_none ho]
      exact hrest.cons t.identity
    | some o =>
      rw [List.filterMap_cons_some ho, List.map_cons]
      have hid : o.identity = t.identity := by
        cases hc : p.compile w t with
        | error e =>
          rw [process_of_error hc] at ho
          cases ho
        | ok d =>
          rw [outcome?_process_of_ok hc] at ho
          obtain ⟨action, -, rfl⟩ := Option.map_eq_some_iff.1 ho
          rfl
      rw [hid]
      exact hrest.cons_cons t.identity

theorem exists_of_mem_outcomes {ts : List Template} {o : Outcome}
    (h : o ∈ (p.processAll mode w ts).2.filterMap Processed.outcome?) :
    ∃ t ∈ ts, o.identity = t.identity := by
  obtain ⟨t, ht, hid⟩ := List.mem_map.1
    ((outcomes_sublist p mode w ts).subset (List.mem_map_of_mem h))
  exact ⟨t, ht, hid.symm⟩

theorem name_mem_names {d : Discovery} {t : Template} (h : t ∈ d.templates) :
    t.identity.name ∈ d.names := by
  simp only [Discovery.names, List.mem_mergeSort, List.mem_eraseDups]
  refine List.mem_map_of_mem ?_
  exact List.mem_append_left _ (List.mem_map_of_mem h)

end

theorem processed_stage (p : Project) (w : Workspace) (d : Discovery) (o : Options)
    (hd : ∀ t ∈ d.templates, ∃ f : FileName, f.raw = fileName t.identity.name) :
    Stage (Written (p.run w d o).2.outcomes) (fun _ => False) p.outputRoot w
      (p.processed w d o).1 := by
  have hbegun : Stage (fun _ => False) (fun _ => False) p.outputRoot w w := .begun
  have h : Stage _ _ p.outputRoot w (p.processed w d o).1 :=
    hbegun.processAll fun t ht => hd t (List.mem_filter.1 ht).1
  exact h.mono (fun f hf => hf.resolve_left id) fun _ => id

/-- A run makes missing directories on the path of the agents, and all that it changes otherwise are
files directly in the last of them that it reports as written or as removed. -/
theorem run_stage (p : Project) (w : Workspace) (d : Discovery) (o : Options)
    (hd : ∀ t ∈ d.templates, ∃ f : FileName, f.raw = fileName t.identity.name) :
    Stage (Written (p.run w d o).2.outcomes) (Removed p.outputRoot (p.run w d o).2.stale)
      p.outputRoot w (p.run w d o).1 := by
  have hall := processed_stage p w d o hd
  rw [Project.run_fst, Project.run_stale, Project.swept]
  split
  · exact hall.mono (fun _ => id) fun f hf => hf.elim
  · refine (hall.sweep fun f hf => ?_).mono (fun _ => id) fun f hf => hf.resolve_left id
    obtain ⟨oc, ho, -, hname⟩ := hf
    obtain ⟨t, ht, hid⟩ := exists_of_mem_outcomes ho
    exact ⟨t.identity.name, name_mem_names (List.mem_filter.1 ht).1, by rw [hname, hid]⟩

end AgentDocs
