import AgentDocs.Proofs.Build.Fixpoint
import AgentDocs.Proofs.Build.Stale

/-!
# The changes of a run

A run reports what it changes. Each location of a workspace is as it was, or it is one of the
directories made on the path of the agents, or the place of an artifact that is reported as written
and holds what its template compiled to in this run, or the place of a file that is reported as
removed.

* `find?_sweep`, `exists_of_mem_removed`: the changes of a sweep.
* `written_of_processAll`: the artifacts that are written, where they stand and what they hold.
* `run_changes`: the changes of a run.
-/

namespace AgentDocs

open AgentDocs.Files AgentDocs.Files.Workspace

/-! ## The changes of a sweep -/

section
variable {w : Workspace} {out : PathName} {s : Settings} {r : Registry} {filter : RoleFilter}
  {force : Bool} {known : List String}

theorem removed_of_mem_stale {cs : List Sweep.Candidate} {x : Stale}
    (h : x ∈ (Sweep.remove force w cs).2.stale) : x.removed = force := by
  cases force with
  | false =>
    rw [Sweep.remove_of_not_force] at h
    obtain ⟨c, -, rfl⟩ := List.mem_map.1 h
    rfl
  | true =>
    induction cs generalizing w with
    | nil => cases h
    | cons c rest ih =>
      simp only [Sweep.remove, if_true] at h
      rcases hr : w.removeFile c.path with ⟨v, e | ⟨⟩⟩
      · rw [hr] at h
        exact ih h
      · rw [hr] at h
        rcases List.mem_cons.1 h with rfl | h
        · rfl
        · exact ih h

theorem exists_of_mem_removed {x : Stale}
    (hx : x ∈ (Sweep.run w s r filter force out known).2.stale) (hr : x.removed = true) :
    ∃ f dir bytes, x.path = out.join f.raw ∧ f.text = fileName x.name ∧ out.Passable ∧
      w.directoryAt out.way = .ok dir ∧ w.tree.find? (f :: dir) = some (.file bytes) ∧
      (Sweep.run w s r filter force out known).1.tree.find? (f :: dir) = none := by
  cases hout : w.isDirectory out with
  | false =>
    rw [sweep_of_not_directory hout] at hx
    cases hx
  | true =>
    obtain ⟨dir, hdir, -, hp, hway⟩ := exists_way_of_isDirectory hout
    cases hopen : w.openDirectory out with
    | error e => simp [Sweep.run, hout, hopen] at hx
    | ok dir' =>
      cases hdir.symm.trans (openDirectory_eq_ok_iff.1 hopen).1
      obtain ⟨f, bytes, hpath, hf, hb, hgone⟩ := find?_of_mem_stale hopen hx
      rw [sweep_of_directory hopen] at hx
      exact ⟨f, dir, bytes, hpath, hf, hp, hway, hb,
        hgone.2 ((removed_of_mem_stale hx).symm.trans hr)⟩

/-- A sweep changes nothing at `l` but what it reports as removed. -/
theorem find?_sweep (l : Location) :
    (Sweep.run w s r filter force out known).1.tree.find? l = w.tree.find? l ∨
      ∃ f dir, Removed out (Sweep.run w s r filter force out known).2.stale f ∧
        w.directoryAt out.way = .ok dir ∧ l = f :: dir := by
  cases hout : w.isDirectory out with
  | false => exact .inl (by rw [sweep_of_not_directory hout])
  | true =>
    obtain ⟨dir, -, -, hp, hway⟩ := exists_way_of_isDirectory hout
    by_cases hl : ∃ f, Removed out (Sweep.run w s r filter force out known).2.stale f ∧
        l = f :: dir
    · obtain ⟨f, hf, rfl⟩ := hl
      exact .inr ⟨f, dir, hf, hway, rfl⟩
    · exact .inl (find?_sweep_of_not_removed hp hway fun f hf he => hl ⟨f, hf, he⟩)

end

/-! ## The artifacts that are written -/

section
variable {p : Project} {mode : Mode} {W R : FileName → Prop} {w₀ w v : Workspace}
  {out : PathName} {f : FileName} {a : String} {dir : Location}

/-- Where the artifact `a` is written. It is the same place for a whole run. -/
theorem find?_of_settle_written (h : Stage W R out w₀ w)
    (hs : settle w .sync (out.join f.raw) a = (v, .ok .written)) :
    (out.join f.raw).refusal? = none ∧ ∃ dir, (w₀.grown out).directoryAt out.way = .ok dir ∧
      v.tree.find? (f :: dir) = some (.file a.toUTF8) := by
  rcases settle_sync_cases hs with ⟨-, e, he⟩ | ⟨-, he, -⟩ | ⟨⟨existing, hr⟩, hcases⟩
  · cases he
  · cases he
  · refine ⟨accepted_of_readNormalized? hr, ?_⟩
    rcases hcases with ⟨-, e, he⟩ | ⟨-, l, hl, -, rfl⟩
    · cases he
    · refine ⟨l, ?_, FileTree.find?_insert_self (by simp)⟩
      rcases h.grown_of_read hr with hg | ⟨dir, hg, hdir, hw, -⟩
      · rwa [hg] at hl
      · rw [hw, hdir] at hl
        cases hl
        exact hg

theorem find?_processAll_of_ne {ts : List Template} {e : Entry}
    (hfiles : ∀ t ∈ ts, ∃ f : FileName, f.raw = fileName t.identity.name)
    (hne : ∀ t ∈ ts, f.raw ≠ fileName t.identity.name) (he : w.tree.find? (f :: dir) = some e) :
    (p.processAll mode w ts).1.tree.find? (f :: dir) = some e := by
  have hbegun : Stage (AgentOf ts) (fun _ => False) p.outputRoot w w := .begun
  have hstage : Stage (AgentOf ts) (fun _ => False) p.outputRoot w (p.processAll mode w ts).1 :=
    hbegun.processAll_agents hfiles fun _ => id
  rcases hstage.entries (f :: dir) with hl | ⟨hn, -⟩ | ⟨g, dir', -, hg, hW⟩
  · rw [hl, he]
  · rw [he] at hn
    cases hn
  · cases hg
    obtain ⟨t, ht, hname⟩ := hW.resolve_right id
    exact absurd hname (hne t ht)

theorem written_of_process (h : Stage W R p.outputRoot w₀ w) {t : Template} {f : FileName}
    (hf : f.raw = fileName t.identity.name) {o : Outcome}
    (ho : (p.process .sync w t).2.outcome? = some o) (hw : o.action = .written) :
    ∃ d dir, p.compile w t = .ok d ∧ o = p.outcome .sync t d .written ∧
      (p.outputRoot.join f.raw).refusal? = none ∧
      (w₀.grown p.outputRoot).directoryAt p.outputRoot.way = .ok dir ∧
      (p.process .sync w t).1.tree.find? (f :: dir) = some (.file d.artifact.toUTF8) := by
  cases hc : p.compile w t with
  | error e =>
    rw [process_of_error hc] at ho
    cases ho
  | ok d =>
    rw [outcome?_process_of_ok hc, agentPath, ← hf] at ho
    obtain ⟨action, haction, rfl⟩ := Option.map_eq_some_iff.1 ho
    obtain rfl : action = .written := hw
    rcases hs : settle w .sync (p.outputRoot.join f.raw) d.artifact with ⟨v, e | action⟩
    · rw [hs] at haction
      cases haction
    · rw [hs] at haction
      cases haction
      obtain ⟨hacc, dir, hdir, he⟩ := find?_of_settle_written h hs
      refine ⟨d, dir, rfl, rfl, hacc, hdir, ?_⟩
      rw [process_of_ok hc, agentPath, ← hf, hs]
      exact he

/-- An artifact that `o` reports as written was compiled behind the templates before it, and it
stands in the directory of agents when all of `ts` are processed. -/
theorem written_of_processAll {ts : List Template} (h : Stage W R p.outputRoot w₀ w)
    (hfiles : ∀ t ∈ ts, ∃ f : FileName, f.raw = fileName t.identity.name)
    (hnodup : (ts.map fun t => t.identity.name).Nodup) {o : Outcome}
    (ho : o ∈ (p.processAll .sync w ts).2.filterMap Processed.outcome?) (hw : o.action = .written) :
    ∃ before t after d, ∃ (f : FileName) (dir : Location), ts = before ++ t :: after ∧
      p.compile (p.processAll .sync w before).1 t = .ok d ∧ o = p.outcome .sync t d .written ∧
      f.raw = fileName t.identity.name ∧ (p.outputRoot.join f.raw).refusal? = none ∧
      (w₀.grown p.outputRoot).directoryAt p.outputRoot.way = .ok dir ∧
      (p.processAll .sync w ts).1.tree.find? (f :: dir) = some (.file d.artifact.toUTF8) := by
  obtain ⟨before, t, after, rfl, ht⟩ := exists_turn_of_mem_outcomes ho
  obtain ⟨f, hf⟩ := hfiles t List.mem_append_cons_self
  have hstage : Stage _ R p.outputRoot w₀ (p.processAll .sync w before).1 :=
    h.processAll fun t' ht' => hfiles t' (List.mem_append_left _ ht')
  obtain ⟨d, dir, hc, rfl, hacc, hdir, he⟩ := written_of_process hstage hf ht hw
  refine ⟨before, t, after, d, f, dir, rfl, hc, rfl, hf, hacc, hdir, ?_⟩
  rw [processAll_append, processAll_cons]
  rw [List.map_append, List.map_cons, List.nodup_append, List.nodup_cons] at hnodup
  -- the templates behind it have other agents
  refine find?_processAll_of_ne (fun t' ht' => ?_) (fun t' ht' hname => ?_) he
  · exact hfiles t' (List.mem_append_right _ (List.mem_cons_of_mem _ ht'))
  · exact hnodup.2.1.1 (eq_of_fileName hf hname ▸ List.mem_map_of_mem ht')

end

/-! ## The changes of a run -/

namespace Project

/-- The place of the file of an agent: directly in the directory that the path of the agents leads
to when the missing directories on it are made. -/
def PlaceOf (p : Project) (w : Workspace) (name : String) (l : Location) : Prop :=
  ∃ (f : FileName) (dir : Location), f.raw = fileName name ∧
    (w.grown p.outputRoot).directoryAt p.outputRoot.way = .ok dir ∧ l = f :: dir

/-- A missing directory on the path of the agents was made. -/
def MadeAt (p : Project) (w v : Workspace) (l : Location) : Prop :=
  w.tree.find? l = none ∧ v.tree.find? l = some .directory ∧
    ∃ q ∈ p.outputRoot.prefixes, (w.grown p.outputRoot).resolve q = .ok l

/-- An outcome reports that an artifact was written, and it stands in its place: what the template
compiles to on the workspace that the templates before it have left. -/
def WrittenAt (p : Project) (w v : Workspace) (ts : List Template) (o : Outcome) (l : Location) :
    Prop :=
  ∃ before t after d, ts = before ++ t :: after ∧
    p.compile (p.processAll .sync w before).1 t = .ok d ∧ o = p.outcome .sync t d .written ∧
    p.PlaceOf w t.identity.name l ∧ v.tree.find? l = some (.file d.artifact.toUTF8)

/-- The place of the file of a stale agent: in the same directory, at the path that is reported, and
under a name that is shown as that of the file of the agent. -/
def PlaceOfStale (p : Project) (w : Workspace) (x : Stale) (l : Location) : Prop :=
  ∃ (f : FileName) (dir : Location), x.path = p.outputRoot.join f.raw ∧ f.text = fileName x.name ∧
    (w.grown p.outputRoot).directoryAt p.outputRoot.way = .ok dir ∧ l = f :: dir

/-- The file of a stale agent was removed. -/
def RemovedAt (p : Project) (w v : Workspace) (x : Stale) (l : Location) : Prop :=
  x.removed = true ∧ p.PlaceOfStale w x l ∧ (∃ bytes, w.tree.find? l = some (.file bytes)) ∧
    v.tree.find? l = none

end Project

section
variable {p : Project} {w v : Workspace} {d : Discovery} {o : Options} {r : Report}

theorem Project.PlaceOf.eq {name : String} {l m : Location} (hl : p.PlaceOf w name l)
    (hm : p.PlaceOf w name m) : l = m := by
  obtain ⟨f, dir, hf, hdir, rfl⟩ := hl
  obtain ⟨g, dir', hg, hdir', rfl⟩ := hm
  rw [hdir] at hdir'
  cases hdir'
  rw [FileName.raw_injective (hf.trans hg.symm)]

theorem Project.PlaceOf.name_eq {a b : String} {l : Location} (ha : p.PlaceOf w a l)
    (hb : p.PlaceOf w b l) : a = b := by
  obtain ⟨f, dir, hf, -, rfl⟩ := ha
  obtain ⟨g, dir', hg, -, he⟩ := hb
  cases he
  exact eq_of_fileName hf hg

theorem Project.PlaceOfStale.eq {x : Stale} {l m : Location} (hl : p.PlaceOfStale w x l)
    (hm : p.PlaceOfStale w x m) : l = m := by
  obtain ⟨f, dir, hf, -, hdir, rfl⟩ := hl
  obtain ⟨g, dir', hg, -, hdir', rfl⟩ := hm
  rw [hdir] at hdir'
  cases hdir'
  rw [PathName.join_injective (hf.symm.trans hg)]

theorem Project.PlaceOfStale.name_eq {name : String} {x : Stale} {l : Location}
    (hx : p.PlaceOfStale w x l) (hn : p.PlaceOf w name l) : x.name = name := by
  obtain ⟨f, dir, -, hf, -, rfl⟩ := hx
  obtain ⟨g, dir', hg, -, he⟩ := hn
  cases he
  exact (eq_of_text_eq_fileName hg hf).symm

variable (ha : p.settings.isAccepted = true) (hd : Discovery.search w p.root p.settings = .ok d)
  (hn : ((d.selectedTemplates o.filter p.registry).map (·.identity)).Nodup)
  (h : p.run w d o = (v, r))

include hd h in
theorem removedAt_of_mem {x : Stale} (hx : x ∈ r.stale) (hr : x.removed = true) :
    ∃ l, p.RemovedAt w v x l := by
  have hv : v = (p.swept w d o).1 := by rw [← Project.run_fst, h]
  have hstale : r.stale = (p.swept w d o).2.stale := by rw [← Project.run_stale, h]
  have hu := processed_stage p w d o fun t ht =>
    Discovery.exists_fileName hd (List.mem_append_left _ (List.mem_map_of_mem ht))
  rw [hstale] at hx
  by_cases hm : o.mode = .preview
  · rw [Project.swept, if_pos hm] at hx
    cases hx
  · rw [Project.swept_eq hm] at hv hx
    obtain ⟨f, dir, bytes, hpath, hf, hp, hway, hb, hgone⟩ := exists_of_mem_removed hx hr
    obtain ⟨hg, -⟩ := hu.worked_of_directoryAt hp hway
    refine ⟨f :: dir, hr, ⟨f, dir, hpath, hf, hg, rfl⟩, ⟨bytes, ?_⟩, hv ▸ hgone⟩
    rcases hu.entries (f :: dir) with he | ⟨-, he, -⟩ | ⟨g, dir', -, he, hW⟩
    · rw [← he, hb]
    · rw [hb] at he
      cases he
    · -- what is written belongs to a template, and so it is not swept
      cases he
      obtain ⟨oc, hoc, -, hname⟩ := hW.resolve_right id
      rw [Project.run_outcomes] at hoc
      obtain ⟨t, ht, hid⟩ := exists_of_mem_outcomes hoc
      have hknown := name_mem_names (List.mem_filter.1 ht).1
      rw [hid] at hname
      exact absurd hname (raw_ne_of_mem_stale hx hf hknown)

include ha hd hn h in
theorem writtenAt_of_mem (hm : o.mode = .sync) {oc : Outcome} (hoc : oc ∈ r.outcomes)
    (hw : oc.action = .written) :
    ∃ l, p.WrittenAt w v (d.selectedTemplates o.filter p.registry) oc l ∧
      (v.isDirectory p.outputRoot = true → v.resolve oc.path = .ok l) := by
  have hv : v = (p.swept w d o).1 := by rw [← Project.run_fst, h]
  rw [Project.swept_eq (by rw [hm]; decide)] at hv
  have hr : r = (p.run w d o).2 := by rw [h]
  have hbegun : Stage (fun _ => False) (fun _ => False) p.outputRoot w w := .begun
  rw [hr, Project.run_outcomes, Project.processed, hm] at hoc
  obtain ⟨before, t, after, doc, f, dir, hts, hc, rfl, hf, hacc, hdir, he⟩ :=
    written_of_processAll hbegun (selected_files o.filter hd) (nodup_selected_names ha hd hn) hoc hw
  have hu : (p.processed w d o).1 =
      (p.processAll .sync w (d.selectedTemplates o.filter p.registry)).1 := by
    rw [Project.processed, hm]
  have ht : t ∈ d.templates := by
    have : t ∈ d.selectedTemplates o.filter p.registry := by
      rw [hts]
      exact List.mem_append_cons_self
    exact (List.mem_filter.1 this).1
  have hve : v.tree.find? (f :: dir) = some (.file doc.artifact.toUTF8) := by
    rw [← hu] at he
    rw [hv]
    rcases find?_sweep (f :: dir) with hl | ⟨g, dir', ⟨x, hx, -, -, hname⟩, -, hg⟩
    · rw [hl, he]
    · cases hg
      exact absurd hf (raw_ne_of_mem_stale hx hname (name_mem_names ht))
  refine ⟨f :: dir, ⟨before, t, after, doc, hts, hc, rfl, ⟨f, dir, hf, hdir, rfl⟩, hve⟩, ?_⟩
  intro hout
  obtain ⟨dir', -, -, hp, hway⟩ := exists_way_of_isDirectory hout
  have hstage := run_stage p w d o fun t ht =>
    Discovery.exists_fileName hd (List.mem_append_left _ (List.mem_map_of_mem ht))
  rw [h] at hstage
  have hsame := (hstage.worked_of_directoryAt hp hway).1
  rw [hdir] at hsame
  cases hsame
  obtain ⟨k, hk⟩ := exists_follow_append hway
  show v.resolve (agentPath p.outputRoot t.identity.name) = .ok (f :: dir)
  rw [agentPath, ← hf, resolve_join hacc, hk]
  exact walk_child (directoryAt_eq_ok_iff.1 hway).2 hve (by simp)

include ha hd hn h in
/-- Every change of a run at a location `l` is reported. -/
theorem find?_run (l : Location) :
    v.tree.find? l = w.tree.find? l ∨
      (o.mode = .sync ∧ (p.MadeAt w v l ∨ ∃ oc ∈ r.outcomes, oc.action = .written ∧
        p.WrittenAt w v (d.selectedTemplates o.filter p.registry) oc l)) ∨
      ∃ x ∈ r.stale, p.RemovedAt w v x l := by
  have hv : v = (p.swept w d o).1 := by rw [← Project.run_fst, h]
  have hr : r = (p.run w d o).2 := by rw [h]
  have hu := processed_stage p w d o fun t ht =>
    Discovery.exists_fileName hd (List.mem_append_left _ (List.mem_map_of_mem ht))
  rw [← hr] at hu
  -- up to the sweep
  have hprocessed : (p.processed w d o).1.tree.find? l = w.tree.find? l ∨ o.mode = .sync ∧
      (((p.processed w d o).1.tree.find? l = some .directory ∧ w.tree.find? l = none ∧
        ∃ q ∈ p.outputRoot.prefixes, (w.grown p.outputRoot).resolve q = .ok l) ∨
      ∃ oc ∈ r.outcomes, oc.action = .written ∧
        p.WrittenAt w v (d.selectedTemplates o.filter p.registry) oc l) := by
    by_cases hm : o.mode = .sync
    · rcases hu.entries l with he | ⟨hn, he, hg⟩ | ⟨f, dir, hdir, rfl, hW⟩
      · exact .inl he
      · refine .inr ⟨hm, .inl ⟨he, hn, exists_prefix_of_grown ?_⟩⟩
        rw [hg, hn]
        simp
      · obtain ⟨oc, hoc, haction, hname⟩ := hW.resolve_right id
        obtain ⟨m, hwritten, -⟩ := writtenAt_of_mem ha hd hn h hm hoc haction
        refine .inr ⟨hm, .inr ⟨oc, hoc, haction, ?_⟩⟩
        obtain ⟨-, t, -, doc, -, -, rfl, hplace, -⟩ := id hwritten
        rwa [hplace.eq ⟨f, dir, hname, hdir, rfl⟩] at hwritten
    · exact .inl (by rw [Project.processed, processAll_fst hm])
  by_cases hm : o.mode = .preview
  · rw [Project.swept, if_pos hm] at hv
    subst hv
    rcases hprocessed with he | ⟨hsync, ⟨he, hn, hq⟩ | hwritten⟩
    · exact .inl he
    · exact .inr (.inl ⟨hsync, .inl ⟨hn, he, hq⟩⟩)
    · exact .inr (.inl ⟨hsync, .inr hwritten⟩)
  · rw [Project.swept_eq hm] at hv
    rcases find?_sweep l with hl | ⟨f, dir, ⟨x, hx, hremoved, hpath, hname⟩, hway, rfl⟩
    · rw [← hv] at hl
      rw [hl]
      rcases hprocessed with he | ⟨hsync, ⟨he, hn, hq⟩ | hwritten⟩
      · exact .inl he
      · exact .inr (.inl ⟨hsync, .inl ⟨hn, hl.trans he, hq⟩⟩)
      · exact .inr (.inl ⟨hsync, .inr hwritten⟩)
    · have hx' : x ∈ r.stale := by rwa [hr, Project.run_stale, Project.swept_eq hm]
      obtain ⟨m, hremovedAt⟩ := removedAt_of_mem hd h hx' hremoved
      refine .inr (.inr ⟨x, hx', ?_⟩)
      obtain ⟨-, -, -, -, -, hp, -⟩ := exists_of_mem_removed hx hremoved
      obtain ⟨hg, -⟩ := hu.worked_of_directoryAt hp hway
      rwa [hremovedAt.2.1.eq ⟨f, dir, hpath, hname, hg, rfl⟩] at hremovedAt

include ha hd hn h in
/-- All that a run changes, mode by mode. A preview, and a comparison without force, change nothing.
A comparison with force removes what it reports as removed. A run that writes makes missing
directories on the path of the agents, writes the artifacts that it reports as written, and removes
what it reports as removed. The place of every other agent that has a template is left alone, unless
a missing directory is made there, and what a path of an agent leads to through a link changes only
as the place of another agent. -/
theorem run_changes :
    (o.mode = .preview ∨ o.mode = .validate ∧ o.force = false → v = w) ∧
    (o.mode = .validate → ∀ l, v.tree.find? l = w.tree.find? l ∨
      ∃ x ∈ r.stale, p.RemovedAt w v x l) ∧
    (o.mode = .sync →
      (∀ l, v.tree.find? l = w.tree.find? l ∨ p.MadeAt w v l ∨
        (∃ oc ∈ r.outcomes, oc.action = .written ∧
          p.WrittenAt w v (d.selectedTemplates o.filter p.registry) oc l) ∨
        ∃ x ∈ r.stale, p.RemovedAt w v x l) ∧
      ∀ oc ∈ r.outcomes, oc.action = .written →
        ∃ l, p.WrittenAt w v (d.selectedTemplates o.filter p.registry) oc l ∧
          (v.isDirectory p.outputRoot = true → v.resolve oc.path = .ok l)) ∧
    (∀ x ∈ r.stale, x.removed = true → ∃ l, p.RemovedAt w v x l) ∧
    (∀ i ∈ d.identities, (∀ oc ∈ r.outcomes, oc.identity = i → oc.action ≠ .written) →
      ∀ l, p.PlaceOf w i.name l → v.tree.find? l = w.tree.find? l ∨ p.MadeAt w v l) ∧
    ∀ i ∈ d.identities, ∀ m e, w.resolve (agentPath p.outputRoot i.name) = .ok m →
      w.tree.find? m = some e → ¬ p.PlaceOf w i.name m → v.tree.find? m = some e ∨
        (∃ oc ∈ r.outcomes, oc.action = .written ∧ oc.identity ≠ i ∧
          p.WrittenAt w v (d.selectedTemplates o.filter p.registry) oc m) ∨
        ∃ x ∈ r.stale, x.name ≠ i.name ∧ p.RemovedAt w v x m := by
  have hv : v = (p.swept w d o).1 := by rw [← Project.run_fst, h]
  have hr : r.stale = (p.swept w d o).2.stale := by rw [← Project.run_stale, h]
  have hall := find?_run ha hd hn h
  have hknown : ∀ i ∈ d.identities, ∀ x ∈ r.stale, x.name ≠ i.name := by
    intro i hi x hx hname
    refine absurd (mem_names_iff.2 ⟨i, hi, hname.symm⟩) ?_
    rw [hr] at hx
    by_cases hm : o.mode = .preview
    · rw [Project.swept, if_pos hm] at hx
      cases hx
    · rw [Project.swept_eq hm] at hx
      exact notMem_known_of_mem_stale hx
  refine ⟨?_, fun hm l => ?_, fun hm => ⟨fun l => ?_, fun oc hoc hw => ?_⟩,
    fun x hx hremoved => removedAt_of_mem hd h hx hremoved, fun i hi hno l hl => ?_,
    fun i hi m e _ he hplace => ?_⟩
  · rintro (hm | ⟨hm, hforce⟩)
    · rw [hv, Project.swept, if_pos hm]
      exact processAll_fst (by rw [hm]; decide) _
    · rw [hv, Project.swept_eq (by rw [hm]; decide), hforce, sweep_of_not_force]
      exact processAll_fst (by rw [hm]; decide) _
  · rcases hall l with hl | ⟨hsync, -⟩ | hl
    · exact .inl hl
    · rw [hm] at hsync
      cases hsync
    · exact .inr hl
  · rcases hall l with hl | ⟨-, hl | hl⟩ | hl
    · exact .inl hl
    · exact .inr (.inl hl)
    · exact .inr (.inr (.inl hl))
    · exact .inr (.inr (.inr hl))
  · exact writtenAt_of_mem ha hd hn h hm hoc hw
  · rcases hall l with he | ⟨-, hmade | ⟨oc, hoc, hw, hat⟩⟩ | ⟨x, hx, -, hplace, -⟩
    · exact .inl he
    · exact .inr hmade
    · -- two templates with one name are one template
      obtain ⟨before, t, after, doc, hts, -, rfl, hplace, -⟩ := hat
      have ht : t ∈ d.selectedTemplates o.filter p.registry := by
        rw [hts]
        exact List.mem_append_cons_self
      have hid : t.identity ∈ d.identities :=
        List.mem_append_left _ (List.mem_map_of_mem (List.mem_filter.1 ht).1)
      exact absurd hw (hno _ hoc (Discovery.eq_of_name_eq hd ha hid hi (hplace.name_eq hl)))
    · exact absurd (hplace.name_eq hl) (hknown i hi x hx)
  · rcases hall m with hm | ⟨-, ⟨hnone, -⟩ | ⟨oc, hoc, hw, hat⟩⟩ | ⟨x, hx, hat⟩
    · exact .inl (hm.trans he)
    · rw [he] at hnone
      cases hnone
    · refine .inr (.inl ⟨oc, hoc, hw, ?_, hat⟩)
      rintro rfl
      obtain ⟨-, t, -, doc, -, -, rfl, hat, -⟩ := hat
      exact hplace hat
    · exact .inr (.inr ⟨x, hx, hknown i hi x hx, hat⟩)

end

/-! ## A plain run -/

/-- The template `t` is processed as its artifact is settled. -/
theorem processed_of_single {p : Project} {w u : Workspace} {d : Discovery} {o : Options}
    {t : Template} {doc : AgentDocument} {r : Except FileError Action}
    (hts : d.selectedTemplates o.filter p.registry = [t]) (hc : p.compile w t = .ok doc)
    (hs : settle w o.mode (agentPath p.outputRoot t.identity.name) doc.artifact = (u, r)) :
    p.processed w d o =
      (u, [⟨t.identity, doc.descriptionDefaulted, (ofFile r).map (p.outcome o.mode t doc)⟩]) := by
  simp only [Project.processed, hts, Project.processAll, process_of_ok hc, hs]

theorem run_of_single {p : Project} {w u : Workspace} {d : Discovery} {filter : RoleFilter}
    {t : Template} {doc : AgentDocument} {r : Except FileError Action}
    (hts : d.selectedTemplates filter p.registry = [t]) (hc : p.compile w t = .ok doc)
    (hs : settle w .sync (agentPath p.outputRoot t.identity.name) doc.artifact = (u, r)) :
    (p.run w d ⟨.sync, false, filter⟩).1 = u ∧
      (∀ action, r = .ok action →
        p.outcome .sync t doc action ∈ (p.run w d ⟨.sync, false, filter⟩).2.outcomes) ∧
      ∀ e, r = .error e →
        ⟨t.identity.name, .file e⟩ ∈ (p.run w d ⟨.sync, false, filter⟩).2.failures := by
  have hp := processed_of_single (o := ⟨.sync, false, filter⟩) hts hc hs
  refine ⟨?_, ?_, ?_⟩
  · rw [Project.run_fst, Project.swept_eq (by simp), sweep_of_not_force, hp]
  · rintro action rfl
    rw [Project.run_outcomes, hp]
    exact List.mem_singleton.2 rfl
  · rintro e rfl
    rw [Project.run_failures, hp]
    refine List.mem_append_left _ (List.mem_append_right _ ?_)
    exact List.mem_singleton.2 rfl

/-- What the template of the plain project compiles to. -/
def plainDocument : AgentDocument := .compile .standard .empty ⟨"pm", "x"⟩ "text".toList

theorem compile_plain (w : Workspace) : plain.compile w plainTemplate = .ok plainDocument :=
  compile_plainText plain w plainTemplate (by decide)

/-- The place of its agent. -/
def plainPlace : Location := shelfFile :: shelfDirectory

theorem run_changes_plain :
    plain.settings.isAccepted = true ∧
      Discovery.search plainWorkspace plain.root plain.settings = .ok plainDiscovery ∧
      (plain.run plainWorkspace plainDiscovery ⟨.sync, false, .all⟩).1.tree.find? plainPlace =
        some (.file plainDocument.artifact.toUTF8) ∧
      ∀ i ∈ plainDiscovery.identities, (∀ oc ∈ (plain.run plainWorkspace plainDiscovery
          ⟨.sync, false, .all⟩).2.outcomes, oc.identity = i → oc.action ≠ .written) →
        ∀ l, plain.PlaceOf plainWorkspace i.name l →
          (plain.run plainWorkspace plainDiscovery ⟨.sync, false, .all⟩).1.tree.find? l =
              plainWorkspace.tree.find? l ∨
            plain.MadeAt plainWorkspace
              (plain.run plainWorkspace plainDiscovery ⟨.sync, false, .all⟩).1 l := by
  have ha : plain.settings.isAccepted = true := by decide +kernel
  have hd : Discovery.search plainWorkspace plain.root plain.settings = .ok plainDiscovery := by
    decide +kernel
  have hdir : (plainWorkspace.grown plain.outputRoot).directoryAt plain.outputRoot.way =
      .ok shelfDirectory := by decide +kernel
  have hplace : plain.PlaceOf plainWorkspace "pm-x" plainPlace :=
    ⟨shelfFile, _, by decide +kernel, hdir, rfl⟩
  have hsettle : (settle plainWorkspace .sync (agentPath plain.outputRoot "pm-x")
      plainDocument.artifact).2 = .ok .written := by decide +kernel
  rcases hs : settle plainWorkspace .sync (agentPath plain.outputRoot "pm-x")
    plainDocument.artifact with ⟨u, r⟩
  rw [hs] at hsettle
  have hts : plainDiscovery.selectedTemplates .all plain.registry = plainDiscovery.templates := rfl
  obtain ⟨-, houtcome, -⟩ :=
    run_of_single hts (compile_plain plainWorkspace) hs
  obtain ⟨-, -, hsync, -, hothers, -⟩ :=
    run_changes ha hd (by decide) (o := ⟨.sync, false, .all⟩) (Prod.eta _).symm
  refine ⟨ha, hd, ?_, hothers⟩
  obtain ⟨l, ⟨before, t, after, doc, hts, hc, -, hl, he⟩, -⟩ :=
    (hsync rfl).2 _ (houtcome _ hsettle) rfl
  have ht : t ∈ plainDiscovery.templates := by
    have : t ∈ plainDiscovery.selectedTemplates .all plain.registry := by
      rw [hts]
      exact List.mem_append_cons_self
    exact (List.mem_filter.1 this).1
  obtain rfl := List.mem_singleton.1 ht
  obtain rfl : plainDocument = doc := Except.ok.inj ((compile_plain _).symm.trans hc)
  rw [hplace.eq hl]
  exact he

/-! ## Runs that change more -/

/-- A project whose agents stand in a directory that is named in a roundabout way. -/
def winding (output : String) : Project where
  root := ⟨"."⟩
  settings := { Settings.standard with outputDir := ⟨output⟩ }
  registry := .empty
  handoffs := .standard

/-- The discovery of its one template. -/
def windingDiscovery : Discovery where
  templates := [detourTemplate "a"]
  unreadable := []
  partials := []

/-- Its workspace, in which the directory of the agents holds one more entry or none. -/
def windingWorkspace (agent : Option Entry) : Workspace :=
  let w := (workspaceWith firstFile "text").put detourDirectory .directory
  match agent with
  | none => w
  | some e => w.put (missingFile :: detourDirectory) e

/-- The path of the agents goes through the place of an agent, where nothing stands. -/
def throughMissing : Project := winding "x/pm-a.agent.md/.."

/-- The path of the agents goes through the place of an agent, where a link to a directory stands,
and through a missing directory. -/
def throughLink : Project := winding "x/pm-a.agent.md/x/missing/.."

/-- The workspace for it: the link leads up, so that the path comes back. -/
def linkWorkspace : Workspace := windingWorkspace (some (.link ".."))

theorem compile_winding (output : String) (w : Workspace) :
    (winding output).compile w (detourTemplate "a") = .ok (detourDocument "a") :=
  compile_plainText (winding output) w (detourTemplate "a") (by simp [detourTemplate])

theorem run_throughMissing :
    (∃ f ∈ (throughMissing.run (windingWorkspace none) windingDiscovery
        ⟨.sync, false, .all⟩).2.failures, f.subject = "pm-a") ∧
      (throughMissing.run (windingWorkspace none) windingDiscovery
        ⟨.sync, false, .all⟩).1.isDirectory (agentPath throughMissing.outputRoot "pm-a") =
          true := by
  have hsettle : (settle (windingWorkspace none) .sync
        (agentPath throughMissing.outputRoot "pm-a") (detourDocument "a").artifact).2 =
          .error .isDirectory ∧
      (settle (windingWorkspace none) .sync (agentPath throughMissing.outputRoot "pm-a")
        (detourDocument "a").artifact).1.isDirectory
          (agentPath throughMissing.outputRoot "pm-a") = true := by decide +kernel
  rcases hs : settle (windingWorkspace none) .sync (agentPath throughMissing.outputRoot "pm-a")
    (detourDocument "a").artifact with ⟨u, r⟩
  rw [hs] at hsettle
  have hts : windingDiscovery.selectedTemplates .all throughMissing.registry =
      [detourTemplate "a"] := rfl
  obtain ⟨hrun, -, hfailure⟩ := run_of_single hts (compile_winding _ _) hs
  refine ⟨⟨_, hfailure _ hsettle.1, by decide⟩, ?_⟩
  rw [hrun]
  exact hsettle.2

theorem run_throughLink :
    (∃ oc ∈ (throughLink.run linkWorkspace windingDiscovery ⟨.sync, false, .all⟩).2.outcomes,
        oc.action = .written ∧ oc.path = agentPath throughLink.outputRoot "pm-a") ∧
      (throughLink.run linkWorkspace windingDiscovery ⟨.sync, false, .all⟩).1.leads
        (agentPath throughLink.outputRoot "pm-a") = false := by
  have hsettle : (settle linkWorkspace .sync (agentPath throughLink.outputRoot "pm-a")
        (detourDocument "a").artifact).2 = .ok .written ∧
      (settle linkWorkspace .sync (agentPath throughLink.outputRoot "pm-a")
        (detourDocument "a").artifact).1.leads (agentPath throughLink.outputRoot "pm-a") =
          false := by decide +kernel
  rcases hs : settle linkWorkspace .sync (agentPath throughLink.outputRoot "pm-a")
    (detourDocument "a").artifact with ⟨u, r⟩
  rw [hs] at hsettle
  have hts : windingDiscovery.selectedTemplates .all throughLink.registry =
      [detourTemplate "a"] := rfl
  obtain ⟨hrun, houtcome, -⟩ := run_of_single hts (compile_winding _ _) hs
  refine ⟨⟨_, houtcome _ hsettle.1, rfl, rfl⟩, ?_⟩
  rw [hrun]
  exact hsettle.2

/-- Four runs on discovered projects with ordinary settings. In the first, a template fails and yet
its artifact path leads to a directory afterwards, which was missing before. In the second, the file
behind a link in the place of an agent is removed. In the third, an artifact is reported as written
and its path leads nowhere. In the fourth, two templates that are shown alike are reported as
written, and what the first one compiles to stands nowhere. -/
theorem run_exceeds :
    (throughMissing.settings.isAccepted = true ∧
      Discovery.search (windingWorkspace none) throughMissing.root throughMissing.settings =
        .ok windingDiscovery ∧
      (∃ f ∈ (throughMissing.run (windingWorkspace none) windingDiscovery
        ⟨.sync, false, .all⟩).2.failures, f.subject = "pm-a") ∧
      (windingWorkspace none).leads (agentPath throughMissing.outputRoot "pm-a") = false ∧
      (throughMissing.run (windingWorkspace none) windingDiscovery
        ⟨.sync, false, .all⟩).1.isDirectory (agentPath throughMissing.outputRoot "pm-a") = true) ∧
    (detour.settings.isAccepted = true ∧
      Discovery.search detourWorkspace detour.root detour.settings = .ok detourDiscovery ∧
      detourWorkspace.tree.find? (linkedFile :: detourDirectory) = some (.link staleFile.text) ∧
      (∃ bytes, detourWorkspace.tree.find? (staleFile :: detourDirectory) = some (.file bytes)) ∧
      (detour.run detourWorkspace detourDiscovery ⟨.sync, true, .all⟩).1.tree.find?
        (staleFile :: detourDirectory) = none) ∧
    (throughLink.settings.isAccepted = true ∧
      Discovery.search linkWorkspace throughLink.root throughLink.settings =
        .ok windingDiscovery ∧
      (∃ oc ∈ (throughLink.run linkWorkspace windingDiscovery ⟨.sync, false, .all⟩).2.outcomes,
        oc.action = .written ∧ oc.path = agentPath throughLink.outputRoot "pm-a") ∧
      (throughLink.run linkWorkspace windingDiscovery ⟨.sync, false, .all⟩).1.leads
        (agentPath throughLink.outputRoot "pm-a") = false) ∧
    shelf.settings.isAccepted = true ∧
      Discovery.search lookalikeWorkspace shelf.root shelf.settings = .ok lookalikeDiscovery ∧
      (∃ oc ∈ (shelf.run lookalikeWorkspace lookalikeDiscovery ⟨.sync, false, .all⟩).2.outcomes,
        oc = shelf.outcome .sync (blurredTemplate 254 "two") (blurredDocument "two") .written) ∧
      (shelf.run lookalikeWorkspace lookalikeDiscovery ⟨.sync, false, .all⟩).1.readNormalized?
          (agentPath shelf.outputRoot "pm-a\ufffd") = .ok (some (blurredDocument "one").artifact) ∧
      (blurredDocument "two").artifact ≠ (blurredDocument "one").artifact := by
  have hdetour := detourFacts
  have hlookalike := lookalikeFacts
  have hgone : detourSwept.tree.find? (staleFile :: detourDirectory) = none :=
    FileTree.find?_erase_self (by simp)
  have hmissing : (windingWorkspace none).leads (agentPath throughMissing.outputRoot "pm-a") =
      false := by decide +kernel
  refine ⟨⟨by decide +kernel, by decide +kernel, run_throughMissing.1, hmissing,
    run_throughMissing.2⟩,
    ⟨hdetour.accepted, search_detour, by decide +kernel, ⟨_, find?_staleFile⟩, ?_⟩,
    ⟨by decide +kernel, by decide +kernel, run_throughLink.1, run_throughLink.2⟩,
    hlookalike.accepted, search_lookalike, ?_, ?_, artifact_blurred_ne⟩
  · rw [synced_detour.1]
    exact hgone
  · rw [(run_lookalike false).2.2]
    exact ⟨_, List.mem_cons_self, rfl⟩
  · rw [(run_lookalike false).1]
    exact read_lookalike _ _

end AgentDocs
