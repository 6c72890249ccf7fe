import AgentDocs.Proofs.Build.Changes
import AgentDocs.Proofs.Files.Same

/-!
# Templates alone

Where no template reads what a run does for the others, each is processed as though it were the only
one, and the changes of all of them are the changes that each makes alone, put together.

* `Independent`: no template reads what processing another one alone changes.
* `settle_alone`, `process_alone`: one template behind others makes the changes it makes alone.
* `Independent.not_written`: templates with one artifact do not write it, for each would read it.
* `Independent.agree`: two templates do not change one place in two ways.
* `processAll_alone`: all templates, by induction on those that are left.
* `Independent.of_linkFree`: templates whose agents are no links.
-/

namespace AgentDocs

open AgentDocs.Files AgentDocs.Files.Workspace

/-! ## Templates that do not read each other's agents -/

/-- Place by place, the workspace `v` is as `w` or as processing one of the templates `ts` other
than `t` alone leaves `w`. The other templates are those of other paths, whatever their
identities. -/
structure Project.Beside (p : Project) (w : Workspace) (ts : List Template) (t : Template)
    (v : Workspace) : Prop where
  start : v.start = w.start
  sealed : v.sealed = w.sealed
  entries : ∀ l, v.tree.find? l = w.tree.find? l ∨ ∃ t' ∈ ts, t'.path ≠ t.path ∧
    v.tree.find? l = (p.process .sync w t').1.tree.find? l

/-- No template reads what a run does for the others: it compiles alike, and the path of its agent
is read alike. -/
structure Independent (p : Project) (w : Workspace) (ts : List Template) : Prop where
  compile : ∀ t ∈ ts, ∀ v, p.Beside w ts t v → p.compile v t = p.compile w t
  read : ∀ t ∈ ts, ∀ v, p.Beside w ts t v →
    v.readNormalized? (agentPath p.outputRoot t.identity.name) =
      w.readNormalized? (agentPath p.outputRoot t.identity.name)

/-- The step from `v` to `y` makes the changes of the step from `w` to `x`, and no others. -/
def Echoes (w x v y : Workspace) : Prop :=
  ∀ l, (x.tree.find? l = w.tree.find? l → y.tree.find? l = v.tree.find? l) ∧
    (x.tree.find? l ≠ w.tree.find? l → y.tree.find? l = x.tree.find? l)

section
variable {p : Project} {W : FileName → Prop} {out : PathName} {w x v y : Workspace} {f : FileName}
  {a : String} {dir : Location}

theorem Echoes.refl (w x : Workspace) : Echoes w x w x := fun _ => ⟨id, fun _ => rfl⟩

theorem echoes_self (w v : Workspace) : Echoes w w v v :=
  fun _ => ⟨fun _ => rfl, fun h => absurd rfl h⟩

/-- What is made on the path of the agents is there at every later stage `v`. -/
theorem Worked.echoes_grown (h : Worked W (fun _ => False) (w.grown out) v dir) :
    Echoes w (w.grown out) v v := by
  refine fun l => ⟨fun _ => rfl, fun hl => ?_⟩
  rcases (grows_grown w out).entries l with he | ⟨-, hd⟩
  · exact absurd he hl
  · rw [hd]
    simpa [FileTree.isDirectory] using h.isDirectory (l := l) (by simp [FileTree.isDirectory, hd])

theorem Worked.echoes_put {bytes : ByteArray}
    (h : Worked W (fun _ => False) (w.grown out) v dir) (hW : ¬ W f) :
    Echoes w ((w.grown out).put (f :: dir) (.file bytes)) v (v.put (f :: dir) (.file bytes)) := by
  intro l
  by_cases hl : l = f :: dir
  · subst hl
    have hx : ((w.grown out).put (f :: dir) (.file bytes)).tree.find? (f :: dir) =
        some (.file bytes) := FileTree.find?_insert_self (by simp)
    have hy : (v.put (f :: dir) (.file bytes)).tree.find? (f :: dir) = some (.file bytes) :=
      FileTree.find?_insert_self (by simp)
    rw [hx, hy]
    refine ⟨fun he => ?_, fun _ => rfl⟩
    rw [h.find?_eq hW id, (grows_grown w out).find?_of_some he.symm]
  · have hx : ((w.grown out).put (f :: dir) (.file bytes)).tree.find? l =
        (w.grown out).tree.find? l := FileTree.find?_insert_of_ne hl
    have hy : (v.put (f :: dir) (.file bytes)).tree.find? l = v.tree.find? l :=
      FileTree.find?_insert_of_ne hl
    rw [hx, hy]
    exact h.echoes_grown l

/-! ## One template behind others -/

theorem Worked.write_alone {bytes : ByteArray} (h : Worked W (fun _ => False) (w.grown out) v dir)
    (hW : ¬ W f) (ha : (out.join f.raw).refusal? = none)
    (hg : (w.grown out).directoryAt out.way = .ok dir) (hv : v.directoryAt out.way = .ok dir) :
    (v.write (out.join f.raw) bytes).2 = ((w.grown out).write (out.join f.raw) bytes).2 ∧
      Echoes w ((w.grown out).write (out.join f.raw) bytes).1 v
        (v.write (out.join f.raw) bytes).1 := by
  rw [write_of_directoryAt ha hg, write_of_directoryAt ha hv, replaceFile_of_directoryAt ha hg,
    replaceFile_of_directoryAt ha hv, h.find?_eq hW id]
  split
  · exact ⟨rfl, h.echoes_grown⟩
  · split
    · exact ⟨rfl, h.echoes_grown⟩
    · exact ⟨rfl, h.echoes_put hW⟩

theorem write_alone {bytes : ByteArray} {existing : Option String}
    (h : Stage W (fun _ => False) out w v) (hW : ¬ W f)
    (hr : v.readNormalized? (out.join f.raw) = .ok existing) :
    (v.write (out.join f.raw) bytes).2 = (w.write (out.join f.raw) bytes).2 ∧
      Echoes w (w.write (out.join f.raw) bytes).1 v (v.write (out.join f.raw) bytes).1 := by
  have ha := accepted_of_readNormalized? hr
  have hp := PathName.passable_of_join ha
  cases h with
  | begun => exact ⟨rfl, .refl _ _⟩
  | made =>
    rw [write_grown hr]
    by_cases hd : ∃ dir, (w.grown out).directoryAt out.way = .ok dir
    · obtain ⟨dir, hdir⟩ := hd
      exact (Worked.refl _ dir).write_alone hW ha hdir hdir
    · -- the second attempt fails like the first
      rcases hw : (w.grown out).write (out.join f.raw) bytes with ⟨u, r⟩
      rcases write_join hw with ⟨rfl, -⟩ | ⟨-, l, hl, -⟩
      · rw [grown_grown w hp]
        exact ⟨rfl, fun l => ⟨fun _ => rfl, fun _ => rfl⟩⟩
      · rw [grown_grown w hp] at hl
        exact absurd ⟨l, hl⟩ hd
  | @worked _ dir hdir hworked =>
    rw [write_grown_of_directoryAt ha hdir]
    exact hworked.write_alone hW ha hdir (hworked.directoryAt_of_read hdir hr)

/-- The artifact `a` is settled behind others as it is settled alone. -/
theorem settle_alone (h : Stage W (fun _ => False) out w v) (hW : ¬ W f)
    (hread : v.readNormalized? (out.join f.raw) = w.readNormalized? (out.join f.raw)) :
    (settle v .sync (out.join f.raw) a).2 = (settle w .sync (out.join f.raw) a).2 ∧
      Echoes w (settle w .sync (out.join f.raw) a).1 v
        (settle v .sync (out.join f.raw) a).1 := by
  simp only [settle, hread]
  cases hr : w.readNormalized? (out.join f.raw) with
  | error e => exact ⟨rfl, echoes_self w v⟩
  | ok existing =>
    dsimp only
    split
    · exact ⟨rfl, echoes_self w v⟩
    · obtain ⟨hresult, hechoes⟩ :
          (v.write (out.join f.raw) a.toUTF8).2 = (w.write (out.join f.raw) a.toUTF8).2 ∧
            Echoes w (w.write (out.join f.raw) a.toUTF8).1 v
              (v.write (out.join f.raw) a.toUTF8).1 := write_alone h hW (hread.trans hr)
      rcases hx : w.write (out.join f.raw) a.toUTF8 with ⟨x, rx⟩
      rcases hy : v.write (out.join f.raw) a.toUTF8 with ⟨y, ry⟩
      rw [hx, hy] at hresult hechoes
      dsimp only at hresult hechoes
      subst hresult
      cases ry <;> exact ⟨rfl, hechoes⟩

/-- A template that compiles in `v` as in `w`, and reads the path of its agent alike, is processed
behind others as it is processed alone. -/
theorem process_alone {p : Project} {t : Template} (h : Stage W (fun _ => False) p.outputRoot w v)
    (hf : f.raw = fileName t.identity.name) (hW : ¬ W f) (hc : p.compile v t = p.compile w t)
    (hr : v.readNormalized? (agentPath p.outputRoot t.identity.name) =
      w.readNormalized? (agentPath p.outputRoot t.identity.name)) :
    (p.process .sync v t).2 = (p.process .sync w t).2 ∧
      Echoes w (p.process .sync w t).1 v (p.process .sync v t).1 := by
  cases hd : p.compile w t with
  | error e =>
    rw [process_of_error hd, process_of_error (hc.trans hd)]
    exact ⟨rfl, echoes_self w v⟩
  | ok d =>
    rw [process_of_ok hd, process_of_ok (hc.trans hd)]
    rw [agentPath, ← hf] at hr ⊢
    obtain ⟨hresult, hechoes⟩ :
        (settle v .sync (p.outputRoot.join f.raw) d.artifact).2 =
            (settle w .sync (p.outputRoot.join f.raw) d.artifact).2 ∧
          Echoes w (settle w .sync (p.outputRoot.join f.raw) d.artifact).1 v
            (settle v .sync (p.outputRoot.join f.raw) d.artifact).1 := settle_alone h hW hr
    refine ⟨?_, hechoes⟩
    dsimp only
    rw [hresult]

end

/-! ## All templates -/

/-- A workspace has the changes that processing each of some templates alone makes, and no
others. -/
structure Project.Combines (p : Project) (w : Workspace) (ts : List Template) (v : Workspace) :
    Prop where
  start : v.start = w.start
  sealed : v.sealed = w.sealed
  kept : ∀ l, (∀ t ∈ ts, (p.process .sync w t).1.tree.find? l = w.tree.find? l) →
    v.tree.find? l = w.tree.find? l
  made : ∀ l, ∀ t ∈ ts, (p.process .sync w t).1.tree.find? l ≠ w.tree.find? l →
    v.tree.find? l = (p.process .sync w t).1.tree.find? l

section
variable {p : Project} {w v x y : Workspace} {ts before rest : List Template} {t t' : Template}
  {l : Location}

theorem Project.Combines.nil (p : Project) (w : Workspace) : p.Combines w [] w :=
  ⟨rfl, rfl, fun _ _ => rfl, fun _ _ h => absurd h List.not_mem_nil⟩

theorem process_changes (hfile : ∃ f : FileName, f.raw = fileName t.identity.name)
    (hl : (p.process .sync w t).1.tree.find? l ≠ w.tree.find? l) :
    ((p.process .sync w t).1.tree.find? l = some .directory ∧
        (w.grown p.outputRoot).tree.find? l = some .directory) ∨
      p.PlaceOf w t.identity.name l ∧ (w.grown p.outputRoot).tree.find? l ≠ some .directory ∧
        ∃ bytes, (p.process .sync w t).1.tree.find? l = some (.file bytes) := by
  have hbegun : Stage (AgentOf [t]) (fun _ => False) p.outputRoot w w := .begun
  have hstage : Stage (AgentOf [t]) (fun _ => False) p.outputRoot w (p.process .sync w t).1 := by
    refine hbegun.process_agents (fun t' ht' => ?_) List.mem_cons_self
    rwa [List.mem_singleton.1 ht']
  rcases hstage.changed l with he | ⟨-, hd, hg⟩ | ⟨f, dir, hdir, rfl, ⟨hf, hn, hb⟩ | ⟨hR, -⟩⟩
  · exact absurd he hl
  · exact .inl ⟨hd, hg⟩
  · obtain ⟨t', ht', hname⟩ := hf
    rw [List.mem_singleton.1 ht'] at hname
    exact .inr ⟨⟨f, dir, hname, hdir, rfl⟩, hn, hb⟩
  · exact hR.elim

/-- Where `t'` has the same artifact, processing it alone puts no file in the place of the artifact:
reading it there afterwards would find another text than before. -/
theorem Independent.not_written (hi : Independent p w ts) (ht : t ∈ ts) (ht' : t' ∈ ts)
    (hne : t'.path ≠ t.path) (hname : t'.identity.name = t.identity.name) {f : FileName}
    {dir : Location} {bytes : ByteArray} (hf : f.raw = fileName t.identity.name)
    (hdir : (w.grown p.outputRoot).directoryAt p.outputRoot.way = .ok dir)
    (hb : (p.process .sync w t').1.tree.find? (f :: dir) = some (.file bytes)) :
    w.tree.find? (f :: dir) = some (.file bytes) := by
  cases hc : p.compile w t' with
  | error e => rwa [process_of_error hc] at hb
  | ok d =>
    have hv : p.Beside w ts t (p.process .sync w t').1 := by
      have hbegun : Stage (fun _ => False) (fun _ => False) p.outputRoot w w := .begun
      have hfile : ∃ f : FileName, f.raw = fileName t'.identity.name := ⟨f, hname ▸ hf⟩
      exact ⟨(hbegun.process hfile).start, (hbegun.process hfile).sealed,
        fun l => .inr ⟨t', ht', hne, rfl⟩⟩
    have hread := hi.read t ht _ hv
    rw [process_of_ok hc] at hread hb
    rw [agentPath, agentPath, hname, ← hf] at hread
    rw [agentPath, hname, ← hf] at hb
    rcases hs : settle w .sync (p.outputRoot.join f.raw) d.artifact with ⟨v, r⟩
    rw [hs] at hread hb
    dsimp only at hread hb
    rcases settle_sync_cases hs with ⟨rfl, -⟩ | ⟨rfl, -⟩ | ⟨⟨existing, hr⟩, ⟨rfl, -⟩ | ⟨rfl, -⟩⟩
    · exact hb
    · exact hb
    · rcases (grows_grown w p.outputRoot).entries (f :: dir) with he | ⟨-, he⟩
      · rwa [← he]
      · rw [he] at hb
        cases hb
    · -- a path that crosses itself cannot be read any more, and any other one reads the new text
      exfalso
      obtain ⟨hnew, hstopped⟩ := readNormalized?_of_settle (normalized_artifact d) hs
      by_cases hcross : w.CrossesItself (p.outputRoot.join f.raw)
      · rw [hr, hstopped hcross] at hread
        cases hread
      · rw [hnew hcross] at hread
        rw [settle_of_read hread.symm] at hs
        cases hs

theorem Independent.agree (hi : Independent p w ts) (ht : t ∈ ts) (ht' : t' ∈ ts)
    (hne : t'.path ≠ t.path) (hfile : ∃ f : FileName, f.raw = fileName t.identity.name)
    (hfile' : ∃ f : FileName, f.raw = fileName t'.identity.name)
    (hl : (p.process .sync w t).1.tree.find? l ≠ w.tree.find? l)
    (hl' : (p.process .sync w t').1.tree.find? l ≠ w.tree.find? l) :
    (p.process .sync w t').1.tree.find? l = (p.process .sync w t).1.tree.find? l := by
  rcases process_changes hfile hl with ⟨hd, hg⟩ | ⟨hplace, hn, -⟩ <;>
    rcases process_changes hfile' hl' with ⟨hd', hg'⟩ | ⟨hplace', hn', bytes, hb⟩
  · rw [hd, hd']
  · exact absurd hg hn'
  · exact absurd hg' hn
  · have hname := hplace'.name_eq hplace
    obtain ⟨f, dir, hf, hdir, rfl⟩ := hplace
    rw [hb, hi.not_written ht ht' hne hname hf hdir hb] at hl'
    exact absurd rfl hl'

theorem Project.Combines.concat (h : p.Combines w before v) (hy : y.start = v.start)
    (hsealed : y.sealed = v.sealed)
    (he : Echoes w (p.process .sync w t).1 v y)
    (hagree : ∀ l, ∀ t' ∈ before, (p.process .sync w t').1.tree.find? l ≠ w.tree.find? l →
      (p.process .sync w t).1.tree.find? l ≠ w.tree.find? l →
      (p.process .sync w t').1.tree.find? l = (p.process .sync w t).1.tree.find? l) :
    p.Combines w (before ++ [t]) y where
  start := hy.trans h.start
  sealed := hsealed.trans h.sealed
  kept := by
    intro l hkept
    have ht := hkept t List.mem_append_cons_self
    rw [(he l).1 ht]
    exact h.kept l fun t' ht' => hkept t' (List.mem_append_left _ ht')
  made := by
    intro l t' ht' hl
    rcases List.mem_append.1 ht' with ht' | ht'
    · by_cases ht : (p.process .sync w t).1.tree.find? l = w.tree.find? l
      · rw [(he l).1 ht]
        exact h.made l t' ht' hl
      · rw [(he l).2 ht]
        exact (hagree l t' ht' hl ht).symm
    · obtain rfl := List.mem_singleton.1 ht'
      exact (he l).2 hl

theorem Project.changed_or_kept (p : Project) (w : Workspace) (ts : List Template) (l : Location) :
    (∃ t ∈ ts, (p.process .sync w t).1.tree.find? l ≠ w.tree.find? l) ∨
      ∀ t ∈ ts, (p.process .sync w t).1.tree.find? l = w.tree.find? l := by
  by_cases hl : ∃ t ∈ ts, (p.process .sync w t).1.tree.find? l ≠ w.tree.find? l
  · exact .inl hl
  · push Not at hl
    exact .inr hl

/-- What the templates of `before` have changed is nothing but what each of them changes alone. -/
theorem Project.Combines.beside (h : p.Combines w before v) (hsub : ∀ t' ∈ before, t' ∈ ts)
    (hne : ∀ t' ∈ before, t'.path ≠ t.path) : p.Beside w ts t v where
  start := h.start
  sealed := h.sealed
  entries := by
    intro l
    rcases p.changed_or_kept w before l with ⟨t', ht', hl⟩ | hkept
    · exact .inr ⟨t', hsub t' ht', hne t' ht', h.made l t' ht' hl⟩
    · exact .inl (h.kept l hkept)

theorem Project.Combines.same {ts' : List Template} (h : p.Combines w ts v)
    (h' : p.Combines w ts' x) (hmem : ∀ t, t ∈ ts' ↔ t ∈ ts) : Same v x where
  start := h'.start.trans h.start.symm
  sealed := h'.sealed.trans h.sealed.symm
  entries := by
    intro l
    rcases p.changed_or_kept w ts l with ⟨t, ht, hl⟩ | hkept
    · rw [h.made l t ht hl, h'.made l t ((hmem t).2 ht) hl]
    · rw [h.kept l hkept, h'.kept l fun t ht => hkept t ((hmem t).1 ht)]

theorem Project.Combines.find?_agent (h : p.Combines w before v) (hi : Independent p w ts)
    (ht : t ∈ ts) (hsub : ∀ t' ∈ before, t' ∈ ts) (hne : ∀ t' ∈ before, t'.path ≠ t.path)
    (hfiles : ∀ t' ∈ before, ∃ f : FileName, f.raw = fileName t'.identity.name) {f : FileName}
    (hf : f.raw = fileName t.identity.name) (dir : Location) (bytes : ByteArray)
    (hdir : (w.grown p.outputRoot).directoryAt p.outputRoot.way = .ok dir)
    (hb : v.tree.find? (f :: dir) = some (.file bytes)) :
    w.tree.find? (f :: dir) = some (.file bytes) := by
  rcases p.changed_or_kept w before (f :: dir) with ⟨t', ht', hl⟩ | hkept
  · rw [h.made _ t' ht' hl] at hb
    rcases process_changes (hfiles t' ht') hl with ⟨hd, -⟩ | ⟨⟨g, dir', hg, -, he⟩, -⟩
    · rw [hd] at hb
      cases hb
    · cases he
      exact hi.not_written ht (hsub t' ht') (hne t' ht') (eq_of_fileName hg hf) hf hdir hb
  · rwa [← h.kept _ hkept]

/-- Templates that do not read each other's agents are processed one after the other as each of them
is processed alone in `w`. -/
theorem processAll_alone (hi : Independent p w ts)
    (hfiles : ∀ t ∈ ts, ∃ f : FileName, f.raw = fileName t.identity.name)
    (hsub : ∀ t ∈ before ++ rest, t ∈ ts)
    (hnodup : ((before ++ rest).map (·.path)).Nodup)
    (hv : Stage (AgentOf before) (fun _ => False) p.outputRoot w v)
    (h : p.Combines w before v) :
    (p.processAll .sync v rest).2 = rest.map (fun t => (p.process .sync w t).2) ∧
      p.Combines w (before ++ rest) (p.processAll .sync v rest).1 := by
  -- the templates move over one by one, and the workspace keeps to what they change alone
  induction rest generalizing before v with
  | nil =>
    rw [List.append_nil]
    exact ⟨rfl, h⟩
  | cons t rest ih =>
    have ht : t ∈ ts := hsub t List.mem_append_cons_self
    have hbefore : ∀ t' ∈ before, t' ∈ ts := fun t' ht' => hsub t' (List.mem_append_left _ ht')
    have hne : ∀ t' ∈ before, t'.path ≠ t.path := by
      intro t' ht' hpath
      rw [List.map_append, List.map_cons] at hnodup
      exact (List.nodup_append.1 hnodup).2.2 _ (List.mem_map_of_mem ht') _ List.mem_cons_self hpath
    have hothers : ∀ t' ∈ before, ∃ f : FileName, f.raw = fileName t'.identity.name :=
      fun t' ht' => hfiles t' (hbefore t' ht')
    obtain ⟨f, hf⟩ := hfiles t ht
    have hapart := hv.except (h.find?_agent hi ht hbefore hne hothers hf)
    have hbeside : p.Beside w ts t v := h.beside hbefore hne
    obtain ⟨hresult, hechoes⟩ := process_alone hapart hf (fun hW => hW.2 rfl)
      (hi.compile t ht v hbeside) (hi.read t ht v hbeside)
    rw [List.append_cons] at hsub hnodup ⊢
    have hfiles' : ∀ t' ∈ before ++ [t], ∃ f : FileName, f.raw = fileName t'.identity.name :=
      fun t' ht' => hfiles t' (hsub t' (List.mem_append_left _ ht'))
    have hstage : Stage (AgentOf (before ++ [t])) (fun _ => False) p.outputRoot w
        (p.process .sync v t).1 := by
      have hwider : Stage (AgentOf (before ++ [t])) (fun _ => False) p.outputRoot w v :=
        hv.mono (fun g ⟨t', ht', hg⟩ => ⟨t', List.mem_append_left _ ht', hg⟩) fun _ => id
      exact hwider.process_agents hfiles' List.mem_append_cons_self
    have hcombines : p.Combines w (before ++ [t]) (p.process .sync v t).1 := by
      refine h.concat (hstage.start.trans hv.start.symm) (hstage.sealed.trans hv.sealed.symm)
        hechoes fun l t' ht' hl' hl => ?_
      exact hi.agree ht (hbefore t' ht') (hne t' ht') ⟨f, hf⟩ (hothers t' ht') hl hl'
    obtain ⟨hrest, hall⟩ := ih hsub hnodup hstage hcombines
    rw [processAll_cons, List.map_cons]
    refine ⟨?_, hall⟩
    dsimp only
    rw [hresult, hrest]

end

/-! ## Agents that are no links -/

section
variable {p : Project} {w v : Workspace} {ts : List Template} {t : Template} {out : PathName}
  {W : FileName → Prop} {f : FileName} {dir : Location}

theorem Worked.readNormalized?_eq (h : Worked W (fun _ => False) w v dir)
    (hdir : w.directoryAt out.way = .ok dir) (hW : ¬ W f)
    (hn : ∀ g, W g → ∀ target, w.tree.find? (g :: dir) ≠ some (.link target))
    (hf : ∀ target, w.tree.find? (f :: dir) ≠ some (.link target)) :
    v.readNormalized? (out.join f.raw) = w.readNormalized? (out.join f.raw) := by
  have hsame := h.find?_eq hW id
  suffices hread : v.readText (out.join f.raw) = w.readText (out.join f.raw) by
    rw [Workspace.readNormalized?, Workspace.readNormalized?, hread]
  cases ha : (out.join f.raw).refusal? with
  | some e => rw [readText_of_refusal ha, readText_of_refusal ha]
  | none =>
    have hv := h.directoryAt hdir hn
    have hd := (directoryAt_eq_ok_iff.1 hdir).2
    have hd' := (directoryAt_eq_ok_iff.1 hv).2
    obtain ⟨k, hk⟩ := exists_follow_append hdir
    obtain ⟨k', hk'⟩ := exists_follow_append hv
    rw [readText, readText, resolve_join ha, resolve_join ha, hk, hk']
    cases he : w.tree.find? (f :: dir) with
    | none =>
      rw [walk_child_of_none hd he, walk_child_of_none hd' (hsame.trans he)]
      rfl
    | some e =>
      have hlink : ∀ target, e ≠ .link target := by
        rintro target rfl
        exact hf target he
      rw [walk_child hd he hlink, walk_child hd' (hsame.trans he) hlink]
      show v.textAt (f :: dir) = w.textAt (f :: dir)
      rw [textAt, textAt, bytesAt, bytesAt, hsame]

theorem Project.Beside.worked (h : p.Beside w ts t v) (hp : p.outputRoot.Passable)
    (hdir : w.directoryAt p.outputRoot.way = .ok dir)
    (hfiles : ∀ t ∈ ts, ∃ f : FileName, f.raw = fileName t.identity.name) :
    Worked (fun f => ∃ t' ∈ ts, t'.path ≠ t.path ∧ f.raw = fileName t'.identity.name)
      (fun _ => False) w v dir := by
  refine ⟨h.start, h.sealed, fun l => ?_⟩
  rcases h.entries l with he | ⟨t', ht', hne, he⟩
  · exact .inl he
  · by_cases hl : (p.process .sync w t').1.tree.find? l = w.tree.find? l
    · exact .inl (he.trans hl)
    · have hself := grown_eq_self hp hdir
      rcases process_changes (hfiles t' ht') hl with ⟨hd, hg⟩ | ⟨⟨f, dir', hf, hdir', rfl⟩, hn, hb⟩
      · rw [hself] at hg
        exact absurd (hd.trans hg.symm) hl
      · rw [hself] at hdir' hn
        rw [hdir] at hdir'
        cases hdir'
        exact .inr ⟨f, rfl, .inl ⟨⟨t', ht', hne, hf⟩, hn, by rwa [he]⟩⟩

/-- Where the directory of the agents is there, no agent is a link and no two templates of `ts`
share one, all that matters is what the templates compile to. -/
theorem Independent.of_linkFree (hdir : w.directoryAt p.outputRoot.way = .ok dir)
    (hlinks : p.LinkFree w ts)
    (hfiles : ∀ t ∈ ts, ∃ f : FileName, f.raw = fileName t.identity.name)
    (hnodup : (ts.map fun t => t.identity.name).Nodup)
    (hc : ∀ t ∈ ts, ∀ v, p.Beside w ts t v → p.compile v t = p.compile w t) :
    Independent p w ts where
  compile := hc
  read := by
    intro t ht v hv
    obtain ⟨f, hf⟩ := hfiles t ht
    rw [agentPath, ← hf]
    cases ha : (p.outputRoot.join f.raw).refusal? with
    | some e =>
      rw [Workspace.readNormalized?, Workspace.readNormalized?, readText_of_refusal ha,
        readText_of_refusal ha]
    | none =>
      have hworked := hv.worked (PathName.passable_of_join ha) hdir hfiles
      refine hworked.readNormalized?_eq hdir ?_ ?_ (hlinks t ht f hf dir hdir)
      · rintro ⟨t', ht', hne, hf'⟩
        have hname := eq_of_fileName hf' hf
        exact hne (congrArg _ (List.inj_on_of_nodup_map hnodup ht' ht hname))
      · rintro g ⟨t', ht', -, hg⟩
        exact hlinks t' ht' g hg dir hdir

end

end AgentDocs
