import AgentDocs.Proofs.Build.Footprint

/-!
# Artifacts that stay

Every artifact that a run settles stands from then on: the templates behind it write other files,
and none of them closes the way to the directory. Where the artifacts of templates stand, another
run finds nothing to do for them.

* `Undisturbed`: templates that differ in their identities, whose agents are no links, and which do
  not depend on agents.
* `Stands.of_stage`: a standing artifact survives what a run does to other files.
* `processAll_last`: the last of the templates with one agent leaves its artifact.
* `processAll_stands`: what stands after templates with different agents are processed.
* `processAll_of_stands`: processing templates whose artifacts stand.
-/

namespace AgentDocs

open AgentDocs.Files AgentDocs.Files.Workspace

/-! ## Projects whose agents do not disturb their templates -/

/-- A location belongs to the directory of the agents: it lies at or below it, or it is one of the
missing directories on the way. -/
def Project.InOutput (p : Project) (w : Workspace) (l : Location) : Prop :=
  (w.tree.find? l = none ∧ (w.grown p.outputRoot).tree.find? l = some .directory) ∨
    ∃ dir, (w.grown p.outputRoot).directoryAt p.outputRoot.way = .ok dir ∧ dir <:+ l

/-- No agent of some templates is a link. -/
def Project.LinkFree (p : Project) (w : Workspace) (ts : List Template) : Prop :=
  ∀ t ∈ ts, ∀ f : FileName, f.raw = fileName t.identity.name → ∀ dir,
    w.directoryAt p.outputRoot.way = .ok dir →
    ∀ target, w.tree.find? (f :: dir) ≠ some (.link target)

/-- No two of some templates have one identity, no agent of theirs is a link, and they compile alike
in all workspaces that differ in the directory of the agents only. Agents may come into sight when
missing directories are made on the way, so this is about the workspace that has them. -/
structure Undisturbed (p : Project) (w : Workspace) (ts : List Template) : Prop where
  apart : (ts.map (·.identity)).Nodup
  linkFree : p.LinkFree (w.grown p.outputRoot) ts
  compile : ∀ t ∈ ts, ∀ v : Workspace, v.start = w.start → v.sealed = w.sealed →
    (∀ l, v.tree.find? l = w.tree.find? l ∨ p.InOutput w l) → p.compile v t = p.compile w t

/-- A file is the agent of one of some templates. -/
def AgentOf (ts : List Template) (f : FileName) : Prop :=
  ∃ t ∈ ts, f.raw = fileName t.identity.name

section
variable {p : Project} {ts : List Template} {W R : FileName → Prop} {w₀ w v : Workspace}
  {out : PathName} {f : FileName} {a : String}

/-- A template of `ts` compiles alike at every stage `w` of a run from `w₀`. -/
theorem Undisturbed.compile_eq (hu : Undisturbed p w₀ ts) (h : Stage W R p.outputRoot w₀ w)
    {t : Template} (ht : t ∈ ts) : p.compile w t = p.compile w₀ t := by
  refine hu.compile t ht w h.start h.sealed fun l => ?_
  rcases h.entries l with hl | hl | ⟨f, dir, hdir, rfl, -⟩
  · exact .inl hl
  · exact .inr (.inl ⟨hl.1, hl.2.2⟩)
  · exact .inr (.inr ⟨dir, hdir, List.suffix_cons f dir⟩)

theorem Project.LinkFree.not_link (hfree : p.LinkFree (w₀.grown p.outputRoot) ts)
    (h : Stage W R p.outputRoot w₀ w) (hp : p.outputRoot.Passable) (hf : AgentOf ts f)
    {dir : Location} (hdir : w.directoryAt p.outputRoot.way = .ok dir) (target : RawText) :
    w.tree.find? (f :: dir) ≠ some (.link target) := by
  obtain ⟨hg, hw⟩ := h.worked_of_directoryAt hp hdir
  obtain ⟨t, ht, hname⟩ := hf
  rcases hw.entries (f :: dir) with he | ⟨-, -, ⟨-, -, bytes, hb⟩ | ⟨-, hb, -⟩⟩
  · rw [he]
    exact hfree t ht f hname dir hg target
  · rw [hb]
    simp
  · rw [hb]
    simp

/-! ## Artifacts that stay -/

/-- The artifact `a` stands where files beside it are changed, if none of them was a link. -/
theorem Files.Workspace.Stands.of_worked {dir : Location} (hs : w.Stands out f a)
    (hdir : w.directoryAt out.way = .ok dir) (h : Worked W R w v dir)
    (hn : ∀ g, W g → ∀ target, w.tree.find? (g :: dir) ≠ some (.link target))
    (hW : ¬ W f) (hR : ¬ R f) : v.Stands out f a := by
  obtain ⟨hacc, l, bytes, decoded, hl, he, hb, ht⟩ := hs
  rw [hdir] at hl
  cases hl
  exact ⟨hacc, dir, bytes, decoded, h.directoryAt hdir hn, (h.find?_eq hW hR).trans he, hb, ht⟩

theorem Files.Workspace.Stands.of_stage (hs : w.Stands out f a) (h : Stage W R out w v)
    (hn : ∀ g, W g → ∀ dir, w.directoryAt out.way = .ok dir →
      ∀ target, w.tree.find? (g :: dir) ≠ some (.link target))
    (hW : ¬ W f) (hR : ¬ R f) : v.Stands out f a := by
  obtain ⟨dir, -, -, hdir, -⟩ := hs.entry
  have hgrown := grown_eq_self (PathName.passable_of_join hs.accepted) hdir
  cases h with
  | begun => exact hs
  | made => rwa [hgrown]
  | worked hg hw =>
    rw [hgrown] at hg hw
    exact hs.of_worked hg hw (fun g hgW => hn g hgW _ hg) hW hR

theorem stands_put {dir : Location} (hacc : (out.join f.raw).refusal? = none)
    (hdir : w.directoryAt out.way = .ok dir) (hd : w.tree.find? (f :: dir) ≠ some .directory)
    (hn : ∀ target, w.tree.find? (f :: dir) ≠ some (.link target)) (ha : Text.normalized a = a) :
    (w.put (f :: dir) (.file a.toUTF8)).Stands out f a := by
  have hput : Worked (· = f) (fun _ => False) w (w.put (f :: dir) (.file a.toUTF8)) dir :=
    (Worked.refl w dir).put rfl hd
  refine ⟨hacc, dir, a.toUTF8, a, hput.directoryAt hdir ?_, FileTree.find?_insert_self (by simp),
    fromUTF8?_toUTF8 a, ha⟩
  rintro g rfl
  exact hn

theorem stands_of_settle {action : Action} (h : Stage W R out w₀ w)
    (hn : out.Passable → ∀ {u : Workspace}, Stage W R out w₀ u →
      ∀ dir, u.directoryAt out.way = .ok dir →
        ∀ target, u.tree.find? (f :: dir) ≠ some (.link target))
    (ha : Text.normalized a = a)
    (hs : settle w .sync (out.join f.raw) a = (v, .ok action)) : v.Stands out f a := by
  rcases settle_sync_cases hs with ⟨-, e, he⟩ | ⟨rfl, -, hr⟩ | ⟨⟨existing, hr⟩, hcases⟩
  · cases he
  · exact stands_of_readNormalized? hr
      (hn (PathName.passable_of_join (accepted_of_readNormalized? hr)) h)
  · have hacc := accepted_of_readNormalized? hr
    have hgrown : Stage W R out w₀ (w.grown out) := by
      rcases h.grown_of_read hr with hg | ⟨dir, -, -, hg, -⟩
      · rw [hg]
        exact .made
      · rwa [hg]
    rcases hcases with ⟨-, e, he⟩ | ⟨-, l, hl, hd, rfl⟩
    · cases he
    · exact stands_put hacc hl hd (hn (PathName.passable_of_join hacc) hgrown l hl) ha

end

/-! ## Templates one after the other -/

section
variable {p : Project} {mode : Mode} {ts rest : List Template} {R : FileName → Prop}
  {w₀ w : Workspace} {f : FileName} {a : String} {t : Template}

theorem agentOf_of_written {os : List Outcome} (h : ∀ o ∈ os, ∃ t ∈ ts, o.identity = t.identity)
    (hf : Written os f) : AgentOf ts f := by
  obtain ⟨o, ho, -, hname⟩ := hf
  obtain ⟨t, ht, hid⟩ := h o ho
  exact ⟨t, ht, hid ▸ hname⟩

theorem Stage.processAll_agents (h : Stage (AgentOf ts) R p.outputRoot w₀ w)
    (hfiles : ∀ t ∈ ts, ∃ f : FileName, f.raw = fileName t.identity.name)
    (hsub : ∀ t ∈ rest, t ∈ ts) :
    Stage (AgentOf ts) R p.outputRoot w₀ (p.processAll mode w rest).1 := by
  refine (h.processAll fun t ht => hfiles t (hsub t ht)).mono (fun f hf => ?_) fun _ => id
  refine hf.elim id (agentOf_of_written fun o ho => ?_)
  obtain ⟨t, ht, hid⟩ := exists_of_mem_outcomes ho
  exact ⟨t, hsub t ht, hid⟩

theorem Stage.process_agents (h : Stage (AgentOf ts) R p.outputRoot w₀ w)
    (hfiles : ∀ t ∈ ts, ∃ f : FileName, f.raw = fileName t.identity.name) (ht : t ∈ ts) :
    Stage (AgentOf ts) R p.outputRoot w₀ (p.process mode w t).1 := by
  have hone : ∀ t' ∈ [t], t' ∈ ts := by simpa using ht
  exact h.processAll_agents hfiles hone

/-- An artifact that stands survives the processing of the templates of `rest`, if it is that of
none of them. -/
theorem Files.Workspace.Stands.processAll (hs : w.Stands p.outputRoot f a)
    (hfree : p.LinkFree (w₀.grown p.outputRoot) ts) (h : Stage (AgentOf ts) R p.outputRoot w₀ w)
    (hfiles : ∀ t ∈ ts, ∃ f : FileName, f.raw = fileName t.identity.name)
    (hsub : ∀ t ∈ rest, t ∈ ts) (hne : ∀ t ∈ rest, f.raw ≠ fileName t.identity.name) :
    (p.processAll mode w rest).1.Stands p.outputRoot f a := by
  have hbegun : Stage (AgentOf rest) (fun _ => False) p.outputRoot w w := .begun
  refine hs.of_stage (hbegun.processAll_agents (fun t ht => hfiles t (hsub t ht)) fun _ => id)
    (fun g hg dir hdir => ?_) ?_ id
  · obtain ⟨t, ht, hname⟩ := hg
    exact hfree.not_link h (PathName.passable_of_join hs.accepted) ⟨t, hsub t ht, hname⟩ hdir
  · rintro ⟨t, ht, hname⟩
    exact hne t ht hname

theorem stands_of_process (hfree : p.LinkFree (w₀.grown p.outputRoot) ts)
    (h : Stage (AgentOf ts) R p.outputRoot w₀ w) (ht : t ∈ ts)
    (hf : f.raw = fileName t.identity.name) {o : Outcome}
    (ho : (p.process .sync w t).2.outcome? = some o) :
    ∃ d action, p.compile w t = .ok d ∧ o = p.outcome .sync t d action ∧
      (p.process .sync w t).1.Stands p.outputRoot f d.artifact := by
  cases hc : p.compile w t with
  | error e =>
    rw [process_of_error hc] at ho
    cases ho
  | ok d =>
    rw [outcome?_process_of_ok hc] at ho
    obtain ⟨action, haction, rfl⟩ := Option.map_eq_some_iff.1 ho
    refine ⟨d, action, rfl, rfl, ?_⟩
    rw [process_of_ok hc]
    rw [agentPath, ← hf] at haction ⊢
    rcases hs : settle w .sync (p.outputRoot.join f.raw) d.artifact with ⟨v, e | action'⟩
    · rw [hs] at haction
      cases haction
    · exact stands_of_settle h (fun hp _ hu dir hdir => hfree.not_link hu hp ⟨t, ht, hf⟩ hdir)
        (normalized_artifact d) hs

/-- Of the templates with one agent the last one that does not fail leaves its artifact, whatever
those of `before` have written: no template of `after` writes the file. -/
theorem processAll_last {before after : List Template} {o : Outcome}
    (hfree : p.LinkFree (w₀.grown p.outputRoot) ts) (h : Stage (AgentOf ts) R p.outputRoot w₀ w)
    (hfiles : ∀ t ∈ ts, ∃ f : FileName, f.raw = fileName t.identity.name)
    (hsub : ∀ t' ∈ before ++ t :: after, t' ∈ ts) (hf : f.raw = fileName t.identity.name)
    (ho : (p.process .sync (p.processAll .sync w before).1 t).2.outcome? = some o)
    (hlast : ∀ t' ∈ after, f.raw ≠ fileName t'.identity.name) :
    ∃ d action, p.compile (p.processAll .sync w before).1 t = .ok d ∧
      o = p.outcome .sync t d action ∧
      (p.processAll .sync w (before ++ t :: after)).1.Stands p.outputRoot f d.artifact := by
  have ht : t ∈ ts := hsub t List.mem_append_cons_self
  have hbefore : Stage (AgentOf ts) R p.outputRoot w₀ (p.processAll .sync w before).1 :=
    h.processAll_agents hfiles fun t' ht' => hsub t' (List.mem_append_left _ ht')
  obtain ⟨d, action, hc, rfl, hs⟩ := stands_of_process hfree hbefore ht hf ho
  refine ⟨d, action, hc, rfl, ?_⟩
  rw [processAll_append, processAll_cons]
  exact hs.processAll hfree (hbefore.process_agents hfiles ht) hfiles
    (fun t' ht' => hsub t' (List.mem_append_right _ (List.mem_cons_of_mem _ ht'))) hlast

/-- The artifacts of all templates of `rest` that are processed without a failure stand in the end,
each as its template compiled behind the templates before it. -/
theorem processAll_stands (hfree : p.LinkFree (w₀.grown p.outputRoot) ts)
    (h : Stage (AgentOf ts) R p.outputRoot w₀ w)
    (hfiles : ∀ t ∈ ts, ∃ f : FileName, f.raw = fileName t.identity.name)
    (hsub : ∀ t ∈ rest, t ∈ ts) (hnodup : (rest.map fun t => t.identity.name).Nodup)
    {o : Outcome} (ho : o ∈ (p.processAll .sync w rest).2.filterMap Processed.outcome?) :
    ∃ before t after, ∃ (f : FileName) (d : AgentDocument) (action : Action),
      rest = before ++ t :: after ∧
      f.raw = fileName t.identity.name ∧ p.compile (p.processAll .sync w before).1 t = .ok d ∧
      o = p.outcome .sync t d action ∧
      (p.processAll .sync w rest).1.Stands p.outputRoot f d.artifact := by
  obtain ⟨before, t, after, rfl, ht⟩ := exists_turn_of_mem_outcomes ho
  obtain ⟨f, hf⟩ := hfiles t (hsub t List.mem_append_cons_self)
  rw [List.map_append, List.map_cons, List.nodup_append, List.nodup_cons] at hnodup
  obtain ⟨d, action, hc, rfl, hs⟩ := processAll_last hfree h hfiles hsub hf ht fun t' ht' hname =>
    hnodup.2.1.1 (eq_of_fileName hf hname ▸ List.mem_map_of_mem ht')
  exact ⟨before, t, after, f, d, action, rfl, hf, hc, rfl, hs⟩

end

/-! ## Templates whose artifacts stand -/

section
variable {p : Project} {mode : Mode} {ts rest : List Template} {R : FileName → Prop}
  {w₀ w : Workspace} {f : FileName} {t : Template} {d : AgentDocument} {action : Action}

/-- Settling an artifact that stands leaves the workspace as it is and comes to an action. -/
def Settles (mode : Mode) (action : Action) : Prop :=
  ∀ {w : Workspace} {out : PathName} {f : FileName} {a : String}, w.Stands out f a →
    settle w mode (out.join f.raw) a = (w, .ok action)

theorem settles_sync : Settles .sync .unchanged := fun h => settle_of_stands h

theorem settles_validate : Settles .validate .upToDate := fun h => settle_validate_of_stands h

theorem process_of_stands (hm : Settles mode action) (hc : p.compile w t = .ok d)
    (hf : f.raw = fileName t.identity.name) (hs : w.Stands p.outputRoot f d.artifact) :
    p.process mode w t =
      (w, ⟨t.identity, d.descriptionDefaulted, .ok (p.outcome mode t d action)⟩) := by
  refine process_of_settle hc ?_
  rw [agentPath, ← hf, hm hs]

theorem mem_outcomes_of_stands (hm : Settles mode action) (hu : Undisturbed p w₀ ts)
    (h : Stage (AgentOf ts) R p.outputRoot w₀ w)
    (hfiles : ∀ t ∈ ts, ∃ f : FileName, f.raw = fileName t.identity.name)
    (hsub : ∀ t ∈ rest, t ∈ ts) (hnodup : (rest.map fun t => t.identity.name).Nodup)
    (ht : t ∈ rest) (hc : p.compile w₀ t = .ok d) (hf : f.raw = fileName t.identity.name)
    (hs : w.Stands p.outputRoot f d.artifact) :
    p.outcome mode t d action ∈
      (p.processAll mode w rest).2.filterMap Processed.outcome? := by
  obtain ⟨before, after, rfl⟩ := List.append_of_mem ht
  have hsub' : ∀ t' ∈ before, t' ∈ ts := fun t' ht' => hsub t' (List.mem_append_left _ ht')
  have hbefore : Stage (AgentOf ts) R p.outputRoot w₀ (p.processAll mode w before).1 :=
    h.processAll_agents hfiles hsub'
  have hstands : (p.processAll mode w before).1.Stands p.outputRoot f d.artifact := by
    refine hs.processAll hu.linkFree h hfiles hsub' fun t' ht' hname => ?_
    rw [List.map_append, List.map_cons, List.nodup_append] at hnodup
    exact hnodup.2.2 _ (List.mem_map_of_mem ht') _ List.mem_cons_self (eq_of_fileName hname hf)
  have hc' := (hu.compile_eq hbefore (hsub t List.mem_append_cons_self)).trans hc
  rw [processAll_append, processAll_cons, process_of_stands hm hc' hf hstands,
    List.filterMap_append]
  exact List.mem_append_right _ List.mem_cons_self

/-- Where the artifacts of all templates of `rest` stand, nothing is done and nothing fails. -/
theorem processAll_of_stands (hm : Settles mode action)
    (hall : ∀ t ∈ rest, ∃ (f : FileName) (d : AgentDocument),
      f.raw = fileName t.identity.name ∧ p.compile w t = .ok d ∧
      w.Stands p.outputRoot f d.artifact) :
    (p.processAll mode w rest).1 = w ∧
      ∀ x ∈ (p.processAll mode w rest).2, ∃ o, x.result = .ok o ∧ o.action = action := by
  induction rest with
  | nil => exact ⟨rfl, by simp [Project.processAll]⟩
  | cons t rest ih =>
    rw [List.forall_mem_cons] at hall
    obtain ⟨⟨f, d, hf, hc, hs⟩, hrest⟩ := hall
    obtain ⟨h1, h2⟩ := ih hrest
    rw [processAll_cons, process_of_stands hm hc hf hs]
    refine ⟨h1, fun x hx => ?_⟩
    rcases List.mem_cons.1 hx with rfl | hx
    · exact ⟨_, rfl, rfl⟩
    · exact h2 x hx

end

end AgentDocs
