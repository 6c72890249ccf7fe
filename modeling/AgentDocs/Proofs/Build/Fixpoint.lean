import Mathlib.Data.List.Nodup
import AgentDocs.Proofs.Build.Lookalike

/-!
# The second run

A run that writes brings the agents to a state in which they stay. Every artifact that it settles
stands at the end of the run, so a comparison afterwards finds it up to date, and a second run finds
nothing to do for it.

* `run_stands`: what stands after a run.
* `run_fixpoint`: the comparison and the second run.
* `run_drifts`: a link that is out of sight at first can keep a run from its fixpoint.
-/

namespace AgentDocs

open AgentDocs.Files AgentDocs.Files.Workspace

/-! ## Failures of templates -/

namespace Project

/-- The failure to compile a template, if it fails. -/
def compileFailure? (p : Project) (w : Workspace) (t : Template) : Option Failure :=
  match p.compile w t with
  | .ok _ => none
  | .error e => some ⟨t.identity.name, e⟩

/-- The failures to compile templates that are processed one after the other. -/
def compileFailures (p : Project) (mode : Mode) : Workspace → List Template → List Failure
  | _, [] => []
  | w, t :: rest =>
    (p.compileFailure? w t).toList ++ p.compileFailures mode (p.process mode w t).1 rest

/-- The failures of a run that come from its templates: those that cannot be read, and those that
cannot be compiled. -/
def sourceFailures (p : Project) (w : Workspace) (d : Discovery) (o : Options) : List Failure :=
  (d.selectedUnreadable o.filter p.registry).map (fun u => ⟨u.identity.name, u.error⟩) ++
    p.compileFailures o.mode w (d.selectedTemplates o.filter p.registry)

end Project

section
variable {p : Project} {mode : Mode} {ts rest : List Template} {R : FileName → Prop}
  {w₀ w : Workspace}

theorem compileFailures_sublist (p : Project) (mode : Mode) (w : Workspace) (ts : List Template) :
    (p.compileFailures mode w ts).Sublist
      ((p.processAll mode w ts).2.filterMap Processed.failure?) := by
  induction ts generalizing w with
  | nil => exact .refl _
  | cons t rest ih =>
    have hrest := ih (p.process mode w t).1
    rw [processAll_cons, Project.compileFailures, Project.compileFailure?]
    dsimp only
    rw [← List.singleton_append, List.filterMap_append]
    refine List.Sublist.append ?_ hrest
    cases hc : p.compile w t with
    | ok d => exact List.nil_sublist _
    | error e =>
      rw [process_of_error hc]
      exact .refl _

theorem sourceFailures_sublist (p : Project) (w : Workspace) (d : Discovery) (o : Options) :
    (p.sourceFailures w d o).Sublist (p.run w d o).2.failures := by
  rw [Project.run_failures]
  refine List.Sublist.trans ?_ (List.sublist_append_left _ _)
  exact (List.Sublist.refl _).append (compileFailures_sublist p o.mode w _)

/-- Whatever a run from `w₀` has written before, the same templates of `rest` fail to compile. -/
theorem compileFailures_eq (hu : Undisturbed p w₀ ts) (h : Stage (AgentOf ts) R p.outputRoot w₀ w)
    (hfiles : ∀ t ∈ ts, ∃ f : FileName, f.raw = fileName t.identity.name)
    (hsub : ∀ t ∈ rest, t ∈ ts) :
    p.compileFailures mode w rest = rest.filterMap (p.compileFailure? w₀) := by
  induction rest generalizing w with
  | nil => rfl
  | cons t rest ih =>
    rw [List.forall_mem_cons] at hsub
    have hnext : Stage (AgentOf ts) R p.outputRoot w₀ (p.process mode w t).1 :=
      h.process_agents hfiles hsub.1
    have hhead : p.compileFailure? w t = p.compileFailure? w₀ t := by
      rw [Project.compileFailure?, Project.compileFailure?, hu.compile_eq h hsub.1]
    rw [Project.compileFailures, hhead, ih hnext hsub.2]
    cases hc : p.compileFailure? w₀ t with
    | none => rw [List.filterMap_cons_none hc, Option.toList_none, List.nil_append]
    | some x => rw [List.filterMap_cons_some hc, Option.toList_some, List.singleton_append]

/-- Without failures there is an outcome for every template of `ts`. -/
theorem outcomes_of_no_failures
    (h : (p.processAll mode w ts).2.filterMap Processed.failure? = []) :
    ((p.processAll mode w ts).2.filterMap Processed.outcome?).map (·.identity) =
      ts.map (·.identity) := by
  induction ts generalizing w with
  | nil => rfl
  | cons t rest ih =>
    rw [processAll_cons] at h ⊢
    dsimp only at h ⊢
    rw [← List.singleton_append, List.filterMap_append, List.append_eq_nil_iff] at h
    rw [← List.singleton_append, List.filterMap_append, List.map_append, ih h.2, List.map_cons]
    cases hc : p.compile w t with
    | error e =>
      rw [process_of_error hc] at h
      cases h.1
    | ok d =>
      have hfail := h.1
      rw [process_of_ok hc] at hfail ⊢
      dsimp only at hfail ⊢
      rcases hs : settle w mode (agentPath p.outputRoot t.identity.name) d.artifact with
        ⟨v, e | action⟩
      · rw [hs] at hfail
        cases hfail
      · rfl

end

/-! ## The comparison and the second run -/

section
variable {p : Project} {w v : Workspace} {d : Discovery} {force : Bool} {filter : RoleFilter}
  {r : Report}

theorem selected_files (filter : RoleFilter) (hd : Discovery.search w p.root p.settings = .ok d) :
    ∀ t ∈ d.selectedTemplates filter p.registry,
      ∃ f : FileName, f.raw = fileName t.identity.name := fun _ ht =>
  Discovery.exists_fileName hd
    (List.mem_append_left _ (List.mem_map_of_mem (List.mem_filter.1 ht).1))

theorem nodup_selected_paths (filter : RoleFilter)
    (hd : Discovery.search w p.root p.settings = .ok d) :
    ((d.selectedTemplates filter p.registry).map (·.path)).Nodup :=
  ((List.filter_sublist.map _).trans
    ((List.sublist_append_left _ _).trans (List.sublist_append_left _ _))).nodup
      (Discovery.nodup_sources hd)

theorem nodup_selected_names (ha : p.settings.isAccepted = true)
    (hd : Discovery.search w p.root p.settings = .ok d)
    (hn : ((d.selectedTemplates filter p.registry).map (·.identity)).Nodup) :
    ((d.selectedTemplates filter p.registry).map fun t => t.identity.name).Nodup := by
  have hmem : ∀ i ∈ (d.selectedTemplates filter p.registry).map (·.identity), i ∈ d.identities := by
    intro i hi
    obtain ⟨t, ht, rfl⟩ := List.mem_map.1 hi
    exact List.mem_append_left _ (List.mem_map_of_mem (List.mem_filter.1 ht).1)
  have h := hn.map_on fun i hi j hj hij => Discovery.eq_of_name_eq hd ha (hmem i hi) (hmem j hj) hij
  rwa [List.map_map] at h

/-- After a run that writes, the artifacts of all templates that did not fail stand in `v`. -/
theorem run_stands (ha : p.settings.isAccepted = true)
    (hd : Discovery.search w p.root p.settings = .ok d)
    (hu : Undisturbed p w (d.selectedTemplates filter p.registry))
    (h : p.run w d ⟨.sync, force, filter⟩ = (v, r)) :
    Stage (AgentOf (d.selectedTemplates filter p.registry)) (Removed p.outputRoot r.stale)
        p.outputRoot w v ∧
      ∀ o ∈ r.outcomes, ∃ t ∈ d.selectedTemplates filter p.registry,
        ∃ (f : FileName) (doc : AgentDocument) (action : Action),
        f.raw = fileName t.identity.name ∧ p.compile w t = .ok doc ∧
        o = p.outcome .sync t doc action ∧ v.Stands p.outputRoot f doc.artifact := by
  have hfiles := selected_files filter hd
  have hbegun : Stage (AgentOf (d.selectedTemplates filter p.registry)) (fun _ => False)
      p.outputRoot w w := .begun
  have hstage := run_stage p w d ⟨.sync, force, filter⟩ fun t ht =>
    Discovery.exists_fileName hd (List.mem_append_left _ (List.mem_map_of_mem ht))
  have hv : v = (p.swept w d ⟨.sync, force, filter⟩).1 := by rw [← Project.run_fst, h]
  have hr : r = (p.run w d ⟨.sync, force, filter⟩).2 := by rw [h]
  rw [Project.run_fst, ← hv, ← hr] at hstage
  constructor
  · refine hstage.mono (fun f => agentOf_of_written fun o ho => ?_) fun _ => id
    rw [hr, Project.run_outcomes] at ho
    exact exists_of_mem_outcomes ho
  · intro o ho
    rw [hr, Project.run_outcomes] at ho
    obtain ⟨before, t, after, f, doc, action, hts, hf, hc, ho, hs⟩ := processAll_stands hu.linkFree
      hbegun hfiles (fun _ => id) (nodup_selected_names ha hd hu.apart) ho
    have ht : t ∈ d.selectedTemplates filter p.registry := by
      rw [hts]
      exact List.mem_append_cons_self
    have hbefore : Stage (AgentOf (d.selectedTemplates filter p.registry)) (fun _ => False)
        p.outputRoot w (p.processAll .sync w before).1 := by
      refine hbegun.processAll_agents hfiles fun t ht => ?_
      rw [hts]
      exact List.mem_append_left _ ht
    refine ⟨t, ht, f, doc, action, hf, (hu.compile_eq hbefore ht).symm.trans hc, ho, ?_⟩
    rw [hv, Project.swept_eq (by simp)]
    exact hs.sweep hf (name_mem_names (List.mem_filter.1 ht).1)

/-- Where the artifact of `t` stands in front of a run, the run says so. -/
theorem mem_run_outcomes {w₀ : Workspace} {R : FileName → Prop} {mode : Mode} {action : Action}
    {t : Template} {f : FileName} {doc : AgentDocument} (hm : Settles mode action)
    (ha : p.settings.isAccepted = true) (hd : Discovery.search w₀ p.root p.settings = .ok d)
    (hu : Undisturbed p w₀ (d.selectedTemplates filter p.registry))
    (hstage : Stage (AgentOf (d.selectedTemplates filter p.registry)) R p.outputRoot w₀ w)
    (ht : t ∈ d.selectedTemplates filter p.registry) (hf : f.raw = fileName t.identity.name)
    (hc : p.compile w₀ t = .ok doc) (hs : w.Stands p.outputRoot f doc.artifact)
    (h : p.run w d ⟨mode, force, filter⟩ = (v, r)) : p.outcome mode t doc action ∈ r.outcomes := by
  have hr : r = (p.run w d ⟨mode, force, filter⟩).2 := by rw [h]
  rw [hr, Project.run_outcomes]
  exact mem_outcomes_of_stands hm hu hstage (selected_files filter hd) (fun _ => id)
    (nodup_selected_names ha hd hu.apart) ht hc hf hs

/-- No two outcomes of a run have the same identity. -/
theorem eq_of_identity_eq {o : Options} {a b : Outcome}
    (hn : ((d.selectedTemplates o.filter p.registry).map (·.identity)).Nodup)
    (h : p.run w d o = (v, r)) (ha : a ∈ r.outcomes) (hb : b ∈ r.outcomes)
    (hab : a.identity = b.identity) : a = b := by
  have hr : r = (p.run w d o).2 := by rw [h]
  have hnodup : (r.outcomes.map (·.identity)).Nodup := by
    rw [hr, Project.run_outcomes]
    exact hn.sublist (outcomes_sublist _ _ _ _)
  exact List.inj_on_of_nodup_map hnodup ha hb hab

theorem all_stand_of_clean (ha : p.settings.isAccepted = true)
    (hd : Discovery.search w p.root p.settings = .ok d)
    (hu : Undisturbed p w (d.selectedTemplates filter p.registry))
    (h : p.run w d ⟨.sync, force, filter⟩ = (v, r)) (hclean : r.failures = []) :
    ∀ t ∈ d.selectedTemplates filter p.registry, ∃ (f : FileName) (doc : AgentDocument),
      f.raw = fileName t.identity.name ∧ p.compile v t = .ok doc ∧
        v.Stands p.outputRoot f doc.artifact := by
  obtain ⟨hstage, hstand⟩ := run_stands ha hd hu h
  have hr : r = (p.run w d ⟨.sync, force, filter⟩).2 := by rw [h]
  have hfailures :
      (p.processed w d ⟨.sync, force, filter⟩).2.filterMap Processed.failure? = [] := by
    rw [hr] at hclean
    exact ((p.run_failures_eq_nil_iff w d _).1 hclean).2.1
  intro t ht
  have hid : t.identity ∈ r.outcomes.map (·.identity) := by
    rw [hr, Project.run_outcomes, Project.processed, outcomes_of_no_failures hfailures]
    exact List.mem_map_of_mem ht
  obtain ⟨o, ho, hot⟩ := List.mem_map.1 hid
  obtain ⟨t', ht', f, doc, action, hf, hc, rfl, hs⟩ := hstand o ho
  obtain rfl : t' = t :=
    List.inj_on_of_nodup_map hu.apart ht' ht hot
  exact ⟨f, doc, hf, (hu.compile_eq hstage ht').trans hc, hs⟩

theorem run_validate_fst (p : Project) (w : Workspace) (d : Discovery) (filter : RoleFilter) :
    (p.run w d ⟨.validate, false, filter⟩).1 = w := by
  have hmode : Mode.validate ≠ .sync := by decide
  rw [Project.run_fst, Project.swept_eq (by simp), sweep_of_not_force]
  exact processAll_fst hmode _

/-- A comparison succeeds where all artifacts stand and all templates can be read. -/
theorem exitCode_of_stands
    (hlist : ∀ {e}, w.openDirectory p.outputRoot = .error e → w.isDirectory p.outputRoot = false)
    (hall : ∀ t ∈ d.selectedTemplates filter p.registry, ∃ (f : FileName) (doc : AgentDocument),
      f.raw = fileName t.identity.name ∧ p.compile w t = .ok doc ∧
        w.Stands p.outputRoot f doc.artifact)
    (hread : d.selectedUnreadable filter p.registry = [])
    (h : p.run w d ⟨.validate, false, filter⟩ = (v, r)) : r.exitCode = 0 := by
  have hr : r = (p.run w d ⟨.validate, false, filter⟩).2 := by rw [h]
  obtain ⟨hprocessed, hresults⟩ := processAll_of_stands settles_validate hall
  have hsame : (p.processed w d ⟨.validate, false, filter⟩).1 = w := hprocessed
  have hfailures : r.failures = [] := by
    rw [hr, Project.run_failures, Project.swept_eq (by simp), hsame,
      sweep_failures_of_not_force hlist, List.append_nil, List.append_eq_nil_iff]
    refine ⟨by rw [hread]; rfl, ?_⟩
    refine List.filterMap_eq_nil_iff.2 fun x hx => ?_
    obtain ⟨o, ho, -⟩ := hresults x hx
    rw [Processed.failure?, ho]
  have hdrifted : r.drifted = [] := by
    rw [hr, Project.run_drifted, Project.run_outcomes]
    refine List.filterMap_eq_nil_iff.2 fun o ho => ?_
    obtain ⟨x, hx, hox⟩ := List.mem_filterMap.1 ho
    obtain ⟨o', ho', haction⟩ := hresults x hx
    rw [Processed.outcome?, ho'] at hox
    cases hox
    rw [Outcome.drifted?, haction]
  have hmode : r.mode = .validate := by rw [hr]; rfl
  rw [Report.exitCode, hmode, hfailures, hdrifted]
  rfl

theorem Outcome.identity_of_drifted? {o : Outcome} {x : Drifted} (h : o.drifted? = some x) :
    x.identity = o.identity := by
  unfold Outcome.drifted? at h
  split at h
  · cases h
    rfl
  · cases h

/-- Where a run from `w₀` has led to `w`, the same templates cannot be read or compiled. -/
theorem sourceFailures_eq {w₀ : Workspace} {R : FileName → Prop}
    (hd : Discovery.search w₀ p.root p.settings = .ok d)
    (hu : Undisturbed p w₀ (d.selectedTemplates filter p.registry))
    (hstage : Stage (AgentOf (d.selectedTemplates filter p.registry)) R p.outputRoot w₀ w) :
    p.sourceFailures w d ⟨.validate, false, filter⟩ =
      p.sourceFailures w₀ d ⟨.sync, force, filter⟩ := by
  have hfiles := selected_files filter hd
  have hbegun : Stage (AgentOf (d.selectedTemplates filter p.registry)) (fun _ => False)
      p.outputRoot w₀ w₀ := .begun
  rw [Project.sourceFailures, Project.sourceFailures]
  rw [compileFailures_eq hu hstage hfiles fun _ => id,
    compileFailures_eq hu hbegun hfiles fun _ => id]

/-- A run that writes comes to rest. Every template with an outcome is found up to date by a
comparison afterwards and unchanged by a second run; the same templates fail; and where the first
run had no failure, the comparison succeeds and the second run changes nothing at all. -/
theorem run_fixpoint {w₀ w₂ w₃ w₄ : Workspace} {r₁ r₂ r₃ : Report}
    (ha : p.settings.isAccepted = true) (hd : Discovery.search w₀ p.root p.settings = .ok d)
    (hu : Undisturbed p w₀ (d.selectedTemplates filter p.registry))
    (h₁ : p.run w₀ d ⟨.sync, force, filter⟩ = (w₂, r₁))
    (h₂ : p.run w₂ d ⟨.validate, false, filter⟩ = (w₃, r₂))
    (h₃ : p.run w₂ d ⟨.sync, force, filter⟩ = (w₄, r₃)) :
    ((∀ o ∈ r₁.outcomes, { o with action := .upToDate } ∈ r₂.outcomes) ∧
      (∀ o ∈ r₁.outcomes, ∀ x ∈ r₂.drifted, x.identity ≠ o.identity) ∧
      (p.sourceFailures w₂ d ⟨.validate, false, filter⟩ =
          p.sourceFailures w₀ d ⟨.sync, force, filter⟩ ∧
        (p.sourceFailures w₀ d ⟨.sync, force, filter⟩).Sublist r₁.failures ∧
        (p.sourceFailures w₂ d ⟨.validate, false, filter⟩).Sublist r₂.failures) ∧
      (r₁.failures = [] → r₂.exitCode = 0) ∧ w₃ = w₂) ∧
    (∀ o ∈ r₁.outcomes, { o with action := .unchanged } ∈ r₃.outcomes) ∧
      (r₁.failures = [] → w₄ = w₂) := by
  obtain ⟨hstage, hstand⟩ := run_stands ha hd hu h₁
  have hr₁ : r₁ = (p.run w₀ d ⟨.sync, force, filter⟩).2 := by rw [h₁]
  have hr₂ : r₂ = (p.run w₂ d ⟨.validate, false, filter⟩).2 := by rw [h₂]
  have hupToDate : ∀ o ∈ r₁.outcomes, { o with action := .upToDate } ∈ r₂.outcomes := by
    intro o ho
    obtain ⟨t, ht, f, doc, action, hf, hc, rfl, hs⟩ := hstand o ho
    exact mem_run_outcomes settles_validate ha hd hu hstage ht hf hc hs h₂
  refine ⟨⟨hupToDate, ?_, ?_, ?_, ?_⟩, ?_, ?_⟩
  · -- the one outcome of the comparison for a template is that it is up to date
    intro o ho x hx hid
    rw [hr₂, Project.run_drifted, ← hr₂] at hx
    obtain ⟨o', ho', hdrift⟩ := List.mem_filterMap.1 hx
    have hx' : x.identity = o'.identity := Outcome.identity_of_drifted? hdrift
    have ho'' := eq_of_identity_eq hu.apart h₂ ho' (hupToDate o ho) (hx'.symm.trans hid)
    rw [ho''] at hdrift
    cases hdrift
  · exact ⟨sourceFailures_eq hd hu hstage, hr₁ ▸ sourceFailures_sublist p w₀ d _,
      hr₂ ▸ sourceFailures_sublist p w₂ d _⟩
  · intro hclean
    have hw₂ : (p.swept w₀ d ⟨.sync, force, filter⟩).1 = w₂ := by rw [← Project.run_fst, h₁]
    obtain ⟨hread, -, hswept⟩ := (p.run_failures_eq_nil_iff w₀ d _).1 (hr₁ ▸ hclean)
    rw [Project.swept_eq (by simp)] at hw₂ hswept
    exact exitCode_of_stands (listable_of_swept hw₂ hswept) (all_stand_of_clean ha hd hu h₁ hclean)
      hread h₂
  · have := run_validate_fst p w₂ d filter
    rwa [h₂] at this
  · intro o ho
    obtain ⟨t, ht, f, doc, action, hf, hc, rfl, hs⟩ := hstand o ho
    exact mem_run_outcomes settles_sync ha hd hu hstage ht hf hc hs h₃
  · intro hclean
    have hprocessed : (p.processed w₂ d ⟨.sync, force, filter⟩).1 = w₂ :=
      (processAll_of_stands settles_sync (all_stand_of_clean ha hd hu h₁ hclean)).1
    have hw₂ : (p.swept w₀ d ⟨.sync, force, filter⟩).1 = w₂ := by rw [← Project.run_fst, h₁]
    have hw₄ : (p.swept w₂ d ⟨.sync, force, filter⟩).1 = w₄ := by rw [← Project.run_fst, h₃]
    rw [hr₁, Project.run_failures, List.append_eq_nil_iff] at hclean
    rw [Project.swept_eq (by simp)] at hclean hw₂ hw₄
    rw [← hw₄, hprocessed]
    exact sweep_again hw₂ hclean.2

end

/-! ## A project with one template -/

/-- A workspace with one template. -/
def plainWorkspace : Workspace := workspaceWith ⟨"x.md", by decide⟩ "text"

/-- The project without settings of its own. -/
def plain : Project where
  root := ⟨"."⟩
  settings := .standard
  registry := .empty
  handoffs := .standard

/-- The discovery of the template. -/
def plainDiscovery : Discovery where
  templates := [⟨⟨"pm", "x"⟩, .role, ⟨"./templates/commands/pm/x.md"⟩, "text"⟩]
  unreadable := []
  partials := []

/-- The template by itself. -/
def plainTemplate : Template := ⟨⟨"pm", "x"⟩, .role, ⟨"./templates/commands/pm/x.md"⟩, "text"⟩

/-- The run that writes the agent. -/
def plainSynced : Workspace × Report :=
  plain.run plainWorkspace plainDiscovery ⟨.sync, true, .all⟩

/-- The comparison after it. -/
def plainCompared : Workspace × Report :=
  plain.run plainSynced.1 plainDiscovery ⟨.validate, false, .all⟩

/-- The second run. -/
def plainRepeated : Workspace × Report :=
  plain.run plainSynced.1 plainDiscovery ⟨.sync, true, .all⟩

theorem undisturbed_plain :
    Undisturbed plain plainWorkspace (plainDiscovery.selectedTemplates .all plain.registry) where
  apart := by decide
  linkFree := by
    intro t ht f hf dir hdir target
    have hdir' : (plainWorkspace.grown plain.outputRoot).directoryAt plain.outputRoot.way =
        .ok [⟨"agents", by decide⟩, ⟨".github", by decide⟩] := by decide +kernel
    rw [hdir'] at hdir
    cases hdir
    obtain rfl := List.mem_singleton.1 ht
    have hname : fileName (Identity.name ⟨"pm", "x"⟩) = "pm-x.agent.md" := by decide +kernel
    obtain rfl : f = ⟨"pm-x.agent.md", by decide⟩ :=
      FileName.raw_injective (hf.trans (congrArg _ hname))
    have hnone : (plainWorkspace.grown plain.outputRoot).tree.find?
        [⟨"pm-x.agent.md", by decide⟩, ⟨"agents", by decide⟩, ⟨".github", by decide⟩] = none := by
      decide +kernel
    rw [hnone]
    simp
  compile := by
    intro t ht v _ _ _
    obtain rfl := List.mem_singleton.1 ht
    rw [compile_plainText _ _ _ (by decide), compile_plainText _ _ _ (by decide)]

theorem run_fixpoint_plain :
    Undisturbed plain plainWorkspace (plainDiscovery.selectedTemplates .all plain.registry) ∧
      ((∀ o ∈ plainSynced.2.outcomes, { o with action := .upToDate } ∈ plainCompared.2.outcomes) ∧
        (∀ o ∈ plainSynced.2.outcomes, ∀ x ∈ plainCompared.2.drifted, x.identity ≠ o.identity) ∧
        (plain.sourceFailures plainSynced.1 plainDiscovery ⟨.validate, false, .all⟩ =
            plain.sourceFailures plainWorkspace plainDiscovery ⟨.sync, true, .all⟩ ∧
          (plain.sourceFailures plainWorkspace plainDiscovery ⟨.sync, true, .all⟩).Sublist
            plainSynced.2.failures ∧
          (plain.sourceFailures plainSynced.1 plainDiscovery ⟨.validate, false, .all⟩).Sublist
            plainCompared.2.failures) ∧
        (plainSynced.2.failures = [] → plainCompared.2.exitCode = 0) ∧
        plainCompared.1 = plainSynced.1) ∧
      (∀ o ∈ plainSynced.2.outcomes, { o with action := .unchanged } ∈ plainRepeated.2.outcomes) ∧
        (plainSynced.2.failures = [] → plainRepeated.1 = plainSynced.1) := by
  have hd : Discovery.search plainWorkspace plain.root plain.settings = .ok plainDiscovery := by
    decide +kernel
  exact ⟨undisturbed_plain, run_fixpoint (by decide +kernel) hd undisturbed_plain
    (show plainSynced = _ from (Prod.eta _).symm) (show plainCompared = _ from (Prod.eta _).symm)
    (show plainRepeated = _ from (Prod.eta _).symm)⟩

/-! ## A link that comes into sight -/

/-- The path of the agents goes through a directory that is missing and back out of it. -/
def detour : Project where
  root := ⟨"."⟩
  settings := { Settings.standard with outputDir := ⟨"missing/../x"⟩ }
  registry := .empty
  handoffs := .standard

/-- One of its templates. -/
def detourTemplate (command : String) : Template :=
  ⟨⟨"pm", command⟩, .role, ⟨"./templates/commands/pm/" ++ command ++ ".md"⟩, "text"⟩

/-- What the template compiles to. -/
def detourDocument (command : String) : AgentDocument :=
  .compile .standard .empty ⟨"pm", command⟩ "text".toList

/-- The discovery of two templates. -/
def detourDiscovery : Discovery where
  templates := [detourTemplate "a", detourTemplate "b"]
  unreadable := []
  partials := []

/-- The directory of the agents. -/
def detourDirectory : Location := [⟨"x", by decide⟩]

/-- The agent that is missing. -/
def missingFile : FileName := ⟨"pm-a.agent.md", by decide⟩

/-- The agent that is a link. -/
def linkedFile : FileName := ⟨"pm-b.agent.md", by decide⟩

/-- The stale agent behind the link. -/
def staleFile : FileName := ⟨"pm-z.agent.md", by decide⟩

/-- The file of the first template. -/
def firstFile : FileName := ⟨"a.md", by decide⟩

/-- The file of the second template. -/
def secondFile : FileName := ⟨"b.md", by decide⟩

/-- A workspace in which the agent of the second template is a link to a stale agent that holds
what this template compiles to. -/
def detourWorkspace : Workspace :=
  ((((workspaceWith secondFile "text").put (firstFile :: roleDirectory)
    (.file "text".toUTF8)).put detourDirectory .directory).put (linkedFile :: detourDirectory)
      (.link staleFile.text)).put (staleFile :: detourDirectory)
        (.file (detourDocument "b").artifact.toUTF8)

/-- The workspace after both templates are processed. -/
def detourWritten : Workspace :=
  (detourWorkspace.grown detour.outputRoot).put (missingFile :: detourDirectory)
    (.file (detourDocument "a").artifact.toUTF8)

/-- The workspace after the sweep. -/
def detourSwept : Workspace := detourWritten.drop (staleFile :: detourDirectory)

/-- What is evaluated of the detour, once for all that follows. -/
structure DetourFacts : Prop where
  accepted : detour.settings.isAccepted = true
  commandsRoot : detourWorkspace.isDirectory (detour.settings.commandsRoot detour.root) = true
  scopes : detourWorkspace.list (detour.settings.commandsRoot detour.root) =
    .ok [⟨"pm", by decide⟩]
  found : Discovery.searchScope detourWorkspace detour.settings
    (detour.settings.commandsRoot detour.root) ⟨"pm", by decide⟩ =
      .ok [.template (detourTemplate "a"), .template (detourTemplate "b")]
  foundSorted : [detourTemplate "a", detourTemplate "b"].Pairwise fun s t =>
    Discovery.identityLE s.identity t.identity
  selected : detourDiscovery.selectedTemplates .all detour.registry =
    [detourTemplate "a", detourTemplate "b"]
  unreached : detourWorkspace.directoryAt detour.outputRoot.way = .error .notFound
  reached : (detourWorkspace.grown detour.outputRoot).directoryAt detour.outputRoot.way =
    .ok detourDirectory
  missingPath : agentPath detour.outputRoot (detourTemplate "a").identity.name =
    detour.outputRoot.join missingFile.raw
  missing : (settle detourWorkspace .sync (detour.outputRoot.join missingFile.raw)
    (detourDocument "a").artifact).2 = .ok .written
  linked : detourWritten.resolve (agentPath detour.outputRoot (detourTemplate "b").identity.name) =
    .ok (staleFile :: detourDirectory)
  outputRoot : detourWritten.openDirectory detour.outputRoot = .ok detourDirectory
  unknown : ((detourWritten.tree.children detourDirectory).filterMap (Sweep.candidate?
    detourWritten detour.settings detour.registry .all detour.outputRoot detourDirectory)).filter
      (fun c => !(["pm-a", "pm-b"].contains c.name)) =
        [⟨"pm-z", detour.outputRoot.join staleFile.raw⟩]
  names : (detourDiscovery.identities.map Identity.name).eraseDups = ["pm-a", "pm-b"]
  namesSorted : ["pm-a", "pm-b"].Pairwise fun a b => decide (a ≤ b)
  stale : (detourWritten.removeFile (detour.outputRoot.join staleFile.raw)).2 = .ok ()
  compared : detourSwept.readNormalized?
    (agentPath detour.outputRoot (detourTemplate "b").identity.name) = .ok none

theorem detourFacts : DetourFacts := by
  constructor <;> decide +kernel

theorem search_detour :
    Discovery.search detourWorkspace detour.root detour.settings = .ok detourDiscovery :=
  have hdetour := detourFacts
  Discovery.search_of_pair hdetour.commandsRoot hdetour.scopes hdetour.found
    hdetour.foundSorted

theorem compile_detour (w : Workspace) (command : String) :
    detour.compile w (detourTemplate command) = .ok (detourDocument command) :=
  compile_plainText detour w (detourTemplate command) (by simp [detourTemplate])

theorem settle_missing :
    settle detourWorkspace .sync (agentPath detour.outputRoot (detourTemplate "a").identity.name)
      (detourDocument "a").artifact = (detourWritten, .ok .written) := by
  have hdetour := detourFacts
  rw [hdetour.missingPath]
  exact settle_of_written hdetour.missing hdetour.reached

theorem find?_staleFile : detourWorkspace.tree.find? (staleFile :: detourDirectory) =
    some (.file (detourDocument "b").artifact.toUTF8) :=
  FileTree.find?_insert_self (by simp)

theorem find?_put_grown {w : Workspace} {out : PathName} {l m : Location} {e e' : Entry}
    (h : w.tree.find? m = some e) (hne : m ≠ l) :
    ((w.grown out).put l e').tree.find? m = some e :=
  (FileTree.find?_insert_of_ne hne).trans ((grows_grown w out).find?_of_some h)

/-- The second template is found behind the link. -/
theorem settle_linked :
    settle detourWritten .sync (agentPath detour.outputRoot (detourTemplate "b").identity.name)
      (detourDocument "b").artifact = (detourWritten, .ok .unchanged) :=
  have hdetour := detourFacts
  settle_of_read (readNormalized?_of_resolve hdetour.linked
    (find?_put_grown find?_staleFile (by decide)))

theorem names_detour : detourDiscovery.names = ["pm-a", "pm-b"] := by
  have hdetour := detourFacts
  rw [Discovery.names, hdetour.names]
  exact List.mergeSort_of_pairwise hdetour.namesSorted

theorem sweep_detour : (Sweep.run detourWritten detour.settings detour.registry .all true
    detour.outputRoot detourDiscovery.names).1 = detourSwept := by
  have hdetour := detourFacts
  rw [names_detour, sweep_of_single hdetour.outputRoot hdetour.unknown hdetour.stale]
  rfl

theorem settle_compared :
    settle detourSwept .validate (agentPath detour.outputRoot (detourTemplate "b").identity.name)
      (detourDocument "b").artifact = (detourSwept, .ok (.drifted .missing)) := by
  have hdetour := detourFacts
  simp only [settle, hdetour.compared]
  rfl

/-- The first run finds the agent in place, and then removes what stands behind the link. -/
theorem synced_detour :
    (detour.run detourWorkspace detourDiscovery ⟨.sync, true, .all⟩).1 = detourSwept ∧
      detour.outcome .sync (detourTemplate "b") (detourDocument "b") .unchanged ∈
        (detour.run detourWorkspace detourDiscovery ⟨.sync, true, .all⟩).2.outcomes := by
  have hdetour := detourFacts
  have ha : (detour.process .sync detourWorkspace (detourTemplate "a")).1 = detourWritten := by
    rw [process_of_settle (compile_detour _ _) settle_missing]
  have hb := process_of_settle (compile_detour _ _) settle_linked
  obtain ⟨hw, ho⟩ := run_of_pair (o := ⟨.sync, true, .all⟩) hdetour.selected ha hb
  constructor
  · rw [Project.run_fst, Project.swept_eq (by simp), hw, sweep_detour]
  · exact ho _ rfl

theorem compared_detour :
    detour.outcome .validate (detourTemplate "b") (detourDocument "b") (.drifted .missing) ∈
      (detour.run detourSwept detourDiscovery ⟨.validate, false, .all⟩).2.outcomes := by
  have hdetour := detourFacts
  have hvalidate : Mode.validate ≠ .sync := by decide
  have hb := process_of_settle (compile_detour _ _) settle_compared
  obtain ⟨-, ho⟩ := run_of_pair (o := ⟨.validate, false, .all⟩) hdetour.selected
    (process_fst hvalidate) hb
  exact ho _ rfl

/-- Ordinary settings, and yet the comparison misses an agent that the run had found in place: it is
a link behind a missing directory, which comes into sight when the directory is made. It finds
another agent modified that the run had just written, for a template behind it is shown alike. -/
theorem run_drifts :
    (detour.settings.isAccepted = true ∧
      Discovery.search detourWorkspace detour.root detour.settings = .ok detourDiscovery ∧
      detour.LinkFree detourWorkspace (detourDiscovery.selectedTemplates .all detour.registry) ∧
      (∀ t ∈ detourDiscovery.selectedTemplates .all detour.registry, ∀ w,
        detour.compile w t = detour.compile detourWorkspace t) ∧
      ∃ o ∈ (detour.run detourWorkspace detourDiscovery ⟨.sync, true, .all⟩).2.outcomes,
        ∃ x ∈ (detour.run (detour.run detourWorkspace detourDiscovery ⟨.sync, true, .all⟩).1
          detourDiscovery ⟨.validate, false, .all⟩).2.drifted, x.identity = o.identity) ∧
    shelf.settings.isAccepted = true ∧
      Discovery.search lookalikeWorkspace shelf.root shelf.settings = .ok lookalikeDiscovery ∧
      shelf.LinkFree (lookalikeWorkspace.grown shelf.outputRoot)
        (lookalikeDiscovery.selectedTemplates .all shelf.registry) ∧
      (∀ t ∈ lookalikeDiscovery.selectedTemplates .all shelf.registry, ∀ w,
        shelf.compile w t = shelf.compile lookalikeWorkspace t) ∧
      ∃ o ∈ (shelf.run lookalikeWorkspace lookalikeDiscovery ⟨.sync, true, .all⟩).2.outcomes,
        ∃ x ∈ (shelf.run (shelf.run lookalikeWorkspace lookalikeDiscovery ⟨.sync, true, .all⟩).1
          lookalikeDiscovery ⟨.validate, false, .all⟩).2.drifted, x.identity = o.identity := by
  have hdetour := detourFacts
  have hlookalike := lookalikeFacts
  refine ⟨⟨hdetour.accepted, search_detour, ?_, ?_, ?_⟩, hlookalike.accepted,
    search_lookalike, ?_, ?_, ?_⟩
  · intro t _ f _ dir hdir
    rw [hdetour.unreached] at hdir
    cases hdir
  · intro t ht w
    rw [hdetour.selected] at ht
    rcases List.mem_pair.1 ht with rfl | rfl <;> rw [compile_detour, compile_detour]
  · rw [synced_detour.1]
    exact ⟨_, synced_detour.2, _, mem_drifted compared_detour rfl, rfl⟩
  · rw [Discovery.selectedTemplates_all]
    exact linkFree_lookalike
  · intro t ht w
    rw [Discovery.selectedTemplates_all] at ht
    exact compile_lookalike ht _ _
  · obtain ⟨hw, -, ho⟩ := run_lookalike true
    rw [hw, ho]
    exact ⟨_, List.mem_cons_self, _, lookalike_drifts, rfl⟩

end AgentDocs
