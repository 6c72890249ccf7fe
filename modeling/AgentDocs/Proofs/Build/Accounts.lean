import AgentDocs.Proofs.Build.Resweep

/-!
# What a report accounts for

Every template that a run selects has one turn, and the report tells how each turn ended: with an
outcome, or with one failure, at the compilation or at the artifact. The counts and the other lists
of the report follow from these, and the sweep adds nothing about a template that was discovered.

* `processAll_eq_turns`: the turns, each in the workspace that those before it have left.
* `failure?_process`, `outcome?_process`, `defaulted_process`: how one turn ends.
* `Accounts`, `run_accounts`: the report of a whole run.
-/

namespace AgentDocs

open AgentDocs.Files AgentDocs.Files.Workspace

/-! ## Turns -/

/-- A template with the workspace in which its turn comes. -/
structure Turn where
  template : Template
  workspace : Workspace

namespace Project

/-- The turns of some templates. Each finds the workspace that those before it have left. -/
def turns (p : Project) (mode : Mode) : Workspace → List Template → List Turn
  | _, [] => []
  | w, t :: rest => ⟨t, w⟩ :: p.turns mode (p.process mode w t).1 rest

/-- What settling the artifact of a document comes to in a turn. -/
def settlement (p : Project) (mode : Mode) (x : Turn) (d : AgentDocument) :
    Except FileError Action :=
  (settle x.workspace mode (agentPath p.outputRoot x.template.identity.name) d.artifact).2

/-- The failure with which a turn ends: the template does not compile, or its artifact cannot be
read or written. -/
def failureAt (p : Project) (mode : Mode) (x : Turn) : Option Failure :=
  match p.compile x.workspace x.template with
  | .error e => some ⟨x.template.identity.name, e⟩
  | .ok d =>
    match p.settlement mode x d with
    | .error e => some ⟨x.template.identity.name, .file e⟩
    | .ok _ => none

/-- The outcome with which a turn ends, where nothing fails. -/
def outcomeAt (p : Project) (mode : Mode) (x : Turn) : Option Outcome :=
  match p.compile x.workspace x.template with
  | .error _ => none
  | .ok d => (p.settlement mode x d).toOption.map (p.outcome mode x.template d)

/-- A template compiles in its turn and has no description of its own. -/
def lacksDescription (p : Project) (x : Turn) : Bool :=
  match p.compile x.workspace x.template with
  | .error _ => false
  | .ok d => d.descriptionDefaulted

end Project

section
variable {p : Project} {mode : Mode}

theorem turns_template (w : Workspace) (ts : List Template) :
    (p.turns mode w ts).map Turn.template = ts := by
  induction ts generalizing w with
  | nil => rfl
  | cons t rest ih => rw [Project.turns, List.map_cons, ih]

theorem processAll_eq_turns (w : Workspace) (ts : List Template) :
    (p.processAll mode w ts).2 =
      (p.turns mode w ts).map fun x => (p.process mode x.workspace x.template).2 := by
  induction ts generalizing w with
  | nil => rfl
  | cons t rest ih =>
    rw [processAll_cons, Project.turns, List.map_cons, ← ih]

/-! ## One turn -/

variable (x : Turn)

theorem failure?_process :
    (p.process mode x.workspace x.template).2.failure? = p.failureAt mode x := by
  unfold Project.failureAt
  cases hc : p.compile x.workspace x.template with
  | error e => rw [process_of_error hc]; rfl
  | ok d =>
    rw [process_of_ok hc]
    dsimp only [Project.settlement]
    cases (settle x.workspace mode (agentPath p.outputRoot x.template.identity.name)
      d.artifact).2 <;> rfl

theorem outcome?_process :
    (p.process mode x.workspace x.template).2.outcome? = p.outcomeAt mode x := by
  unfold Project.outcomeAt
  cases hc : p.compile x.workspace x.template with
  | error e => rw [process_of_error hc]; rfl
  | ok d => exact outcome?_process_of_ok hc

theorem defaulted_process :
    (p.process mode x.workspace x.template).2.defaulted = p.lacksDescription x := by
  unfold Project.lacksDescription
  cases hc : p.compile x.workspace x.template with
  | error e => rw [process_of_error hc]
  | ok d => rw [process_of_ok hc]

theorem identity_process :
    (p.process mode x.workspace x.template).2.identity = x.template.identity := by
  cases hc : p.compile x.workspace x.template with
  | error e => rw [process_of_error hc]
  | ok d => rw [process_of_ok hc]

theorem isSome_outcomeAt : (p.outcomeAt mode x).isSome = (p.failureAt mode x).isNone := by
  unfold Project.outcomeAt Project.failureAt
  cases p.compile x.workspace x.template with
  | error e => rfl
  | ok d =>
    dsimp only
    cases p.settlement mode x d <;> rfl

variable {x}

theorem subject_of_failureAt {f : Failure} (h : p.failureAt mode x = some f) :
    f.subject = x.template.identity.name := by
  unfold Project.failureAt at h
  split at h
  · cases h; rfl
  · split at h
    · cases h; rfl
    · cases h

theorem exists_of_outcomeAt {o : Outcome} (h : p.outcomeAt mode x = some o) :
    ∃ d action, p.settlement mode x d = .ok action ∧ o = p.outcome mode x.template d action := by
  unfold Project.outcomeAt at h
  split at h
  · cases h
  · next d _ =>
    obtain ⟨action, ha, rfl⟩ := Option.map_eq_some_iff.1 h
    refine ⟨d, action, ?_, rfl⟩
    revert ha
    cases p.settlement mode x d with
    | error e => intro ha; cases ha
    | ok found => intro ha; cases ha; rfl

end

/-! ## Lists of what some elements give -/

theorem map_filterMap_eq {α β γ : Type} {f : α → Option β} {g : β → γ} {h : α → γ}
    (hg : ∀ a b, f a = some b → g b = h a) (xs : List α) :
    (xs.filterMap f).map g = (xs.filter fun a => (f a).isSome).map h := by
  induction xs with
  | nil => rfl
  | cons a rest ih =>
    cases ha : f a with
    | none => rw [List.filterMap_cons_none ha, List.filter_cons_of_neg (by simp [ha]), ih]
    | some b =>
      rw [List.filterMap_cons_some ha, List.filter_cons_of_pos (by simp [ha]), List.map_cons,
        List.map_cons, hg a b ha, ih]

/-- Where `g` gives something just where `f` gives nothing, the two share out what they are given.
-/
theorem length_filterMap_add {α β γ : Type} {f : α → Option β} {g : α → Option γ}
    (hfg : ∀ a, (f a).isSome = (g a).isNone) (xs : List α) :
    (xs.filterMap f).length + (xs.filterMap g).length = xs.length := by
  induction xs with
  | nil => rfl
  | cons a rest ih =>
    have ha := hfg a
    cases hf : f a <;> cases hg : g a <;> simp [hf, hg] at ha ⊢ <;> omega

/-! ## Sweeps -/

theorem subject_of_mem_remove_failures {force : Bool} {w : Workspace} {cs : List Sweep.Candidate}
    {x : Failure} (h : x ∈ (Sweep.remove force w cs).2.failures) :
    ∃ c ∈ cs, c.name = x.subject := by
  cases force with
  | false =>
    rw [Sweep.remove_of_not_force] at h
    cases h
  | true =>
    induction cs generalizing w with
    | nil => cases h
    | cons c rest ih =>
      have hrest : ∀ {v : Workspace}, x ∈ (Sweep.remove true v rest).2.failures →
          ∃ c' ∈ c :: rest, c'.name = x.subject := fun hx =>
        (ih hx).imp fun _ => And.imp_left (List.mem_cons_of_mem _)
      simp only [Sweep.remove, if_true] at h
      rcases hr : w.removeFile c.path with ⟨v, e | ⟨⟩⟩
      · rw [hr] at h
        rcases List.mem_cons.1 h with rfl | h
        · exact ⟨c, List.mem_cons_self, rfl⟩
        · exact hrest h
      · rw [hr] at h
        exact hrest h

/-- A sweep that may list its directory reports no failure about an agent that is `known`. -/
theorem sweep_refused_or {w : Workspace} {s : Settings} {r : Registry} {filter : RoleFilter}
    {force : Bool} {out : PathName} {known : List String} :
    Sweep.run w s r filter force out known =
        (w, ⟨[], [⟨out.text, .file .permissionDenied⟩]⟩) ∨
      ∀ x ∈ (Sweep.run w s r filter force out known).2.failures, x.subject ∉ known := by
  cases hd : w.isDirectory out with
  | false =>
    rw [sweep_of_not_directory hd]
    exact .inr (by simp)
  | true =>
    cases ho : w.openDirectory out with
    | error e =>
      obtain ⟨l, -, -, hl⟩ := openDirectory_of_isDirectory hd
      rw [hl] at ho
      split at ho
      · cases ho
        exact .inl (by simp [Sweep.run, *])
      · cases ho
    | ok dir =>
      rw [sweep_of_directory ho]
      refine .inr fun x hx => ?_
      obtain ⟨c, hc, hname⟩ := subject_of_mem_remove_failures hx
      rw [← hname]
      simpa using (List.mem_filter.1 hc).2

/-! ## Whole runs -/

/-- An action reports a difference. -/
def Action.isDrifted : Action → Bool
  | drifted _ => true
  | _ => false

theorem map_drifted? (outcomes : List Outcome) :
    (outcomes.filterMap Outcome.drifted?).map (fun x => (x.identity, Action.drifted x.drift)) =
      (outcomes.filter (·.action.isDrifted)).map fun x => (x.identity, x.action) := by
  have hsome : ∀ x : Outcome, x.drifted?.isSome = x.action.isDrifted := by
    rintro ⟨identity, path, action, preview⟩
    cases action <;> rfl
  simp only [← hsome]
  refine map_filterMap_eq (fun x found h => ?_) outcomes
  obtain ⟨identity, path, action, preview⟩ := x
  cases action <;> cases h
  rfl

/-- What a report says about the templates and the unreadable templates that a run selects, and what
it says beside that. -/
structure Accounts (p : Project) (w : Workspace) (d : Discovery) (o : Options) (turns : List Turn)
    (r : Report) : Prop where
  /-- Every selected template has one turn. -/
  templates : turns.map Turn.template = d.selectedTemplates o.filter p.registry
  /-- Everything that is selected is counted. -/
  scanned : r.scanned = (d.selectedUnreadable o.filter p.registry).length + turns.length
  /-- Every unreadable template has one failure, then every turn that fails, then come the removals
  that fail. -/
  failures : r.failures =
    (d.selectedUnreadable o.filter p.registry).map (fun u => ⟨u.identity.name, u.error⟩) ++
      turns.filterMap (p.failureAt o.mode) ++ (p.swept w d o).2.failures
  /-- No removal that fails is about something that was discovered. The one other failure of a sweep
  is that it may not list the directory of the agents, and then it does nothing. -/
  removals : (p.swept w d o).2 = ⟨[], [⟨p.outputRoot.text, .file .permissionDenied⟩]⟩ ∨
    ∀ x ∈ (p.swept w d o).2.failures, x.subject ∉ d.names
  /-- Every turn that does not fail has one outcome. -/
  outcomes : r.outcomes = turns.filterMap (p.outcomeAt o.mode)
  /-- The outcomes are about the templates whose turns do not fail. -/
  succeeded : r.outcomes.map Outcome.identity =
    (turns.filter fun x => (p.failureAt o.mode x).isNone).map fun x => x.template.identity
  /-- The failures of the turns are about all other templates. -/
  failed : (turns.filterMap (p.failureAt o.mode)).map Failure.subject =
    (turns.filter fun x => (p.failureAt o.mode x).isSome).map fun x => x.template.identity.name
  processed : r.processed = r.outcomes.length
  /-- Beside the removals that fail, a report has as many outcomes and failures as it counts. -/
  tallied : r.processed + r.failures.length = r.scanned + (p.swept w d o).2.failures.length
  /-- The differences are those that the outcomes report. -/
  drifted : r.drifted.map (fun x => (x.identity, Action.drifted x.drift)) =
    (r.outcomes.filter (·.action.isDrifted)).map fun x => (x.identity, x.action)
  /-- A template that compiles without a description is named, whatever comes of its artifact. -/
  missingDescriptions : r.missingDescriptions =
    (turns.filter p.lacksDescription).map fun x => x.template.identity
  previews : ∀ x ∈ r.outcomes, x.preview.isSome ↔ o.mode = .preview
  /-- A preview says only what would be written. -/
  preview : o.mode = .preview → (∀ x ∈ r.outcomes, x.action = .wouldWrite) ∧ r.stale = [] ∧
    (p.swept w d o).2.failures = []

section
variable (p : Project) (w : Workspace) (d : Discovery) (o : Options)

/-- The turns of a run. -/
def Project.turnsOf : List Turn := p.turns o.mode w (d.selectedTemplates o.filter p.registry)

theorem processed_eq_turns :
    (p.processed w d o).2 =
      (p.turnsOf w d o).map fun x => (p.process o.mode x.workspace x.template).2 :=
  processAll_eq_turns w _

theorem outcomes_eq_turns :
    (p.run w d o).2.outcomes = (p.turnsOf w d o).filterMap (p.outcomeAt o.mode) := by
  rw [Project.run_outcomes, processed_eq_turns, List.filterMap_map]
  exact List.filterMap_congr fun x _ => outcome?_process x

theorem failures_eq_turns :
    (p.processed w d o).2.filterMap Processed.failure? =
      (p.turnsOf w d o).filterMap (p.failureAt o.mode) := by
  rw [processed_eq_turns, List.filterMap_map]
  exact List.filterMap_congr fun x _ => failure?_process x

theorem scanned_eq_turns :
    (p.run w d o).2.scanned =
      (d.selectedUnreadable o.filter p.registry).length + (p.turnsOf w d o).length := by
  rw [← List.length_map (f := Turn.template), Project.turnsOf, turns_template]
  rfl

theorem missingDescriptions_eq_turns :
    (p.run w d o).2.missingDescriptions =
      ((p.turnsOf w d o).filter p.lacksDescription).map fun x => x.template.identity := by
  have hfilter : (fun x : Turn => (p.process o.mode x.workspace x.template).2.defaulted) =
      p.lacksDescription := funext defaulted_process
  rw [show (p.run w d o).2.missingDescriptions =
    ((p.processed w d o).2.filter (·.defaulted)).map (·.identity) from rfl, processed_eq_turns,
    List.filter_map, List.map_map, ← hfilter]
  refine List.map_congr_left fun x _ => ?_
  exact identity_process x

variable {p w d o} in
/-- An outcome `x` of a run comes from the settlement of some document in some turn. -/
theorem exists_of_mem_run_outcomes {x : Outcome} (h : x ∈ (p.run w d o).2.outcomes) :
    ∃ turn found action, p.settlement o.mode turn found = .ok action ∧
      x = p.outcome o.mode turn.template found action := by
  rw [outcomes_eq_turns] at h
  obtain ⟨turn, -, hturn⟩ := List.mem_filterMap.1 h
  exact ⟨turn, exists_of_outcomeAt hturn⟩

variable {p w d o} in
theorem swept_of_preview (h : o.mode = .preview) :
    p.swept w d o = ((p.processed w d o).1, ⟨[], []⟩) := if_pos h

variable {p w d o} in
theorem swept_refused_or :
    (p.swept w d o).2 = ⟨[], [⟨p.outputRoot.text, .file .permissionDenied⟩]⟩ ∨
      ∀ x ∈ (p.swept w d o).2.failures, x.subject ∉ d.names := by
  by_cases hm : o.mode = .preview
  · rw [swept_of_preview hm]
    exact .inr (by simp)
  · rw [Project.swept_eq hm]
    exact sweep_refused_or.imp_left (congrArg Prod.snd)

/-- The report of a run accounts for everything that the run selects. -/
theorem run_accounts : Accounts p w d o (p.turnsOf w d o) (p.run w d o).2 where
  templates := turns_template w _
  scanned := scanned_eq_turns p w d o
  failures := by rw [Project.run_failures, failures_eq_turns]
  removals := swept_refused_or
  outcomes := outcomes_eq_turns p w d o
  succeeded := by
    rw [outcomes_eq_turns]
    simp only [← isSome_outcomeAt]
    refine map_filterMap_eq (fun x outcome h => ?_) _
    obtain ⟨found, action, -, rfl⟩ := exists_of_outcomeAt h
    rfl
  failed := map_filterMap_eq (fun _ _ => subject_of_failureAt) _
  processed := rfl
  tallied := by
    have hturns := length_filterMap_add (fun x => @isSome_outcomeAt p o.mode x)
      (p.turnsOf w d o)
    rw [show (p.run w d o).2.processed = (p.run w d o).2.outcomes.length from rfl,
      outcomes_eq_turns, scanned_eq_turns, Project.run_failures, failures_eq_turns,
      List.length_append, List.length_append, List.length_map]
    omega
  drifted := map_drifted? _
  missingDescriptions := missingDescriptions_eq_turns p w d o
  previews := by
    intro x hx
    obtain ⟨turn, found, action, -, rfl⟩ := exists_of_mem_run_outcomes hx
    by_cases hm : o.mode = .preview <;> simp [Project.outcome, hm]
  preview := by
    intro hm
    refine ⟨fun x hx => ?_, ?_, by rw [swept_of_preview hm]⟩
    · obtain ⟨turn, found, action, ha, rfl⟩ := exists_of_mem_run_outcomes hx
      rw [Project.settlement, hm, settle_preview] at ha
      cases ha
      rfl
    · rw [Project.run_stale, swept_of_preview hm]

end

end AgentDocs
