import AgentDocs.Agent.Handoff.Standard
import AgentDocs.Proofs.Role.Ownership

/-!
# Promoted suggestions

Promotion sorts the suggestions for a command by the place of their agents in the list of the
current role, and sorting keeps apart only what has different places. So the suggestions for one
agent, and those for all agents that are not listed, stay as the table has them.

The list of a role and the owner of an agent are two things. An agent that several roles list
belongs to the first of them, and is promoted for each of them.

* `filter_promote`: suggestions in the order of their places stay in their order.
* `HandoffTable.handoffs_ordered`: what promotion does to the suggestions of a table.
* `Registry.agentRole?_eq_some_iff`: the owner of an agent that a role lists.
* `HandoffTable.handoffs_owned`: how far promotion agrees with the owners.
-/

namespace AgentDocs

/-! ## Promotion as sorting -/

section
variable {own : List String} {handoffs : List Handoff}

theorem place_lt_iff {agent : String} : place own agent < own.length ↔ agent ∈ own :=
  List.idxOf_lt_length_iff

/-- An `agent` that `own` does not list shares the place behind all others. -/
theorem place_of_notMem {agent : String} (h : agent ∉ own) : place own agent = own.length :=
  List.idxOf_eq_length h

theorem pairwise_promote (own : List String) (handoffs : List Handoff) :
    (promote own handoffs).Pairwise fun a b =>
      place own a.rule.agent ≤ place own b.rule.agent := by
  have h : (promote own handoffs).Pairwise fun a b =>
      decide (place own a.rule.agent ≤ place own b.rule.agent) = true :=
    List.pairwise_mergeSort
      (fun a b c hab hbc => by simpa using Nat.le_trans (by simpa using hab) (by simpa using hbc))
      (fun a b => by simpa using Nat.le_total _ _) handoffs
  exact h.imp of_decide_eq_true

/-- Sorting is stable: suggestions of `p` that stand in the order of their places stay in their
order. -/
theorem filter_promote {p : Handoff → Bool}
    (h : ∀ a b, p a = true → p b = true → place own a.rule.agent ≤ place own b.rule.agent) :
    (promote own handoffs).filter p = handoffs.filter p := by
  have hsorted : (handoffs.filter p).Pairwise fun a b =>
      decide (place own a.rule.agent ≤ place own b.rule.agent) = true :=
    List.pairwise_of_forall_mem_list fun a ha b hb =>
      decide_eq_true (h a b (List.mem_filter.1 ha).2 (List.mem_filter.1 hb).2)
  have hsub : (handoffs.filter p).Sublist (promote own handoffs) :=
    List.sublist_mergeSort
      (fun a b c hab hbc => by simpa using Nat.le_trans (by simpa using hab) (by simpa using hbc))
      (fun a b => by simpa using Nat.le_total _ _) hsorted List.filter_sublist
  have hlength : (handoffs.filter p).length = ((promote own handoffs).filter p).length :=
    ((perm_promote own handoffs).filter p).length_eq.symm
  refine (List.Sublist.eq_of_length ?_ hlength).symm
  have hfilter := hsub.filter p
  rwa [List.filter_filter, show (fun a => p a && p a) = p from funext fun a => Bool.and_self _]
    at hfilter

theorem promote_eq_self (h : handoffs.Pairwise fun a b =>
    place own a.rule.agent ≤ place own b.rule.agent) : promote own handoffs = handoffs :=
  List.mergeSort_of_pairwise (h.imp decide_eq_true)

theorem promote_nil (handoffs : List Handoff) : promote [] handoffs = handoffs :=
  promote_eq_self (List.pairwise_of_forall fun a b => by simp [place])

theorem HandoffTable.handoffs_eq (t : HandoffTable) (scope command : String) (r : Registry) :
    t.handoffs scope command r =
      promote (r.agentsOf scope) ((t.rules scope command).map (HandoffRule.annotate r)) := by
  unfold HandoffTable.handoffs
  by_cases h : r.agentsOf scope = []
  · simp [h, promote_nil]
  · simp [h]

end

/-! ## The suggestions of a table -/

section
variable {t : HandoffTable} {scope command : String} {r : Registry}

theorem HandoffTable.perm_handoffs (t : HandoffTable) (scope command : String) (r : Registry) :
    (t.handoffs scope command r).Perm
      ((t.rules scope command).map (HandoffRule.annotate r)) := by
  rw [handoffs_eq]
  exact perm_promote _ _

theorem map_rule_annotate (rules : List HandoffRule) :
    (rules.map (HandoffRule.annotate r)).map (·.rule) = rules := by
  simp [List.map_map, Function.comp_def, HandoffRule.annotate]

theorem HandoffTable.handoffs_of_pairwise
    (h : ((t.rules scope command).map (HandoffRule.annotate r)).Pairwise fun a b =>
      place (r.agentsOf scope) a.rule.agent ≤ place (r.agentsOf scope) b.rule.agent) :
    t.handoffs scope command r = (t.rules scope command).map (HandoffRule.annotate r) := by
  rw [handoffs_eq]
  exact promote_eq_self h

theorem HandoffTable.eq_annotate_of_mem {h : Handoff} (hm : h ∈ t.handoffs scope command r) :
    h.rule ∈ t.rules scope command ∧ h = h.rule.annotate r := by
  obtain ⟨rule, hrule, rfl⟩ := List.mem_map.1 ((t.perm_handoffs scope command r).mem_iff.1 hm)
  exact ⟨hrule, rfl⟩

/-- The rows that `p` picks by their agents stay in the order of the table, where it picks agents of
one place only. -/
theorem HandoffTable.filter_handoffs {p : String → Bool}
    (h : ∀ a b, p a = true → p b = true →
      place (r.agentsOf scope) a ≤ place (r.agentsOf scope) b) :
    ((t.handoffs scope command r).filter (p ·.rule.agent)).map (·.rule) =
      (t.rules scope command).filter (p ·.agent) := by
  rw [handoffs_eq, filter_promote fun a b => h a.rule.agent b.rule.agent, List.filter_map,
    map_rule_annotate]
  rfl

theorem HandoffTable.pairwise_handoffs (t : HandoffTable) (scope command : String) (r : Registry) :
    (t.handoffs scope command r).Pairwise fun a b =>
      b.rule.agent ∈ r.agentsOf scope → a.rule.agent ∈ r.agentsOf scope ∧
        (r.agentsOf scope).idxOf a.rule.agent ≤ (r.agentsOf scope).idxOf b.rule.agent := by
  rw [handoffs_eq]
  refine (pairwise_promote _ _).imp fun {a b} hab hb => ⟨?_, hab⟩
  exact place_lt_iff.1 (Nat.lt_of_le_of_lt hab (place_lt_iff.2 hb))

/-- The suggestions for a command are the rows of the table, each with the owner of its agent. Those
whose agents the current role lists come first, in the order in which the list names their agents
first; those for one agent, and all others, stay in the order of the table. -/
theorem HandoffTable.handoffs_ordered (t : HandoffTable) (scope command : String) (r : Registry) :
    ((t.handoffs scope command r).map (·.rule)).Perm (t.rules scope command) ∧
    (∀ h ∈ t.handoffs scope command r,
      h.priorityForRoles = (r.agentRole? h.rule.agent).toList) ∧
    ((t.handoffs scope command r).Pairwise fun a b =>
      b.rule.agent ∈ r.agentsOf scope → a.rule.agent ∈ r.agentsOf scope ∧
        (r.agentsOf scope).idxOf a.rule.agent ≤ (r.agentsOf scope).idxOf b.rule.agent) ∧
    (∀ agent, ((t.handoffs scope command r).filter (·.rule.agent = agent)).map (·.rule) =
      (t.rules scope command).filter (·.agent = agent)) ∧
    ((t.handoffs scope command r).filter (·.rule.agent ∉ r.agentsOf scope)).map (·.rule) =
      (t.rules scope command).filter (·.agent ∉ r.agentsOf scope) := by
  refine ⟨?_, fun h hm => ?_, t.pairwise_handoffs scope command r, fun agent => ?_, ?_⟩
  · have hp := (t.perm_handoffs scope command r).map (·.rule)
    rwa [map_rule_annotate] at hp
  · rw [(eq_annotate_of_mem hm).2]
    rfl
  · refine filter_handoffs (p := fun a => a = agent) fun a b ha hb => ?_
    exact Nat.le_of_eq (by rw [of_decide_eq_true ha, of_decide_eq_true hb])
  · refine filter_handoffs (p := fun a => a ∉ r.agentsOf scope) fun a b ha hb => ?_
    exact Nat.le_of_eq
      (by rw [place_of_notMem (of_decide_eq_true ha), place_of_notMem (of_decide_eq_true hb)])

end

/-! ## Listed and owned agents -/

namespace Registry

/-- Another role lists an agent before a role does, and so owns it instead of that role. -/
def Forestalled (definitions : List RoleDefinition) (role agent : String) : Prop :=
  ∃ before d after, definitions = before ++ d :: after ∧ d.role ≠ sharedScope ∧ d.role ≠ role ∧
    agent ∈ d.agentNames ∧ ∀ e ∈ before, e.role = role → agent ∉ e.agentNames

section
variable {definitions : List RoleDefinition} {d : RoleDefinition} {role agent owner : String}

theorem forestalled_cons : Forestalled (d :: definitions) role agent ↔
    d.role ≠ sharedScope ∧ d.role ≠ role ∧ agent ∈ d.agentNames ∨
      (d.role = role → agent ∉ d.agentNames) ∧ Forestalled definitions role agent := by
  constructor
  · rintro ⟨before, e, after, h, hshared, hne, hlists, hbefore⟩
    cases before with
    | nil =>
      obtain ⟨rfl, -⟩ := List.cons.inj h
      exact .inl ⟨hshared, hne, hlists⟩
    | cons a before =>
      obtain ⟨rfl, hrest⟩ := List.cons.inj h
      obtain ⟨hd, hbefore⟩ := List.forall_mem_cons.1 hbefore
      exact .inr ⟨hd, before, e, after, hrest, hshared, hne, hlists, hbefore⟩
  · rintro (⟨hshared, hne, hlists⟩ | ⟨hd, before, e, after, rfl, hshared, hne, hlists, hbefore⟩)
    · exact ⟨[], d, definitions, rfl, hshared, hne, hlists, by simp⟩
    · exact ⟨d :: before, e, after, rfl, hshared, hne, hlists,
        List.forall_mem_cons.2 ⟨hd, hbefore⟩⟩

theorem agentRole?_cons : (ofDefinitions (d :: definitions)).agentRole? agent =
    if d.role ≠ sharedScope ∧ withoutMarks agent ∈ d.agentNames then some d.role
    else (ofDefinitions definitions).agentRole? agent := by
  unfold agentRole? ofDefinitions
  by_cases h : d.role ≠ sharedScope ∧ withoutMarks agent ∈ d.agentNames
  · rw [if_pos h, List.find?_cons_of_pos (by simpa [RoleDefinition.owns_iff] using h)]
    rfl
  · rw [if_neg h, List.find?_cons_of_neg (by simpa [RoleDefinition.owns_iff] using h)]

/-- A `role` owns an `agent` that it lists, unless another role lists it before. -/
theorem agentRole?_eq_some_iff (hrole : role ≠ sharedScope)
    (hlists : ∃ d ∈ definitions, d.role = role ∧ withoutMarks agent ∈ d.agentNames) :
    (ofDefinitions definitions).agentRole? agent = some role ↔
      ¬ Forestalled definitions role (withoutMarks agent) := by
  induction definitions with
  | nil => simp at hlists
  | cons d rest ih =>
    rw [agentRole?_cons, forestalled_cons]
    by_cases h : d.role ≠ sharedScope ∧ withoutMarks agent ∈ d.agentNames
    · rw [if_pos h]
      by_cases hd : d.role = role
      · simp [hd, h.2]
      · simp [hd, h.1, h.2]
    · rw [if_neg h]
      have hd : d.role = role → withoutMarks agent ∉ d.agentNames :=
        fun heq hm => h ⟨heq ▸ hrole, hm⟩
      obtain ⟨e, he, heq, hm⟩ := hlists
      rcases List.mem_cons.1 he with rfl | he
      · exact absurd hm (hd heq)
      · rw [ih ⟨e, he, heq, hm⟩]
        have hfirst :
            ¬ (d.role ≠ sharedScope ∧ d.role ≠ role ∧ withoutMarks agent ∈ d.agentNames) :=
          fun hf => h ⟨hf.1, hf.2.2⟩
        rw [or_iff_right hfirst, and_iff_right hd]

theorem exists_of_agentRole? (h : (ofDefinitions definitions).agentRole? agent = some owner) :
    ∃ d ∈ definitions, d.role = owner ∧ withoutMarks agent ∈ d.agentNames := by
  obtain ⟨d, hd, rfl⟩ := Option.map_eq_some_iff.1 h
  have hp := List.find?_some hd
  simp only [Bool.and_eq_true, List.contains_iff_mem] at hp
  exact ⟨d, List.mem_of_find?_eq_some hd, rfl, hp.2⟩

theorem exists_agentRole? (hd : d ∈ definitions) (hrole : d.role ≠ sharedScope)
    (hm : withoutMarks agent ∈ d.agentNames) :
    ∃ owner, (ofDefinitions definitions).agentRole? agent = some owner := by
  have hfound : ((ofDefinitions definitions).agentRole? agent).isSome = true := by
    rw [agentRole?, Option.isSome_map, List.find?_isSome]
    exact ⟨d, hd, by simp [RoleDefinition.owns_iff.2 hrole, hm]⟩
  exact Option.isSome_iff_exists.1 hfound

theorem exists_of_mem_agentsOf (h : agent ∈ (ofDefinitions definitions).agentsOf role) :
    ∃ d ∈ definitions, d.role = role ∧ agent ∈ d.agentNames ∧ withoutMarks agent = agent := by
  rw [agentsOf_eq] at h
  cases hd : definitionOf? definitions role with
  | none => simp [ofDefinitions, hd] at h
  | some d =>
    simp only [ofDefinitions, hd, Option.elim_some] at h
    exact ⟨d, mem_of_definitionOf? hd, role_of_definitionOf? hd, h,
      RoleDefinition.withoutMarks_of_mem_agentNames h⟩

/-- An `agent` that a `role` owns is one of its agents, unless it is written with marks or the role
is defined more than once. -/
theorem mem_agentsOf_of_agentRole?
    (h : (ofDefinitions definitions).agentRole? agent = some role)
    (hmarks : withoutMarks agent = agent) (hone : definitions.countP (·.role = role) ≤ 1) :
    agent ∈ (ofDefinitions definitions).agentsOf role := by
  obtain ⟨d, hd, rfl, hm⟩ := exists_of_agentRole? h
  obtain ⟨e, he⟩ := exists_definitionOf? hd
  have heq : d = e := by
    have hd' : d ∈ definitions.filter (·.role = d.role) := List.mem_filter.2 ⟨hd, by simp⟩
    have he' : e ∈ definitions.filter (·.role = d.role) :=
      List.mem_filter.2 ⟨mem_of_definitionOf? he, by simpa using role_of_definitionOf? he⟩
    rw [List.countP_eq_length_filter] at hone
    obtain ⟨x, hx⟩ := List.length_eq_one_iff.1 (Nat.le_antisymm hone (List.length_pos_of_mem hd'))
    rw [hx, List.mem_singleton] at hd' he'
    rw [hd', he']
  rw [agentsOf_eq]
  simp only [ofDefinitions, he, Option.elim_some]
  rwa [← heq, ← hmarks]

end

end Registry

section
variable {t : HandoffTable} {definitions : List RoleDefinition} {scope command : String}

/-- A suggestion names exactly one role, which owns its agent. -/
def Handoff.OwnedBy (h : Handoff) (role : String) : Prop := h.priorityForRoles = [role]

theorem HandoffTable.ownedBy_iff {r : Registry} {h : Handoff} {role : String}
    (hm : h ∈ t.handoffs scope command r) :
    h.OwnedBy role ↔ r.agentRole? h.rule.agent = some role := by
  rw [Handoff.OwnedBy, (eq_annotate_of_mem hm).2]
  simp only [HandoffRule.annotate]
  cases r.agentRole? h.rule.agent <;> simp

/-- An agent that `scope` lists belongs to it, or to the role that forestalls it. -/
theorem Registry.owner_of_mem_agentsOf {agent : String} (hscope : scope ≠ sharedScope)
    (h : agent ∈ (Registry.ofDefinitions definitions).agentsOf scope) :
    (¬ Forestalled definitions scope agent →
      (ofDefinitions definitions).agentRole? agent = some scope) ∧
    (Forestalled definitions scope agent →
      ∃ other ≠ scope, (ofDefinitions definitions).agentRole? agent = some other) := by
  obtain ⟨d, hd, hrole, hm, hmarks⟩ := exists_of_mem_agentsOf h
  rw [← hmarks] at hm
  have hiff := agentRole?_eq_some_iff hscope ⟨d, hd, hrole, hm⟩
  rw [hmarks] at hiff
  refine ⟨hiff.2, fun hf => ?_⟩
  obtain ⟨other, hother⟩ := exists_agentRole? hd (hrole ▸ hscope) hm
  refine ⟨other, ?_, hother⟩
  rintro rfl
  exact hiff.1 hother hf

/-- How far promotion agrees with the owners. Each suggestion that is promoted for a role names that
role, unless another role lists its agent before: then it names another one. And a suggestion that
the role owns follows one that it does not own only behind such a promoted one, or where its own
agent is not listed: it is written with marks, or the role is defined again without it. -/
theorem HandoffTable.handoffs_owned (t : HandoffTable) (definitions : List RoleDefinition)
    (command : String) (hs : isOperational scope = true) :
    (∀ h ∈ t.handoffs scope command (.ofDefinitions definitions),
      h.rule.agent ∈ (Registry.ofDefinitions definitions).agentsOf scope →
        (¬ Registry.Forestalled definitions scope h.rule.agent → h.OwnedBy scope) ∧
        (Registry.Forestalled definitions scope h.rule.agent → ∃ other ≠ scope, h.OwnedBy other)) ∧
    (t.handoffs scope command (.ofDefinitions definitions)).Pairwise fun a b =>
      b.OwnedBy scope → a.OwnedBy scope ∨
        (a.rule.agent ∈ (Registry.ofDefinitions definitions).agentsOf scope ∧
          Registry.Forestalled definitions scope a.rule.agent) ∨
        (b.rule.agent ∉ (Registry.ofDefinitions definitions).agentsOf scope ∧
          (withoutMarks b.rule.agent ≠ b.rule.agent ∨
            1 < definitions.countP (·.role = scope))) := by
  have hscope : scope ≠ sharedScope := by
    rintro rfl
    exact absurd hs (by decide)
  refine ⟨fun h hm hlisted => ?_, ?_⟩
  · obtain ⟨hown, hother⟩ := Registry.owner_of_mem_agentsOf hscope hlisted
    refine ⟨fun hf => (ownedBy_iff hm).2 (hown hf), fun hf => ?_⟩
    obtain ⟨other, hne, ho⟩ := hother hf
    exact ⟨other, hne, (ownedBy_iff hm).2 ho⟩
  · refine (t.pairwise_handoffs scope command _).imp_of_mem fun {a b} ha hb hab howned => ?_
    rw [ownedBy_iff hb] at howned
    rw [ownedBy_iff ha]
    by_cases hlisted : b.rule.agent ∈ (Registry.ofDefinitions definitions).agentsOf scope
    · by_cases hf : Registry.Forestalled definitions scope a.rule.agent
      · exact .inr (.inl ⟨(hab hlisted).1, hf⟩)
      · exact .inl ((Registry.owner_of_mem_agentsOf hscope (hab hlisted).1).1 hf)
    · refine .inr (.inr ⟨hlisted, ?_⟩)
      by_contra hnone
      rw [not_or, not_not, Nat.not_lt] at hnone
      exact hlisted (Registry.mem_agentsOf_of_agentRole? howned hnone.1 hnone.2)

end

/-! ### Where they part -/

instance (h : Handoff) (role : String) : Decidable (h.OwnedBy role) :=
  inferInstanceAs (Decidable (h.priorityForRoles = [role]))

/-- Two roles that list the same agent, which belongs to the first of them. -/
def contendedTests : List RoleDefinition :=
  [⟨"qa", [], ["@qa-test"]⟩, ⟨"dev", [], ["@qa-test", "@sec-scan"]⟩]

/-- The suggestion of that agent. -/
def testHandoff : Handoff := ⟨ask "Run Tests" "qa-test" "Test the implementation above.", ["qa"]⟩

/-- A role whose second definition leaves out the agent of the first one. -/
def redefinedScan : List RoleDefinition := [⟨"dev", [], ["@sec-scan"]⟩, ⟨"dev", [], ["@dev-fix"]⟩]

/-- A table that writes an agent with a mark. -/
def markedTable : HandoffTable :=
  ⟨[], [⟨"dev", "build", [ask "Test" "qa-test" "Test.", ask "Scan" "@sec-scan" "Scan."]⟩]⟩

theorem forestalled_tests : Registry.Forestalled contendedTests "dev" "qa-test" :=
  ⟨[], _, _, rfl, by decide +kernel, by decide +kernel, by decide +kernel, by simp⟩

theorem handoffs_tests :
    HandoffTable.standard.handoffs "dev" "build" (.ofDefinitions contendedTests) =
      (HandoffTable.standard.rules "dev" "build").map
        (HandoffRule.annotate (.ofDefinitions contendedTests)) :=
  HandoffTable.handoffs_of_pairwise (by decide +kernel)

/-- The second role suggests the agent first, as one of the first role. -/
theorem HandoffTable.handoffs_owned_tests :
    isOperational "dev" = true ∧
      testHandoff ∈ HandoffTable.standard.handoffs "dev" "build" (.ofDefinitions contendedTests) ∧
      "qa-test" ∈ (Registry.ofDefinitions contendedTests).agentsOf "dev" ∧
      Registry.Forestalled contendedTests "dev" "qa-test" ∧
      ∃ other ≠ "dev", testHandoff.OwnedBy other := by
  have hs : isOperational "dev" = true := by decide +kernel
  have hm : testHandoff ∈
      HandoffTable.standard.handoffs "dev" "build" (.ofDefinitions contendedTests) := by
    rw [handoffs_tests]
    decide +kernel
  have hlisted : "qa-test" ∈ (Registry.ofDefinitions contendedTests).agentsOf "dev" := by
    decide +kernel
  exact ⟨hs, hm, hlisted, forestalled_tests,
    ((HandoffTable.handoffs_owned .standard contendedTests "build" hs).1 _ hm hlisted).2
      forestalled_tests⟩

/-- The suggestion that comes first because the role lists its agent belongs to another role, and
the role's own one follows it. A suggestion that belongs to the role also stays behind where its
agent is no longer listed, and where it is written with a mark. -/
theorem HandoffTable.handoffs_disagree :
    isOperational "dev" = true ∧
      (∃ h ∈ HandoffTable.standard.handoffs "dev" "build" (.ofDefinitions contendedTests),
        h.rule.agent ∈ (Registry.ofDefinitions contendedTests).agentsOf "dev" ∧
          ¬ h.OwnedBy "dev") ∧
      (¬ (HandoffTable.standard.handoffs "dev" "build" (.ofDefinitions contendedTests)).Pairwise
        fun a b => b.OwnedBy "dev" → a.OwnedBy "dev") ∧
      (¬ (HandoffTable.standard.handoffs "dev" "build" (.ofDefinitions redefinedScan)).Pairwise
        fun a b => b.OwnedBy "dev" → a.OwnedBy "dev") ∧
      ¬ (markedTable.handoffs "dev" "build" (.ofDefinitions [⟨"dev", [], ["@sec-scan"]⟩])).Pairwise
        fun a b => b.OwnedBy "dev" → a.OwnedBy "dev" := by
  have hredefined : HandoffTable.standard.handoffs "dev" "build" (.ofDefinitions redefinedScan) =
      (HandoffTable.standard.rules "dev" "build").map
        (HandoffRule.annotate (.ofDefinitions redefinedScan)) :=
    handoffs_of_pairwise (by decide +kernel)
  have hmarked : markedTable.handoffs "dev" "build" (.ofDefinitions [⟨"dev", [], ["@sec-scan"]⟩]) =
      (markedTable.rules "dev" "build").map
        (HandoffRule.annotate (.ofDefinitions [⟨"dev", [], ["@sec-scan"]⟩])) :=
    handoffs_of_pairwise (by decide +kernel)
  rw [handoffs_tests, hredefined, hmarked]
  decide +kernel

end AgentDocs
