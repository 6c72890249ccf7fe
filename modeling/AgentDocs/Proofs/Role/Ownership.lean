import Mathlib.Data.List.DropRight
import Mathlib.Data.List.Induction
import Mathlib.Data.List.Nodup
import Mathlib.Data.List.Sort
import AgentDocs.Proofs.Text.Bytewise
import AgentDocs.Role.Configuration

/-!
# Owners

A registry asks its definitions in order, and the first role that lists a name owns it. The registry
of a role configuration holds the definitions in increasing order of their roles, one for each role,
so there the least of the roles that list a name owns it, in whatever order the file defines them.

* `mem_byRole_iff`, `SameMapping.byRole_eq`: the definitions by role are those of the mapping.
* `isOwner_find?`: the first of the definitions in order is that of the least role.
* `definitions_of_load`: what a registry that is read from a file holds.
* `load_owners`: the owners in the registry of a file.
-/

namespace AgentDocs

open AgentDocs.Files AgentDocs.Text AgentDocs.Yaml

/-! ## Names of agents -/

theorem withoutMarks_withoutMarks (agent : String) :
    withoutMarks (withoutMarks agent) = withoutMarks agent := by
  simp [withoutMarks, List.dropWhile_idempotent]

theorem RoleDefinition.mem_agentNames_iff {d : RoleDefinition} {name : String} :
    name ∈ d.agentNames ↔
      ∃ agent ∈ d.agents, withoutMarks (trimmed agent) ≠ "" ∧
        withoutMarks (trimmed agent) = name := by
  simp only [RoleDefinition.agentNames, List.mem_filter, List.mem_map, decide_eq_true_eq]
  constructor
  · rintro ⟨⟨agent, ha, rfl⟩, hne⟩
    exact ⟨agent, ha, hne, rfl⟩
  · rintro ⟨agent, ha, hne, rfl⟩
    exact ⟨⟨agent, ha, rfl⟩, hne⟩

theorem RoleDefinition.withoutMarks_of_mem_agentNames {d : RoleDefinition} {name : String}
    (h : name ∈ d.agentNames) : withoutMarks name = name := by
  obtain ⟨agent, -, -, rfl⟩ := RoleDefinition.mem_agentNames_iff.1 h
  exact withoutMarks_withoutMarks _

theorem RoleDefinition.owns_iff {d : RoleDefinition} : d.owns = true ↔ d.role ≠ sharedScope := by
  simp [RoleDefinition.owns]

namespace Registry

/-! ## Definitions by role -/

/-- The definition that counts for a role: the last one of it. -/
def definitionOf? (definitions : List RoleDefinition) (role : String) : Option RoleDefinition :=
  definitions.reverse.find? (·.role = role)

section
variable {definitions others sorted : List RoleDefinition} {d e : RoleDefinition} {role : String}

theorem agentsOf_eq (r : Registry) (role : String) :
    r.agentsOf role = (definitionOf? r.definitions role).elim [] (·.agentNames) := by
  unfold agentsOf definitionOf?
  cases r.definitions.reverse.find? (·.role = role) <;> rfl

theorem role_of_definitionOf? (h : definitionOf? definitions role = some d) : d.role = role := by
  simpa using List.find?_some h

theorem mem_of_definitionOf? (h : definitionOf? definitions role = some d) : d ∈ definitions :=
  List.mem_reverse.1 (List.mem_of_find?_eq_some h)

theorem exists_definitionOf? (hd : d ∈ definitions) :
    ∃ e, definitionOf? definitions d.role = some e :=
  Option.isSome_iff_exists.1 (List.find?_isSome.2 ⟨d, List.mem_reverse.2 hd, by simp⟩)

theorem definitionOf?_concat (definitions : List RoleDefinition) (d : RoleDefinition)
    (role : String) :
    definitionOf? (definitions ++ [d]) role =
      if d.role = role then some d else definitionOf? definitions role := by
  by_cases h : d.role = role <;> simp [definitionOf?, h]

theorem definitionOf?_eq_some_iff (hn : (definitions.map (·.role)).Nodup) :
    definitionOf? definitions role = some d ↔ d ∈ definitions ∧ d.role = role := by
  refine ⟨fun h => ⟨mem_of_definitionOf? h, role_of_definitionOf? h⟩, ?_⟩
  rintro ⟨hd, rfl⟩
  obtain ⟨e, he⟩ := exists_definitionOf? hd
  rw [he, List.inj_on_of_nodup_map hn (mem_of_definitionOf? he) hd (role_of_definitionOf? he)]

/-- In the order of the roles, each of which is defined once. -/
def InOrder (definitions : List RoleDefinition) : Prop :=
  definitions.Pairwise fun d e => d.role < e.role

theorem InOrder.nodup_roles (hs : InOrder sorted) : (sorted.map (·.role)).Nodup :=
  List.pairwise_map.2 (hs.imp ne_of_lt)

theorem mem_insertByRole_iff (hs : InOrder sorted) :
    e ∈ insertByRole d sorted ↔ e = d ∨ e ∈ sorted ∧ e.role ≠ d.role := by
  induction sorted with
  | nil => simp [insertByRole]
  | cons a rest ih =>
    obtain ⟨ha, hrest⟩ := List.pairwise_cons.1 hs
    unfold insertByRole
    split
    · next heq =>
      have hne : ∀ e ∈ rest, e.role ≠ d.role := fun e he => heq ▸ (ha e he).ne'
      grind
    · next hne =>
      split
      · next hlt =>
        have hne' : ∀ e ∈ rest, e.role ≠ d.role := fun e he => (hlt.trans (ha e he)).ne'
        grind
      · have := ih hrest
        grind

theorem inOrder_insertByRole (hs : InOrder sorted) : InOrder (insertByRole d sorted) := by
  induction sorted with
  | nil => exact List.pairwise_singleton _ _
  | cons a rest ih =>
    obtain ⟨ha, hrest⟩ := List.pairwise_cons.1 hs
    unfold insertByRole
    split
    · next heq => exact List.pairwise_cons.2 ⟨fun e he => heq ▸ ha e he, hrest⟩
    · next hne =>
      split
      · next hlt =>
        refine List.pairwise_cons.2 ⟨fun e he => ?_, hs⟩
        rcases List.mem_cons.1 he with rfl | he
        · exact hlt
        · exact hlt.trans (ha e he)
      · next hge =>
        refine List.pairwise_cons.2 ⟨fun e he => ?_, ih hrest⟩
        rcases (mem_insertByRole_iff hrest).1 he with rfl | ⟨he, -⟩
        · exact lt_of_le_of_ne (not_lt.1 hge) (Ne.symm hne)
        · exact ha e he

theorem byRole_concat (definitions : List RoleDefinition) (d : RoleDefinition) :
    (ofDefinitions (definitions ++ [d])).byRole =
      insertByRole d (ofDefinitions definitions).byRole := by
  simp [ofDefinitions, byRole]

theorem inOrder_byRole (definitions : List RoleDefinition) :
    InOrder (ofDefinitions definitions).byRole := by
  induction definitions using List.reverseRecOn with
  | nil => exact List.Pairwise.nil
  | append_singleton definitions d ih =>
    rw [byRole_concat]
    exact inOrder_insertByRole ih

/-- In `byRole` there stand the definitions that count. -/
theorem mem_byRole_iff : d ∈ (ofDefinitions definitions).byRole ↔
    definitionOf? definitions d.role = some d := by
  induction definitions using List.reverseRecOn with
  | nil => simp [ofDefinitions, byRole, definitionOf?]
  | append_singleton definitions e ih =>
    rw [byRole_concat, mem_insertByRole_iff (inOrder_byRole definitions), ih, definitionOf?_concat]
    by_cases h : e.role = d.role
    · simp only [h, ne_eq, not_true_eq_false, and_false, or_false, if_true, Option.some.injEq]
      exact eq_comm
    · simp [h, Ne.symm h, show d ≠ e by rintro rfl; exact h rfl]

/-- A `role` has the same definition in `byRole`. -/
theorem definitionOf?_byRole (definitions : List RoleDefinition) (role : String) :
    definitionOf? (ofDefinitions definitions).byRole role = definitionOf? definitions role := by
  ext d
  rw [definitionOf?_eq_some_iff (inOrder_byRole definitions).nodup_roles, mem_byRole_iff]
  constructor
  · rintro ⟨h, rfl⟩
    exact h
  · intro h
    obtain rfl := role_of_definitionOf? h
    exact ⟨h, rfl⟩

/-! ### Mappings of roles -/

/-- Definitions that make the same mapping of roles: they may stand in different orders, and those
that do not count may differ. -/
def SameMapping (definitions others : List RoleDefinition) : Prop :=
  ∀ role, definitionOf? definitions role = definitionOf? others role

theorem sameMapping_of_perm (hp : definitions.Perm others)
    (hn : (definitions.map (·.role)).Nodup) : SameMapping definitions others := by
  intro role
  ext d
  rw [definitionOf?_eq_some_iff hn, definitionOf?_eq_some_iff ((hp.map _).nodup_iff.1 hn),
    hp.mem_iff]

theorem SameMapping.byRole_eq (h : SameMapping definitions others) :
    (ofDefinitions definitions).byRole = (ofDefinitions others).byRole := by
  have hmem : ∀ d, d ∈ (ofDefinitions definitions).byRole ↔ d ∈ (ofDefinitions others).byRole :=
    fun d => by rw [mem_byRole_iff, mem_byRole_iff, h]
  have hperm := (List.perm_ext_iff_of_nodup (inOrder_byRole definitions).nodup_roles.of_map
    (inOrder_byRole others).nodup_roles.of_map).2 hmem
  exact hperm.eq_of_pairwise (fun d e _ _ hde hed => absurd hde (lt_asymm hed))
    (inOrder_byRole definitions) (inOrder_byRole others)

end

/-! ## The least claimant -/

/-- The owner of a name that some roles claim: the role among them that is least by its bytes, or
none where no role claims it. -/
def IsOwner (claims : String → Prop) : Option String → Prop
  | some role => claims role ∧ ∀ other, claims other → bytes role ≤ bytes other
  | none => ∀ role, ¬ claims role

section
variable {definitions sorted : List RoleDefinition}

theorem IsOwner.congr {claims claims' : String → Prop} {owner : Option String}
    (h : IsOwner claims owner) (hc : ∀ role, claims role ↔ claims' role) :
    IsOwner claims' owner := by
  rwa [show claims' = claims from funext fun role => propext (hc role).symm]

theorem isOwner_find? (hs : InOrder sorted) (p : RoleDefinition → Bool) :
    IsOwner (fun role => ∃ d ∈ sorted, d.role = role ∧ p d = true)
      ((sorted.find? p).map (·.role)) := by
  induction sorted with
  | nil => simp [IsOwner]
  | cons a rest ih =>
    obtain ⟨ha, hrest⟩ := List.pairwise_cons.1 hs
    by_cases hp : p a = true
    · rw [List.find?_cons_of_pos hp]
      refine ⟨⟨a, List.mem_cons_self, rfl, hp⟩, ?_⟩
      rintro _ ⟨d, hd, rfl, -⟩
      rcases List.mem_cons.1 hd with rfl | hd
      · exact bytes_le_iff.2 le_rfl
      · exact bytes_le_iff.2 (ha d hd).le
    · rw [List.find?_cons_of_neg hp]
      exact (ih hrest).congr fun role => by simp [hp]

/-- A role other than the shared scope lists a command. -/
def ListsCommand (definitions : List RoleDefinition) (command role : String) : Prop :=
  role ≠ sharedScope ∧ ∃ d, definitionOf? definitions role = some d ∧ command ∈ d.commands

/-- A role other than the shared scope lists an agent, which may be given with marks: trimmed and
without marks one of its entries is the name of the agent, and not empty. -/
def ListsAgent (definitions : List RoleDefinition) (agent role : String) : Prop :=
  role ≠ sharedScope ∧ ∃ d, definitionOf? definitions role = some d ∧
    ∃ entry ∈ d.agents, withoutMarks (trimmed entry) ≠ "" ∧
      withoutMarks (trimmed entry) = withoutMarks agent

/-- The claims to a name, by a test `p` of the definitions. -/
theorem claims_byRole_iff {p : RoleDefinition → Bool} {role : String} :
    (∃ d ∈ (ofDefinitions definitions).byRole, d.role = role ∧ (d.owns && p d) = true) ↔
      role ≠ sharedScope ∧ ∃ d, definitionOf? definitions role = some d ∧ p d = true := by
  constructor
  · rintro ⟨d, hd, rfl, hp⟩
    obtain ⟨hown, hp⟩ := Bool.and_eq_true_iff.1 hp
    exact ⟨RoleDefinition.owns_iff.1 hown, d, mem_byRole_iff.1 hd, hp⟩
  · rintro ⟨hne, d, hd, hp⟩
    obtain rfl := role_of_definitionOf? hd
    exact ⟨d, mem_byRole_iff.2 hd, rfl, Bool.and_eq_true_iff.2 ⟨RoleDefinition.owns_iff.2 hne, hp⟩⟩

theorem isOwner_commandRole? {r : Registry}
    (hr : r.definitions = (ofDefinitions definitions).byRole) (command : String) :
    IsOwner (ListsCommand definitions command) (r.commandRole? command) := by
  unfold commandRole?
  rw [hr]
  refine (isOwner_find? (inOrder_byRole definitions) _).congr fun role => ?_
  rw [claims_byRole_iff]
  simp only [ListsCommand, List.contains_iff_mem]

theorem isOwner_agentRole? {r : Registry}
    (hr : r.definitions = (ofDefinitions definitions).byRole) (agent : String) :
    IsOwner (ListsAgent definitions agent) (r.agentRole? agent) := by
  unfold agentRole?
  rw [hr]
  refine (isOwner_find? (inOrder_byRole definitions) _).congr fun role => ?_
  rw [claims_byRole_iff]
  simp only [ListsAgent, List.contains_iff_mem, RoleDefinition.mem_agentNames_iff]

theorem IsOwner.ne_sharedScope {claims : String → Prop} {owner : Option String}
    (h : IsOwner claims owner) (hc : ∀ role, claims role → role ≠ sharedScope) :
    owner ≠ some sharedScope := by
  rintro rfl
  exact hc _ h.1 rfl

end

/-! ## Files -/

/-- The definitions that a node gives, in their order. -/
def writtenOfNode (d : Document) (n : Node) : Reading (List RoleDefinition) := do
  (← d.pairs n).mapM fun (role, n) => RoleDefinition.ofNode d role n

/-- The definitions in what a file says about roles, in their order. -/
def writtenOfSection (d : Document) (n : Node) : Reading (List RoleDefinition) := do
  let fields ← d.record ["primary", "show_all_commands", "definitions"] n
  Document.field fields "definitions" (writtenOfNode d) []

/-- The definitions in a document, in their order. -/
def writtenOfRoot (d : Document) (n : Node) : Reading (List RoleDefinition) := do
  let fields ← d.record ["roles"] n
  Document.field fields "roles" (writtenOfSection d) []

/-- The definitions in a text, in their order. -/
def writtenIn (text : String) : Except Fault (List RoleDefinition) :=
  if (trim text.toList).isEmpty then .ok [] else Document.readText text writtenOfRoot

/-- The file at a path defines roles, in this order. A file that does not exist defines none. -/
def Defines (w : Workspace) (path : PathName) (definitions : List RoleDefinition) : Prop :=
  if w.leads path then
    ∃ text, w.readText path = .ok text ∧ writtenIn text = .ok definitions
  else definitions = []

/-- Where `x` reads a registry, `y` reads definitions, and the registry gathers them by role. -/
def Gathers (x : Reading Registry) (y : Reading (List RoleDefinition)) : Prop :=
  ∀ s r s', x s = .ok (r, s') →
    ∃ definitions s'', y s = .ok (definitions, s'') ∧
      r.definitions = (ofDefinitions definitions).byRole

section
variable {α β : Type}

theorem exists_of_bind_eq_ok {x : Reading α} {f : α → Reading β} {s s'' : Nat} {b : β}
    (h : (x >>= f) s = .ok (b, s'')) : ∃ a s', x s = .ok (a, s') ∧ f a s' = .ok (b, s'') := by
  change (x s >>= fun p => f p.1 p.2) = _ at h
  cases hx : x s with
  | error e => rw [hx] at h; cases h
  | ok p => rw [hx] at h; exact ⟨p.1, p.2, rfl, h⟩

theorem bind_of_ok {x : Reading α} {f : α → Reading β} {s s' : Nat} {a : α}
    (h : x s = .ok (a, s')) : (x >>= f) s = f a s' := by
  change (x s >>= fun p => f p.1 p.2) = _
  rw [h]
  rfl

theorem readText_eq_ok_iff {text : String} {read : Document → Node → Reading α} {a : α} :
    Document.readText text read = .ok a ↔
      ∃ d s, Document.ofText text.toList = .ok d ∧ read d d.root d.aliasLimit = .ok (a, s) := by
  unfold Document.readText
  cases Document.ofText text.toList with
  | error e => exact iff_of_false nofun fun ⟨_, _, h, _⟩ => nomatch h
  | ok d =>
    simp only [Except.ok.injEq, exists_and_left, exists_eq_left']
    change (Prod.fst <$> read d d.root d.aliasLimit) = .ok a ↔ _
    cases read d d.root d.aliasLimit with
    | error e => exact iff_of_false nofun fun ⟨_, h⟩ => nomatch h
    | ok p =>
      simp only [Except.map_ok, Except.ok.injEq]
      exact ⟨fun h => ⟨p.2, by rw [← h]⟩, fun ⟨_, h⟩ => by rw [h]⟩

theorem Gathers.bind {x : Reading α} {f : α → Reading Registry}
    {g : α → Reading (List RoleDefinition)} (h : ∀ a, Gathers (f a) (g a)) :
    Gathers (x >>= f) (x >>= g) := by
  intro s r s' hr
  obtain ⟨a, s₁, hx, hf⟩ := exists_of_bind_eq_ok hr
  rw [bind_of_ok hx]
  exact h a _ _ _ hf

theorem Gathers.field {fields : List (String × Node)} {name : String} {x : Node → Reading Registry}
    {y : Node → Reading (List RoleDefinition)} (h : ∀ n, Gathers (x n) (y n)) :
    Gathers (Document.field fields name x empty) (Document.field fields name y []) := by
  unfold Document.field
  split
  · exact h _
  · rintro s r s' hr
    cases hr
    exact ⟨[], s, rfl, rfl⟩

end

section
variable {d : Document} {definitions : List RoleDefinition}

theorem definitionsOfNode_eq (d : Document) (n : Node) :
    definitionsOfNode d n = do
      let definitions ← writtenOfNode d n
      return (ofDefinitions definitions).byRole := by
  simp [definitionsOfNode, writtenOfNode]

theorem gathers_sectionOfNode (n : Node) : Gathers (sectionOfNode d n) (writtenOfSection d n) := by
  refine Gathers.bind fun fields => ?_
  intro s r s' hr
  -- The definitions are read first, so what follows them has no part in their reading.
  obtain ⟨sorted, s₁, hsorted, hrest⟩ := exists_of_bind_eq_ok hr
  obtain ⟨primary, s₂, -, hrest⟩ := exists_of_bind_eq_ok hrest
  obtain ⟨showAll, s₃, -, hrest⟩ := exists_of_bind_eq_ok hrest
  cases hrest
  unfold Document.field at hsorted ⊢
  cases hf : fields.lookup "definitions" with
  | none =>
    rw [hf] at hsorted
    cases hsorted
    exact ⟨[], s, rfl, rfl⟩
  | some n =>
    simp only [hf, definitionsOfNode_eq] at hsorted
    obtain ⟨definitions, s₄, hwritten, hpure⟩ := exists_of_bind_eq_ok hsorted
    cases hpure
    exact ⟨definitions, _, hwritten, rfl⟩

theorem gathers_ofNode (n : Node) : Gathers (ofNode d n) (writtenOfRoot d n) :=
  Gathers.bind fun _ => Gathers.field gathers_sectionOfNode

theorem definitions_of_ofText {text : String} {r : Registry} (h : ofText text = .ok r) :
    ∃ definitions, writtenIn text = .ok definitions ∧
      r.definitions = (ofDefinitions definitions).byRole := by
  unfold ofText at h
  unfold writtenIn
  by_cases hblank : (trim text.toList).isEmpty = true
  · rw [if_pos hblank] at h
    cases h
    exact ⟨[], if_pos hblank, rfl⟩
  · rw [if_neg hblank, readText_eq_ok_iff] at h
    obtain ⟨d, s, hd, hr⟩ := h
    obtain ⟨definitions, s', hw, heq⟩ := gathers_ofNode d.root _ _ _ hr
    exact ⟨definitions, by rw [if_neg hblank, readText_eq_ok_iff]; exact ⟨d, s', hd, hw⟩, heq⟩

/-- The registry of a file holds the definitions of the file by role. -/
theorem definitions_of_load {w : Workspace} {path : PathName} {r : Registry}
    (h : load w path = .ok r) :
    ∃ definitions, Defines w path definitions ∧
      r.definitions = (ofDefinitions definitions).byRole := by
  unfold load at h
  unfold Defines
  cases hl : w.leads path with
  | false =>
    rw [hl] at h
    cases h
    exact ⟨[], rfl, rfl⟩
  | true =>
    rw [hl] at h
    cases ht : w.readText path with
    | error e => simp [ht] at h
    | ok text =>
      cases ho : ofText text with
      | error fault => simp [ht, ho, Except.mapError] at h
      | ok r' =>
        simp [ht, ho, Except.mapError] at h
        obtain rfl := h
        obtain ⟨definitions, hw, heq⟩ := definitions_of_ofText ho
        exact ⟨definitions, ⟨text, rfl, hw⟩, heq⟩

theorem Defines.unique {w : Workspace} {path : PathName} {others : List RoleDefinition}
    (h : Defines w path definitions) (h' : Defines w path others) : definitions = others := by
  unfold Defines at h h'
  split at h
  · next hl =>
    rw [if_pos hl] at h'
    obtain ⟨text, ht, hw⟩ := h
    obtain ⟨text', ht', hw'⟩ := h'
    rw [ht] at ht'
    cases ht'
    rw [hw] at hw'
    exact Except.ok.inj hw'
  · next hl =>
    rw [if_neg hl] at h'
    rw [h, h']

end

/-- In the registry of a file each command and each agent belongs to the role that is least by its
bytes among those that list it, apart from the shared scope, and the agents of a role are those of
its definition. The order of the definitions in the file does not matter. -/
theorem load_owners {w : Workspace} {path : PathName} {r : Registry} (h : load w path = .ok r) :
    ∃ definitions, Defines w path definitions ∧
      (∀ command, IsOwner (ListsCommand definitions command) (r.commandRole? command)) ∧
      (∀ agent, IsOwner (ListsAgent definitions agent) (r.agentRole? agent)) ∧
      (∀ role, r.agentsOf role = (definitionOf? definitions role).elim [] fun d =>
        (d.agents.map fun entry => withoutMarks (trimmed entry)).filter (· ≠ "")) ∧
      (∀ name, r.commandRole? name ≠ some sharedScope ∧ r.agentRole? name ≠ some sharedScope) ∧
      ∀ w' path' r' others, load w' path' = .ok r' → Defines w' path' others →
        SameMapping definitions others →
          (∀ command, r'.commandRole? command = r.commandRole? command) ∧
          (∀ agent, r'.agentRole? agent = r.agentRole? agent) ∧
          ∀ role, r'.agentsOf role = r.agentsOf role := by
  obtain ⟨definitions, hdefines, hr⟩ := definitions_of_load h
  refine ⟨definitions, hdefines, isOwner_commandRole? hr, isOwner_agentRole? hr, fun role => ?_,
    fun name => ⟨?_, ?_⟩, fun w' path' r' others h' hothers hsame => ?_⟩
  · rw [agentsOf_eq, hr, definitionOf?_byRole]
    rfl
  · exact (isOwner_commandRole? hr name).ne_sharedScope fun role hc => hc.1
  · exact (isOwner_agentRole? hr name).ne_sharedScope fun role hc => hc.1
  · obtain ⟨others', hdefines', hr'⟩ := definitions_of_load h'
    obtain rfl := hdefines'.unique hothers
    have heq : r'.definitions = r.definitions := by rw [hr', hr, hsame.byRole_eq]
    refine ⟨fun command => ?_, fun agent => ?_, fun role => ?_⟩
    · rw [commandRole?, commandRole?, heq]
    · rw [agentRole?, agentRole?, heq]
    · rw [agentsOf_eq, agentsOf_eq, heq]

/-! ## Contended names -/

/-- The name of a role configuration. -/
def rolesFile : FileName := ⟨"roles.yml", by decide⟩

/-- The workspace of a role configuration with a text. -/
def rolesWorkspace (text : String) : Workspace where
  tree := FileTree.empty.insert [rolesFile] (.file text.toUTF8)
  start := []
  sealed := []

/-- Two roles that list the same command and, written in different ways, the same agent. -/
def contendedText : String :=
  "roles: \x7bdefinitions: \x7bqa: \x7bcommands: [c], agents: ['@@x ']\x7d, " ++
    "ops: \x7bcommands: [c], agents: [x]\x7d\x7d\x7d"

/-- The same mapping with its roles in the other order, and a primary role. -/
def reorderedText : String :=
  "roles: \x7bprimary: qa, definitions: \x7bops: \x7bcommands: [c], agents: [x]\x7d, " ++
    "qa: \x7bcommands: [c], agents: ['@@x ']\x7d\x7d\x7d"

/-- The definitions in the first text. -/
def contendedDefinitions : List RoleDefinition := [⟨"qa", ["c"], ["@@x "]⟩, ⟨"ops", ["c"], ["x"]⟩]

/-- The registries of the two texts. -/
def contendedRegistry (primary : Option String) : Registry :=
  ⟨contendedDefinitions.reverse, primary, false⟩

theorem defines_contended :
    Defines (rolesWorkspace contendedText) ⟨"roles.yml"⟩ contendedDefinitions := by
  unfold Defines
  rw [if_pos (by decide +kernel)]
  exact ⟨contendedText, by decide +kernel, by decide +kernel⟩

theorem defines_reordered :
    Defines (rolesWorkspace reorderedText) ⟨"roles.yml"⟩ contendedDefinitions.reverse := by
  unfold Defines
  rw [if_pos (by decide +kernel)]
  exact ⟨reorderedText, by decide +kernel, by decide +kernel⟩

/-- The least role owns both names, and the order of the roles does not matter. -/
theorem load_owners_contended :
    load (rolesWorkspace contendedText) ⟨"roles.yml"⟩ = .ok (contendedRegistry none) ∧
      load (rolesWorkspace reorderedText) ⟨"roles.yml"⟩ = .ok (contendedRegistry "qa") ∧
      SameMapping contendedDefinitions contendedDefinitions.reverse ∧
      IsOwner (ListsCommand contendedDefinitions "c") (some "ops") ∧
      IsOwner (ListsAgent contendedDefinitions "@x") (some "ops") ∧
      (contendedRegistry "qa").agentRole? "@x" = some "ops" ∧
      (contendedRegistry "qa").agentsOf "qa" = ["x"] := by
  have hload :
      load (rolesWorkspace contendedText) ⟨"roles.yml"⟩ = .ok (contendedRegistry none) := by
    decide +kernel
  have hreordered :
      load (rolesWorkspace reorderedText) ⟨"roles.yml"⟩ = .ok (contendedRegistry "qa") := by
    decide +kernel
  have hmapping : SameMapping contendedDefinitions contendedDefinitions.reverse :=
    sameMapping_of_perm (List.reverse_perm _).symm (by decide)
  have hc : (contendedRegistry none).commandRole? "c" = some "ops" := by decide +kernel
  have ha : (contendedRegistry none).agentRole? "@x" = some "ops" := by decide +kernel
  obtain ⟨definitions, hd, hcommand, hagent, hagents, -, hsame⟩ := load_owners hload
  obtain rfl := hd.unique defines_contended
  have hlookups := hsame _ _ _ _ hreordered defines_reordered hmapping
  refine ⟨hload, hreordered, hmapping, hc ▸ hcommand "c", ha ▸ hagent "@x", ?_, ?_⟩
  · rw [hlookups.2.1, ha]
  · rw [hlookups.2.2, hagents]
    decide +kernel

end Registry

end AgentDocs
