import Mathlib.Data.List.Nodup
import AgentDocs.Proofs.Files.Directory
import AgentDocs.Proofs.Template.Inventory

/-!
# From agents back to templates

The name of an agent is put together without any escape, and still it leads back to one identity:
accepted scopes have no hyphen, so the first hyphen of a name ends its scope, and the file of an
agent has one suffix more than its name, so the last one is taken off again.

An identity is made of what is shown for the names of a source. It leads back to one source as long
as no other source is shown alike, and two that are have the path of their agent in common.

* `PathName.fileName?_join`: the name at the end of the path of a file.
* `Discovery.nodup_identities_iff`: the identities of a discovery differ exactly where its sources
  are shown in different ways.
* `Discovery.agents_lead_back`: the files of agents lead back to the identities of their templates.
* `Discovery.agents_blur`: they need not lead back to one template.
-/

namespace AgentDocs

open AgentDocs.Files

/-! ## The ends of paths -/

namespace Files.PathName

/-- The name that a path ends with, unless its last step stays or goes up. -/
def fileName? (p : PathName) : Option FileName := p.steps.getLast?.bind Step.name?

theorem fileName?_join (p : PathName) (f : FileName) : (p.join f.raw).fileName? = some f := by
  rw [fileName?, steps_join, List.getLast?_concat]
  rfl

theorem fileName?_congr {p q : PathName} (h : p.steps = q.steps) : p.fileName? = q.fileName? := by
  rw [fileName?, fileName?, h]

end Files.PathName

theorem fileName?_agentPath {f : FileName} {name : String} (out : PathName)
    (hf : f.raw = fileName name) : (agentPath out name).fileName? = some f := by
  rw [agentPath, ← hf, PathName.fileName?_join]

/-! ## Templates -/

namespace Discovery

section
variable {w : Workspace} {root : PathName} {s : Settings} {d : Discovery}

/-- The identities of `d` differ exactly where no two of its sources are shown alike. -/
theorem nodup_identities_iff (h : search w root s = .ok d) :
    d.identities.Nodup ↔ ∀ x y : Source w s (s.commandsRoot root),
      ¬ x.IsPartial → ¬ y.IsPartial → x.identity = y.identity → x = y := by
  obtain ⟨found, rfl, hapart, hmem⟩ := exists_found h
  have hid : ∀ x : Source w s (s.commandsRoot root), ¬ x.IsPartial →
      x.record.identity? = some x.identity := fun x hx => by rw [x.identity?_record, if_neg hx]
  rw [(perm_identities_ofFound found).nodup_iff, List.Nodup, List.pairwise_filterMap]
  constructor
  · intro hn x y hx hy he
    by_contra hne
    have hrecord : x.record ≠ y.record := fun hr => hne (Source.eq_of_path_eq (by
      rw [← x.path_record, ← y.path_record, hr]))
    have hsymm : Std.Symm fun a b : Found => ∀ i, a.identity? = some i → ∀ j,
        b.identity? = some j → i ≠ j := ⟨fun a b hab i hi j hj => (hab j hj i hi).symm⟩
    exact hn.forall ((hmem _).2 ⟨x, rfl⟩) ((hmem _).2 ⟨y, rfl⟩) hrecord _ (hid x hx) _ (hid y hy) he
  · intro hall
    refine hapart.imp_of_mem fun {a b} ha hb hne i hi j hj hij => hne ?_
    obtain ⟨x, rfl⟩ := (hmem a).1 ha
    obtain ⟨y, rfl⟩ := (hmem b).1 hb
    rw [x.identity?_record] at hi
    rw [y.identity?_record] at hj
    split at hi
    · cases hi
    · next hx =>
      split at hj
      · cases hj
      · next hy =>
        cases hi
        cases hj
        rw [hall x y hx hy hij]

variable (h : search w root s = .ok d) (ha : s.isAccepted = true)
include h ha

theorem nodup_names_iff : (d.identities.map Identity.name).Nodup ↔ d.identities.Nodup :=
  ⟨List.Nodup.of_map _, fun hn => hn.map_on fun _ hi _ hj => eq_of_name_eq h ha hi hj⟩

/-- They have different paths in `out` as well, which do not even compare equal. -/
theorem nodup_agentPaths_iff (out : PathName) :
    (d.identities.map fun i => (agentPath out i.name).steps).Nodup ↔ d.identities.Nodup := by
  refine ⟨List.Nodup.of_map _, fun hn => hn.map_on fun i hi j hj hij => ?_⟩
  obtain ⟨f, hf⟩ := exists_fileName h hi
  obtain ⟨g, hg⟩ := exists_fileName h hj
  have hfg := PathName.fileName?_congr hij
  rw [fileName?_agentPath out hf, fileName?_agentPath out hg] at hfg
  cases hfg
  exact eq_of_name_eq h ha hi hj (eq_of_fileName hf hg)

/-- With accepted settings the templates of a project, readable or not, have different identities
exactly where no two of them are shown alike, and then different names and artifact paths too. Two
whose names are texts are not shown alike. The name of the file that such a path ends with gives the
scope and the command of its template back in any case. -/
theorem agents_lead_back :
    ((d.identities.Nodup ↔ ∀ x y : Source w s (s.commandsRoot root),
        ¬ x.IsPartial → ¬ y.IsPartial → x.identity = y.identity → x = y) ∧
      ((d.identities.map Identity.name).Nodup ↔ d.identities.Nodup) ∧
      ((d.identities.map fun i => (agentPath (s.outputRoot root) i.name).steps).Nodup ↔
        d.identities.Nodup)) ∧
    (∀ x y : Source w s (s.commandsRoot root), x.IsShown → y.IsShown →
      x.identity = y.identity → x = y) ∧
    ∀ i ∈ d.identities, ∃ f : FileName,
      (agentPath (s.outputRoot root) i.name).fileName? = some f ∧
        nameOfFile? f.text = some i.name ∧ Identity.ofName? i.name = some i := by
  refine ⟨⟨nodup_identities_iff h, nodup_names_iff h ha, nodup_agentPaths_iff h ha _⟩,
    fun _ _ => Source.eq_of_identity_eq, fun i hi => ?_⟩
  obtain ⟨f, hf⟩ := exists_fileName h hi
  have hback := ofName?_name_of_mem h ha hi
  refine ⟨f, fileName?_agentPath _ hf, ?_, hback⟩
  rw [FileName.text, hf, RawText.text_ofString]
  refine nameOfFile?_fileName ?_
  intro hempty
  rw [hempty] at hback
  cases hback

end

/-- A workspace with a template whose name has hyphens and ends like the file of an agent. -/
def suffixedWorkspace : Workspace := workspaceWith ⟨"x--y.agent.md.agent.md", by decide⟩ "text"

/-- The discovery of the template. -/
def suffixedDiscovery : Discovery where
  templates := [⟨⟨"pm", "x--y.agent.md.agent"⟩, .role,
    ⟨"./templates/commands/pm/x--y.agent.md.agent.md"⟩, "text"⟩]
  unreadable := []
  partials := []

theorem agents_lead_back_hyphens :
    Settings.standard.isAccepted = true ∧
      search suffixedWorkspace ⟨"."⟩ .standard = .ok suffixedDiscovery ∧
      ∃ f : FileName, (agentPath (Settings.standard.outputRoot ⟨"."⟩)
          "pm-x--y.agent.md.agent").fileName? = some f ∧
        nameOfFile? f.text = some "pm-x--y.agent.md.agent" ∧
        Identity.ofName? "pm-x--y.agent.md.agent" = some ⟨"pm", "x--y.agent.md.agent"⟩ := by
  have ha : Settings.standard.isAccepted = true := by decide +kernel
  have hd : search suffixedWorkspace ⟨"."⟩ .standard = .ok suffixedDiscovery := by decide +kernel
  have hi : ⟨"pm", "x--y.agent.md.agent"⟩ ∈ suffixedDiscovery.identities := List.mem_cons_self
  have hname : Identity.name ⟨"pm", "x--y.agent.md.agent"⟩ = "pm-x--y.agent.md.agent" := by decide
  have hback := (agents_lead_back hd ha).2.2 _ hi
  rw [hname] at hback
  exact ⟨ha, hd, hback⟩

/-- Two files of which neither name is a text are two templates of one identity, and with it they
have the path of their agent in common. -/
theorem agents_blur :
    Settings.standard.isAccepted = true ∧
      search lookalikeWorkspace ⟨"."⟩ .standard = .ok lookalikeDiscovery ∧
      lookalikeDiscovery.identities = [⟨"pm", "a\ufffd"⟩, ⟨"pm", "a\ufffd"⟩] ∧
      ¬ lookalikeDiscovery.identities.Nodup ∧
      ¬ (lookalikeDiscovery.identities.map fun i =>
        (agentPath (Settings.standard.outputRoot ⟨"."⟩) i.name).steps).Nodup := by
  refine ⟨by decide +kernel, search_lookalike, rfl, by decide, ?_⟩
  exact fun h => absurd (List.Nodup.of_map _ h) (by decide)

end Discovery

end AgentDocs
