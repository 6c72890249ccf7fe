import AgentDocs.Agent.Handoff.Standard
import AgentDocs.Proofs.Template.Delimited
import AgentDocs.Proofs.Yaml.Inert

/-!
# Headers that stay closed

The header of an agent stands between two delimiter lines. Nothing that a template gives can break
out of it: no line of the header delimits, whatever the description holds, and the header has no
carriage return that normalization could turn into a line. Reading the document back therefore gives
the header and the body again, unless the header does not end its own last line and takes the
delimiter behind it in.

That happens where the last suggestion names a role whose name is written as a literal that ends
with a separator.

* `AgentHeader.inertLines_content`, `isDelimiter_of_mem_lines`: the lines of headers.
* `AgentHeader.endsLine_content_make_iff`: the headers that end their last line.
* `AgentDocument.split_render_iff`: the documents that are read back.
-/

namespace AgentDocs

open AgentDocs.Template AgentDocs.Text AgentDocs.Yaml

/-! ## The lines of headers -/

theorem isDelimiter_of_mem_lines {text line : List Char} (h : InertLines text)
    (hl : line ∈ lines text) : isDelimiter line = false := by
  obtain ⟨above, below, hsplit⟩ := List.append_of_mem hl
  have htext : text = above.flatten ++ (line ++ below.flatten) := by
    rw [← flatten_lines text, hsplit, List.flatten_append, List.flatten_cons]
  have hbegins : Begins (line ++ below.flatten) := by
    rcases (lines_flatten_of_lines_eq [] hsplit (by simp)).2 with hnil | hends
    · rw [hnil, List.nil_append] at htext
      exact htext ▸ h.begins
    · obtain ⟨front, hfront⟩ := List.getLast?_eq_some_iff.1 hends
      exact h.begins_after front _ (by rw [htext, hfront, List.append_assoc]; rfl)
  rw [Bool.eq_false_iff]
  intro hd
  obtain ⟨ends, rfl, -⟩ := isDelimiter_iff.1 hd
  obtain ⟨c, hc, hne⟩ := hbegins (by simp [delimiter])
  simp [delimiter] at hc
  exact hne hc

namespace AgentHeader

theorem inertLines_handoffFields (x : Handoff) : ∀ field ∈ handoffFields x, InertLines field := by
  simp only [handoffFields, List.forall_mem_append, List.forall_mem_cons]
  refine ⟨⟨inertLines_textField (by decide +kernel) _ _,
    inertLines_textField (by decide +kernel) _ _, inertLines_textField (by decide +kernel) _ _,
    inertLines_flagField (by decide +kernel) _, List.forall_mem_nil _⟩, ?_⟩
  split
  · exact List.forall_mem_nil _
  · exact List.forall_mem_singleton.2 (inertLines_listField (by decide +kernel) _ _)

theorem inertLines_handoffs (handoffs : List Handoff) :
    InertLines ("handoffs:\n".toList ++
      handoffs.flatMap fun x => itemFields 0 (handoffFields x)) := by
  have hlabel : InertLines "handoffs:\n".toList :=
    IsLabel.before (a := "handoffs:".toList) (by decide +kernel) inert_feed (by decide +kernel)
  exact hlabel.append
    (inertLines_flatMap fun x _ => inertLines_itemFields (inertLines_handoffFields x) 0)

theorem inertLines_fields (h : AgentHeader) : ∀ field ∈ h.fields, InertLines field := by
  simp only [fields, List.forall_mem_append, List.forall_mem_cons]
  refine ⟨⟨⟨⟨⟨inertLines_textField (by decide +kernel) _ _,
    inertLines_textField (by decide +kernel) _ _, inertLines_textField (by decide +kernel) _ _,
    inertLines_listField (by decide +kernel) _ _, List.forall_mem_nil _⟩, ?_⟩, ?_⟩, ?_⟩, ?_⟩
  · exact List.forall_mem_map.2 fun role _ => inertLines_textField (by decide +kernel) _ _
  · split
    · exact List.forall_mem_nil _
    · exact List.forall_mem_singleton.2 (inertLines_listField (by decide +kernel) _ _)
  · split
    · exact List.forall_mem_singleton.2 (inertLines_flagField (by decide +kernel) _)
    · exact List.forall_mem_nil _
  · split
    · exact List.forall_mem_nil _
    · exact List.forall_mem_singleton.2 (inertLines_handoffs _)

theorem inertLines_content (h : AgentHeader) : InertLines h.content :=
  inertLines_flatten h.inertLines_fields

theorem carriageReturn_notMem_content (h : AgentHeader) : '\r' ∉ h.content := fun hm => by
  cases h.inertLines_content.printable _ hm

theorem content_ne_nil (h : AgentHeader) : h.content ≠ [] := by
  have hname : textField 0 "name" h.name ≠ [] :=
    List.append_ne_nil_of_right_ne_nil _ (List.cons_ne_nil _ _)
  exact List.flatten_ne_nil_iff.2 ⟨_, List.mem_append_left _ (by simp), hname⟩

/-! ## The end of a header -/

/-- The last line of a header is not ended: its last suggestion names a role so. -/
def RunsOn (h : AgentHeader) : Prop :=
  ∃ x ∈ h.handoffs.getLast?, ∃ role ∈ x.priorityForRoles.getLast?, EndsInSeparator role.toList

theorem endsLine_itemFields_iff (indent : Nat) (first last : List Char)
    (rest : List (List Char)) :
    EndsLine (itemFields indent (first :: (rest ++ [last]))) ↔ EndsLine last := by
  rw [itemFields, List.flatMap_append, List.flatMap_singleton, ← List.append_assoc,
    endsLine_append_iff (by simp [spaces]), (onOneLine_spaces _).endsLine_append_iff]

/-- The lines of the suggestion `x` end as the names of its roles do. -/
theorem endsLine_item_iff (x : Handoff) :
    EndsLine (itemFields 0 (handoffFields x)) ↔
      ∀ role ∈ x.priorityForRoles.getLast?, ¬ EndsInSeparator role.toList := by
  unfold handoffFields
  split
  · next hnone =>
    rw [List.isEmpty_iff] at hnone
    rw [hnone]
    exact iff_of_true ((endsLine_itemFields_iff 0 _ _ [_, _]).2 (endsLine_flagField _ _)) nofun
  · exact (endsLine_itemFields_iff 0 _ _ [_, _, _]).trans (endsLine_listField_iff ..)

theorem endsLine_content_make_nil (i : Identity) (description : String) :
    EndsLine (make i description []).content := by
  have hlist : ∀ name values last, values.getLast? = some last → '\n' ∉ last.toList →
      EndsLine (listField 0 name values) := by
    intro name values last hl hn
    rw [endsLine_listField_iff, hl]
    rintro _ ⟨⟩ hs
    exact hn hs.multiline
  cases hop : isOperational i.scope with
  | true =>
    cases hp : isPrimary i.scope i.command with
    | true =>
      simp only [content, fields, make, hop, hp, Bool.and_self, if_true, List.isEmpty_nil,
        List.append_nil, List.flatten_append, List.flatten_singleton]
      exact (endsLine_flagField _ _).append_left _
    | false =>
      simp only [content, fields, make, hop, hp, Bool.and_false, Bool.false_eq_true, if_true,
        if_false, List.isEmpty_cons, List.isEmpty_nil, List.append_nil, List.flatten_append,
        List.flatten_singleton]
      exact (hlist _ _ sharedScope rfl (by decide +kernel)).append_left _
  | false =>
    simp only [content, fields, make, hop, Bool.false_and, Bool.false_eq_true, if_true, if_false,
      List.isEmpty_nil, List.append_nil, Option.toList_none, List.map_nil, List.flatten_cons,
      List.flatten_nil]
    have htools := hlist "tools" namespacedTools "mcp__backlog__*" rfl (by decide +kernel)
    exact ((htools.append_left _).append_left _).append_left _

theorem endsLine_content_make_iff (i : Identity) (description : String) (handoffs : List Handoff) :
    EndsLine (make i description handoffs).content ↔ ¬ (make i description handoffs).RunsOn := by
  rcases List.eq_nil_or_concat handoffs with rfl | ⟨front, last, rfl⟩
  · exact iff_of_true (endsLine_content_make_nil i description) fun ⟨x, hx, _⟩ => nomatch hx
  · rw [List.concat_eq_append]
    have hitem : itemFields 0 (handoffFields last) ≠ [] := by
      simp [handoffFields, itemFields]
    have hsome : (front ++ [last]).isEmpty = false := by simp
    have hends : EndsLine (make i description (front ++ [last])).content ↔
        EndsLine (itemFields 0 (handoffFields last)) := by
      simp only [content, fields, make, hsome, Bool.false_eq_true, if_false, List.flatten_append,
        List.flatten_singleton, List.flatMap_append, List.flatMap_singleton, ← List.append_assoc]
      exact endsLine_append_iff hitem
    rw [hends, endsLine_item_iff, RunsOn]
    simp [make]

/-! ## Reading back -/

/-- A header `h` with a body behind it is read back where it ends its last line. -/
theorem split_render_append_iff (h : AgentHeader) (body : List Char) :
    split (h.render ++ body) = ⟨some h.content, body⟩ ↔ EndsLine h.content := by
  have hline : IsDelimiterLine delimiterLine := ⟨by decide, by decide⟩
  have hends : EndsLine delimiterLine := rfl
  rw [split_eq_some_iff]
  constructor
  · rintro ⟨opening, closing, hd⟩
    exact hd.header_ends.resolve_left h.content_ne_nil
  · intro he
    exact ⟨delimiterLine, delimiterLine, rfl, hline, hends, .inr he,
      fun line hl => isDelimiter_of_mem_lines h.inertLines_content hl, hline, .inl hends⟩

/-- Normalizing the line breaks of a document changes nothing but its body. -/
theorem normalizeBreaks_render_append (h : AgentHeader) (body : List Char) :
    normalizeBreaks (h.render ++ body) = h.render ++ normalizeBreaks body := by
  refine normalizeBreaks_append ?_ body
  have hline : '\r' ∉ delimiterLine := by decide
  simp [render, hline, h.carriageReturn_notMem_content]

theorem normalizeBreaks_content (h : AgentHeader) : normalizeBreaks h.content = h.content :=
  normalizeBreaks_of_notMem h.carriageReturn_notMem_content

end AgentHeader

/-! ## Documents -/

theorem HandoffTable.exists_owner {t : HandoffTable} {r : Registry} {scope command role : String}
    {x : Handoff} (hx : x ∈ t.handoffs scope command r) (hrole : role ∈ x.priorityForRoles) :
    ∃ d ∈ r.definitions, d.owns = true ∧ d.role = role := by
  have hmem : x ∈ (t.rules scope command).map (HandoffRule.annotate r) := by
    unfold HandoffTable.handoffs at hx
    dsimp only at hx
    split at hx
    · exact hx
    · exact (perm_promote _ _).mem_iff.1 hx
  obtain ⟨rule, -, rfl⟩ := List.mem_map.1 hmem
  obtain ⟨d, hd, rfl⟩ := Option.map_eq_some_iff.1 (Option.mem_toList.1 hrole)
  have howns := List.find?_some hd
  rw [Bool.and_eq_true] at howns
  exact ⟨d, List.mem_of_find?_eq_some hd, howns.1, rfl⟩

namespace AgentDocument

/-- A document is read back as its header and its body, before and after its line breaks are
normalized, exactly where the header ends its last line. What the template describes has no say in
it, and where no role that owns something has a name that ends in a separator, every document is
read back. -/
theorem split_render_iff (t : HandoffTable) (r : Registry) (i : Identity) (expanded : List Char) :
    let d := compile t r i expanded
    (split d.render = ⟨some d.header.content, d.body⟩ ↔ ¬ d.header.RunsOn) ∧
      (split (normalizeBreaks d.render) =
        ⟨some (normalizeBreaks d.header.content), normalizeBreaks d.body⟩ ↔ ¬ d.header.RunsOn) ∧
      (d.header.RunsOn →
        ∃ x ∈ r.definitions, x.owns = true ∧ EndsInSeparator x.role.toList) := by
  intro d
  have hends : EndsLine d.header.content ↔ ¬ d.header.RunsOn :=
    AgentHeader.endsLine_content_make_iff ..
  refine ⟨?_, ?_, ?_⟩
  · rw [render, AgentHeader.split_render_append_iff, hends]
  · rw [render, AgentHeader.normalizeBreaks_render_append, AgentHeader.normalizeBreaks_content,
      AgentHeader.split_render_append_iff, hends]
  · rintro ⟨x, hx, role, hrole, hsep⟩
    obtain ⟨definition, hmem, howns, rfl⟩ :=
      HandoffTable.exists_owner (List.mem_of_getLast? hx) (List.mem_of_getLast? hrole)
    exact ⟨definition, hmem, howns, hsep⟩

/-- A description of three lines, the middle one of them a delimiter, with a carriage return. -/
example :
    let d := compile .standard .empty ⟨"pm", "x"⟩
      "---\ndescription: \"a\\n---\\nb\\r\"\n---\ntext".toList
    d.header.description = "a\n---\nb\r" ∧
      split d.render = ⟨some d.header.content, "text".toList⟩ := by
  decide +kernel

/-- A registry in which the name of a role ends in a separator of lines. -/
def separated : Registry := .ofDefinitions [⟨"a\nb\u2028", [], ["@dev-build"]⟩]

theorem split_render_separated :
    let d := compile .standard separated ⟨"dev", "debug"⟩ []
    split d.render = ⟨none, d.render⟩ ∧
      split (normalizeBreaks d.render) = ⟨none, normalizeBreaks d.render⟩ := by
  decide +kernel

end AgentDocument

end AgentDocs
