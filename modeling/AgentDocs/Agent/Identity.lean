import AgentDocs.Files.PathName

/-!
# Identities

An agent is identified by a scope and a command, and named by both with a hyphen between. The name
is read back at its first hyphen, so a scope without hyphens is found again whatever the command is.

* `Identity.ofName?_name`: a name gives its identity back.
* `nameOfFile?_fileName`: a file name gives its agent name back.
-/

namespace AgentDocs

open AgentDocs.Files

/-- A scope and a command. -/
structure Identity where
  scope : String
  command : String
  deriving Repr, DecidableEq

namespace Identity

/-- The name of an agent. -/
def name (i : Identity) : String := i.scope ++ "-" ++ i.command

/-- The identity that a name stands for, with neither part empty. -/
def ofName? (name : String) : Option Identity :=
  let scope := name.toList.takeWhile (· ≠ '-')
  let command := (name.toList.dropWhile (· ≠ '-')).drop 1
  if scope.isEmpty || command.isEmpty then none
  else some ⟨String.ofList scope, String.ofList command⟩

theorem takeWhile_append_of_notMem {α : Type} [DecidableEq α] {s t : List α} {c : α} (h : c ∉ s) :
    (s ++ c :: t).takeWhile (· ≠ c) = s ∧ (s ++ c :: t).dropWhile (· ≠ c) = c :: t := by
  induction s with
  | nil => simp
  | cons d s ih =>
    have hd : d ≠ c := fun e => h (e ▸ List.mem_cons_self)
    have := ih fun m => h (List.mem_cons_of_mem _ m)
    simp only [List.cons_append, ne_eq, hd, not_false_eq_true, decide_true,
      List.takeWhile_cons_of_pos, List.dropWhile_cons_of_pos]
    exact ⟨by rw [this.1], this.2⟩

/-- `name` is read back where `i` has two parts and its scope has no dash. -/
theorem ofName?_name {i : Identity} (hs : i.scope ≠ "") (hc : i.command ≠ "")
    (h : '-' ∉ i.scope.toList) : ofName? i.name = some i := by
  have hs' : i.scope.toList ≠ [] := by simpa using hs
  have hc' : i.command.toList ≠ [] := by simpa using hc
  have hn : i.name.toList = i.scope.toList ++ '-' :: i.command.toList := by simp [name]
  obtain ⟨h1, h2⟩ := takeWhile_append_of_notMem (t := i.command.toList) h
  rw [ofName?, hn, h1, h2]
  simp [hs', hc']

end Identity

/-! ## Files of agents -/

/-- What the names of agent files end with. -/
def agentSuffix : String := ".agent.md"

/-- The name of the file of an agent. -/
def fileName (name : String) : String := name ++ agentSuffix

/-- The name of the agent that a file belongs to. -/
def nameOfFile? (file : String) : Option String :=
  let letters := file.toList
  let suffix := agentSuffix.toList
  if suffix.isSuffixOf letters && decide (suffix.length < letters.length) then
    some (String.ofList (letters.take (letters.length - suffix.length)))
  else none

/-- The path of the file of an agent in a directory. -/
def agentPath (directory : PathName) (name : String) : PathName := directory.join (fileName name)

theorem nameOfFile?_fileName {name : String} (h : name ≠ "") :
    nameOfFile? (fileName name) = some name := by
  have h' : name.toList ≠ [] := by simpa using h
  have hl : 0 < name.toList.length := List.length_pos_iff.2 h'
  simp only [nameOfFile?, fileName, String.toList_append]
  rw [if_pos]
  · simp
  · simp only [Bool.and_eq_true, List.isSuffixOf_iff_suffix, List.suffix_append, true_and,
      decide_eq_true_eq, List.length_append]
    omega

theorem text_eq_of_nameOfFile? {file name : String} (h : nameOfFile? file = some name) :
    file = fileName name := by
  simp only [nameOfFile?] at h
  split at h
  · next hs =>
    simp only [Bool.and_eq_true, List.isSuffixOf_iff_suffix] at hs
    obtain ⟨⟨before, hb⟩, -⟩ := hs
    have hn : name = String.ofList before := by
      simp only [Option.some.injEq] at h
      rw [← h, ← hb]
      simp
    apply String.toList_injective
    rw [fileName, String.toList_append, hn, String.toList_ofList, hb]
  · cases h

theorem fileName_injective {a b : String} (h : fileName a = fileName b) : a = b := by
  have ht := congrArg String.toList h
  rw [fileName, fileName, String.toList_append, String.toList_append] at ht
  exact String.toList_injective (List.append_cancel_right ht)

/-- The `file` of the agent `a` is shown as the file of no other agent. -/
theorem eq_of_text_eq_fileName {file : RawText} {a b : String} (ha : file = fileName a)
    (hb : file.text = fileName b) : a = b := by
  rw [ha, RawText.text_ofString] at hb
  exact fileName_injective hb

theorem eq_of_fileName {file : RawText} {a b : String} (ha : file = fileName a)
    (hb : file = fileName b) : a = b :=
  fileName_injective (RawText.ofString_injective (ha.symm.trans hb))

/-! ## Names of commands -/

/-- The characters of command names: small letters, digits, hyphens and underscores. -/
def isCommandCharacter (c : Char) : Bool := c.isLower || c.isDigit || c == '-' || c == '_'

/-- A text is a proper name for a command. -/
def isCommandName (name : String) : Bool :=
  !name.isEmpty && name.toList.all isCommandCharacter

end AgentDocs
