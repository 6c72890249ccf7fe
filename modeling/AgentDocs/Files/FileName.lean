import AgentDocs.Files.RawText

/-!
# File names

The names of the entries of directories: raw texts that can stand as one segment of a path and then
mean an entry, not a step that stays or goes up.

* `FileName.ofRaw?_raw`: the bytes of a name give the name back.
* `FileName.raw_injective`: names differ by their bytes. Their texts need not differ.
-/

namespace AgentDocs.Files

/-- Raw text can name an entry of a directory. -/
def isFileName (raw : RawText) : Bool :=
  raw.bytes ≠ [] && raw.bytes ≠ [dot] && raw.bytes ≠ [dot, dot] && !raw.bytes.contains separator

/-- The name of an entry of a directory. -/
structure FileName where
  raw : RawText
  proper : isFileName raw = true
  deriving Repr, DecidableEq

namespace FileName

/-- The text that is shown for a name. -/
def text (name : FileName) : String := name.raw.text

/-- A name takes more bytes than the name of an entry can have. -/
def isTooLong (name : FileName) : Bool := 255 < name.raw.bytes.length

/-- The name that raw text is, if it is one. -/
def ofRaw? (raw : RawText) : Option FileName :=
  if h : isFileName raw = true then some ⟨raw, h⟩ else none

theorem ofRaw?_raw (name : FileName) : ofRaw? name.raw = some name := by
  simp [ofRaw?, name.proper]

/-- Names are told apart by their bytes, not by the text shown for them. -/
theorem raw_injective {a b : FileName} (h : a.raw = b.raw) : a = b := by
  cases a; cases b; cases h; rfl

theorem separator_notMem_bytes (name : FileName) : separator ∉ name.raw.bytes := by
  have := name.proper
  simp only [isFileName, Bool.and_eq_true, Bool.not_eq_true'] at this
  simpa using this.2

/-- No byte of `name` decodes to a slash, replaced bytes included. -/
theorem slash_notMem_text (name : FileName) : '/' ∉ name.text.toList :=
  RawText.slash_notMem_text name.separator_notMem_bytes

end FileName

end AgentDocs.Files
