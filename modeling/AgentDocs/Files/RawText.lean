import AgentDocs.Text.Bytes

/-!
# Raw texts

Names of files, targets of links and words of a command line are bytes. Nearly all of them are the
UTF-8 form of a text, and then nothing is lost when they are shown; others are shown with losses,
and two of them can look the same.

* `RawText.text_ofString`: the UTF-8 form of a text shows the text.
* `RawText.text?_eq_some_iff`: raw text is a text exactly if it is the UTF-8 form of it.
-/

namespace AgentDocs.Files

/-- Bytes that stand for a text. -/
structure RawText where
  bytes : List UInt8
  deriving Repr, DecidableEq, Inhabited

namespace RawText

/-- The UTF-8 form of a text. -/
def ofString (s : String) : RawText := ⟨Text.bytes s⟩

instance : Coe String RawText := ⟨ofString⟩

instance : Append RawText := ⟨fun a b => ⟨a.bytes ++ b.bytes⟩⟩

/-- The text that is shown for raw text. What is no character shows as `Text.replacement`. -/
def text (r : RawText) : String := String.ofList (Text.decode r.bytes)

/-- The text that raw text is, if it is one. -/
def text? (r : RawText) : Option String := if ofString r.text = r then some r.text else none

@[simp] theorem bytes_append (a b : RawText) : (a ++ b).bytes = a.bytes ++ b.bytes := rfl

@[simp] theorem bytes_ofString (s : String) : (ofString s).bytes = Text.bytes s := rfl

theorem ext_bytes {a b : RawText} (h : a.bytes = b.bytes) : a = b := by
  cases a; cases b; cases h; rfl

@[simp] theorem text_ofString (s : String) : (ofString s).text = s := by
  rw [text, bytes_ofString, Text.decode_bytes, String.ofList_toList]

theorem ofString_injective {s t : String} (h : ofString s = ofString t) : s = t := by
  rw [← text_ofString s, h, text_ofString]

theorem ofString_append (s t : String) : ofString (s ++ t) = ofString s ++ ofString t :=
  ext_bytes (Text.bytes_append s t)

/-- `text?` gives `s` for the bytes of `s` alone. -/
theorem text?_eq_some_iff {r : RawText} {s : String} : r.text? = some s ↔ r = ofString s := by
  rw [text?]
  constructor
  · intro h
    split at h
    · next hr => rw [← hr, Option.some.inj h]
    · cases h
  · rintro rfl
    rw [text_ofString, if_pos rfl]

theorem eq_ofString_text {r : RawText} (h : r.text?.isSome = true) : r = ofString r.text := by
  obtain ⟨s, hs⟩ := Option.isSome_iff_exists.1 h
  rw [text?_eq_some_iff.1 hs, text_ofString]

/-- Where both are text, `a` and `b` are told apart by what is shown for them. -/
theorem eq_of_text_eq {a b : RawText} (ha : a.text?.isSome = true) (hb : b.text?.isSome = true)
    (h : a.text = b.text) : a = b := by
  rw [eq_ofString_text ha, h, ← eq_ofString_text hb]

/-- Only raw text without bytes is shown as the empty text. -/
theorem text_eq_empty_iff {r : RawText} : r.text = "" ↔ r.bytes = [] := by
  rw [text, ← String.toList_inj, String.toList_ofList, String.toList_empty]
  constructor
  · exact fun h => Decidable.byContradiction fun hne => Text.decodeFrom_ne_nil hne h
  · intro h
    rw [h]
    rfl

end RawText

/-- The byte between the segments of a path. -/
def separator : UInt8 := 47

/-- The byte in front of the extension of a file name. -/
def dot : UInt8 := 46

namespace RawText

theorem slash_notMem_text {r : RawText} (h : separator ∉ r.bytes) : '/' ∉ r.text.toList := by
  rw [text, String.toList_ofList]
  exact fun hm => h (Text.mem_of_mem_decode (by decide) (by decide) hm)

theorem separator_notMem_bytes {s : String} (h : '/' ∉ s.toList) :
    separator ∉ (ofString s).bytes :=
  fun hm => h (Text.mem_of_mem_bytes (by decide) hm)

end RawText

end AgentDocs.Files
