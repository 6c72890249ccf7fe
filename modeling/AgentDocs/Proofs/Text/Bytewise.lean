import Mathlib.Data.List.Lex
import Mathlib.Data.String.Basic
import AgentDocs.Text.Bytes

/-!
# Texts by their bytes

Strings are compared character by character. The encoding keeps that order: of two characters the
smaller one has the smaller bytes, whether both take the same number of bytes or not, and no bytes
of a character begin those of another one.

* `encode_append_lt`: two characters in order, with any bytes behind them.
* `bytes_lt_iff`, `bytes_le_iff`: the order of strings is that of their bytes.
-/

namespace AgentDocs.Text

/-! ## Characters -/

section
variable {m n : Nat}

theorem ofNat_lt_iff (hm : m < 256) (hn : n < 256) : UInt8.ofNat m < UInt8.ofNat n ↔ m < n := by
  rw [UInt8.lt_iff_toNat_lt, UInt8.toNat_ofNat_of_lt' hm, UInt8.toNat_ofNat_of_lt' hn]

theorem ofNat_eq_iff (hm : m < 256) (hn : n < 256) : UInt8.ofNat m = UInt8.ofNat n ↔ m = n := by
  rw [← UInt8.toNat_inj, UInt8.toNat_ofNat_of_lt' hm, UInt8.toNat_ofNat_of_lt' hn]

end

/-- One more byte is told by a greater first byte; with the same number of bytes the digits to the
base 64 decide. -/
theorem encode_append_lt {c d : Char} (h : c < d) (x y : List UInt8) :
    String.utf8EncodeChar c ++ x < String.utf8EncodeChar d ++ y := by
  have hlt : c.val.toNat < d.val.toNat := h
  have hd : d.val.toNat < 0x110000 := by
    rcases d.valid with h | h
    · exact Nat.lt_trans h (by decide)
    · exact h.2
  simp only [String.utf8EncodeChar]
  generalize c.val.toNat = m at *
  generalize d.val.toNat = n at *
  -- The digits have to be nested divisions by 64 for linear arithmetic to relate them.
  have hdigits : ∀ k, k / 4096 = k / 64 / 64 ∧ k / 262144 = k / 64 / 64 / 64 := by
    simp [Nat.div_div_eq_div_mul]
  rw [(hdigits m).1, (hdigits m).2, (hdigits n).1, (hdigits n).2]
  clear hdigits
  split_ifs
  all_goals simp only [List.cons_append, List.nil_append, List.cons_lt_cons_iff]
  all_goals simp (disch := omega) only [ofNat_lt_iff, ofNat_eq_iff]
  all_goals omega

/-! ## Texts -/

theorem flatMap_encode_lt {a b : List Char} (h : a < b) :
    a.flatMap String.utf8EncodeChar < b.flatMap String.utf8EncodeChar := by
  induction h with
  | @nil c rest =>
    obtain ⟨x, more, hx⟩ := List.exists_cons_of_ne_nil
      (show String.utf8EncodeChar c ≠ [] by simp)
    rw [List.flatMap_cons, hx]
    exact List.nil_lt_cons _ _
  | rel hcd => exact encode_append_lt hcd _ _
  | cons _ ih => exact List.append_left_lt ih

theorem bytes_lt_iff {a b : String} : bytes a < bytes b ↔ a < b := by
  simp only [bytes_eq, String.lt_iff_toList_lt]
  refine ⟨fun h => ?_, flatMap_encode_lt⟩
  rcases lt_trichotomy a.toList b.toList with hab | hab | hab
  · exact hab
  · rw [hab] at h
    exact absurd h (List.lt_irrefl _)
  · exact absurd (flatMap_encode_lt hab) (List.lt_asymm h)

theorem bytes_le_iff {a b : String} : bytes a ≤ bytes b ↔ a ≤ b := by
  rw [← List.not_lt, bytes_lt_iff, not_lt]

end AgentDocs.Text
