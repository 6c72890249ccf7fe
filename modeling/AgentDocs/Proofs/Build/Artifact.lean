import AgentDocs.Build.Artifact
import AgentDocs.Proofs.Files.Crossing
import AgentDocs.Proofs.Text.Breaks

/-!
# Artifacts in their places

An artifact is read back as it was written, so settling it a second time finds nothing to do.

* `normalized_artifact`: normalizing an artifact changes nothing.
* `settle_sync_cases`: all that the settling of one artifact can come to.
* `settle_of_stands`, `settle_validate_of_stands`: what it comes to where the artifact stands.
* `readNormalized?_of_settle`: what is read behind it.
-/

namespace AgentDocs

open AgentDocs.Files AgentDocs.Files.Workspace AgentDocs.Text

/-! ## Texts -/

theorem fromUTF8?_toUTF8 (a : String) : String.fromUTF8? a.toUTF8 = some a := by
  have h : a.toUTF8.IsValidUTF8 := a.isValidUTF8
  rw [String.fromUTF8?, dif_pos h]
  rfl

theorem normalized_artifact (d : AgentDocument) : normalized d.artifact = d.artifact := by
  rw [normalized, AgentDocument.artifact, String.toList_ofList, normalizeBreaks_idempotent]

/-! ## Settling -/

/-- All that settling the artifact `a` can come to in a run that writes. -/
theorem settle_sync_cases {w v : Workspace} {p : PathName} {f : FileName} {a : String}
    {r : Except FileError Action} (h : settle w .sync (p.join f.raw) a = (v, r)) :
    (v = w ∧ ∃ e, r = .error e) ∨
      (v = w ∧ r = .ok .unchanged ∧ w.readNormalized? (p.join f.raw) = .ok (some a)) ∨
      (∃ existing, w.readNormalized? (p.join f.raw) = .ok existing) ∧
        ((v = w.grown p ∧ ∃ e, r = .error e) ∨
          r = .ok .written ∧ ∃ l, (w.grown p).directoryAt p.way = .ok l ∧
            (w.grown p).tree.find? (f :: l) ≠ some .directory ∧
            v = (w.grown p).put (f :: l) (.file a.toUTF8)) := by
  simp only [settle] at h
  cases hr : w.readNormalized? (p.join f.raw) with
  | error e => rw [hr] at h; cases h; exact .inl ⟨rfl, e, rfl⟩
  | ok existing =>
    rw [hr] at h
    dsimp only at h
    split at h
    · next he => cases h; exact .inr (.inl ⟨rfl, rfl, by rw [he]⟩)
    · refine .inr (.inr ⟨⟨existing, rfl⟩, ?_⟩)
      rcases hw : w.write (p.join f.raw) a.toUTF8 with ⟨u, s⟩
      rw [hw] at h
      rcases write_join hw with ⟨hu, e, rfl⟩ | ⟨rfl, hl⟩
      · cases h; exact .inl ⟨hu, e, rfl⟩
      · cases h; exact .inr ⟨rfl, hl⟩

section
variable {w : Workspace} {p : PathName} {f : FileName} {a : String} {l : Location}

/-- Where something other than `a` is read, or nothing, and no directory stands, `a` is written. -/
theorem settle_of_ne {existing : Option String}
    (hr : w.readNormalized? (p.join f.raw) = .ok existing) (hne : existing ≠ some a)
    (hl : w.directoryAt p.way = .ok l) (hf : f.isTooLong = false)
    (hn : w.tree.find? (f :: l) ≠ some .directory) :
    settle w .sync (p.join f.raw) a = (w.put (f :: l) (.file a.toUTF8), .ok .written) := by
  have ha := accepted_of_readNormalized? hr
  have hw : w.write (p.join f.raw) a.toUTF8 = (w.put (f :: l) (.file a.toUTF8), .ok ()) := by
    rw [write_of_directoryAt ha hl, replaceFile_of_directoryAt ha hl, hf, if_neg hn]
    rfl
  simp only [settle, hr, hw, if_neg hne]

theorem settle_of_written (hr : (settle w .sync (p.join f.raw) a).2 = .ok .written)
    (hl : (w.grown p).directoryAt p.way = .ok l) :
    settle w .sync (p.join f.raw) a =
      ((w.grown p).put (f :: l) (.file a.toUTF8), .ok .written) := by
  rcases hs : settle w .sync (p.join f.raw) a with ⟨v, r⟩
  rw [hs] at hr
  dsimp only at hr
  subst hr
  rcases settle_sync_cases hs with ⟨-, e, he⟩ | ⟨-, he, -⟩ | ⟨-, ⟨-, e, he⟩ | ⟨-, l', hl', -, rfl⟩⟩
  · cases he
  · cases he
  · cases he
  · rw [hl] at hl'
    cases hl'
    rfl

theorem textAt_of_find? (he : w.tree.find? l = some (.file a.toUTF8)) : w.textAt l = .ok a := by
  simp only [textAt, bytesAt, he, bind, Except.bind, fromUTF8?_toUTF8]

theorem readNormalized?_of_resolve {d : AgentDocument} (hl : w.resolve p = .ok l)
    (he : w.tree.find? l = some (.file d.artifact.toUTF8)) :
    w.readNormalized? p = .ok (some d.artifact) :=
  readNormalized?_eq_some_iff.2 ⟨l, _, _, hl, he, fromUTF8?_toUTF8 _, normalized_artifact d⟩

theorem settle_of_read (h : w.readNormalized? p = .ok (some a)) :
    settle w .sync p a = (w, .ok .unchanged) := by
  simp only [settle, h, if_true]

theorem settle_of_stands (h : w.Stands p f a) :
    settle w .sync (p.join f.raw) a = (w, .ok .unchanged) :=
  settle_of_read h.readNormalized?

theorem settle_validate_of_stands (h : w.Stands p f a) :
    settle w .validate (p.join f.raw) a = (w, .ok .upToDate) := by
  simp only [settle, h.readNormalized?, Except.map, compare, if_true]

theorem settle_validate_of_ne {b : String} (h : w.Stands p f a) (hne : a ≠ b) :
    settle w .validate (p.join f.raw) b = (w, .ok (.drifted .modified)) := by
  simp only [settle, h.readNormalized?, Except.map, compare, if_neg hne]

end

/-! ## Behind a settled artifact -/

section
variable {w v : Workspace} {q : PathName} {f : FileName} {a : String} {l : Location}
  {action : Action}

/-- Behind a run that writes, the artifact `a` is read at its path unless the path crosses itself.
If it does, nothing is read there any more. -/
theorem readNormalized?_of_settle (ha : Text.normalized a = a)
    (h : settle w .sync (q.join f.raw) a = (v, .ok action)) :
    (¬ w.CrossesItself (q.join f.raw) → v.readNormalized? (q.join f.raw) = .ok (some a)) ∧
      (w.CrossesItself (q.join f.raw) →
        v.readNormalized? (q.join f.raw) = .error .notDirectory) := by
  rcases settle_sync_cases h with
    ⟨-, e, he⟩ | ⟨rfl, -, hr⟩ | ⟨⟨existing, hr⟩, ⟨-, e, he⟩ | ⟨-, l, hl, hn, rfl⟩⟩
  · cases he
  · obtain ⟨l, bytes, decoded, hl, he, -⟩ := readNormalized?_eq_some_iff.1 hr
    exact ⟨fun _ => hr, fun hc => absurd hc (not_crossesItself_of_resolve hl he)⟩
  · cases he
  · have hacc := accepted_of_readNormalized? hr
    constructor
    · intro hc
      have hv : f :: l ∉ (w.grown q).visits q.way := fun hv =>
        hc ((crossesItself_join_iff hacc hl hn).2 hv)
      have hstands : ((w.grown q).put (f :: l) (.file a.toUTF8)).Stands q f a :=
        ⟨hacc, l, a.toUTF8, a, directoryAt_put hl hn hv, find?_put_child, fromUTF8?_toUTF8 a, ha⟩
      exact hstands.readNormalized?
    · intro hc
      have hv := (crossesItself_join_iff hacc hl hn).1 hc
      exact readNormalized?_of_notDirectory hacc
        (follow_put_of_visits hl hn hv (by simp) (by simp))

end

end AgentDocs
