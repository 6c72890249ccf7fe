import AgentDocs.Proofs.Build.Standing
import AgentDocs.Proofs.Files.Listing

/-!
# The second sweep

A sweep keeps the artifacts of the templates that it knows. One that removes all that it wants to
remove leaves nothing to a second sweep, and one without force changes nothing at all.

* `Stands.sweep`: the artifact of a known template survives.
* `unknown_candidates_of_sweep`: a sweep that removes all that it wants to leaves known agents only.
* `sweep_again`: a second sweep leaves the workspace as it is.
-/

namespace AgentDocs

open AgentDocs.Files AgentDocs.Files.Workspace

/-! ## What a sweep leaves -/

section
variable {w v : Workspace} {out : PathName} {f : FileName} {a name : String} {s : Settings}
  {r : Registry} {filter : RoleFilter} {force : Bool} {known : List String}

/-- A sweep on its own is a `Stage` in which files are only removed. -/
theorem sweep_stage (w : Workspace) (out : PathName) (s : Settings) (r : Registry)
    (filter : RoleFilter) (force : Bool) (known : List String) :
    Stage (fun _ => False) (Removed out (Sweep.run w s r filter force out known).2.stale) out w
      (Sweep.run w s r filter force out known).1 := by
  have hbegun : Stage (fun _ => False) (fun _ => False) out w w := .begun
  exact (hbegun.sweep fun _ => False.elim).mono (fun _ => id) fun _ hf => hf.resolve_left id

/-- The artifact of a template whose name is among the `known` ones survives a sweep. -/
theorem Files.Workspace.Stands.sweep (hs : w.Stands out f a) (hf : f.raw = fileName name)
    (hk : name ∈ known) : (Sweep.run w s r filter force out known).1.Stands out f a := by
  refine hs.of_stage (sweep_stage w out s r filter force known) (fun _ => False.elim) id ?_
  rintro ⟨x, hx, -, -, hname⟩
  exact raw_ne_of_mem_stale hx hname hk hf

theorem find?_removeFile_of_none (path : PathName) {l : Location} (h : w.tree.find? l = none) :
    (w.removeFile path).1.tree.find? l = none := by
  unfold removeFile
  split
  · exact h
  · next m file _ =>
    split
    · exact h
    · exact h
    · split
      · exact h
      · by_cases hl : l = file :: m
        · subst hl
          exact FileTree.find?_erase_self (by simp)
        · exact (FileTree.find?_erase_of_ne hl).trans h
  · exact h

theorem find?_remove_of_none {cs : List Sweep.Candidate} {l : Location}
    (h : w.tree.find? l = none) : (Sweep.remove true w cs).1.tree.find? l = none := by
  induction cs generalizing w with
  | nil => exact h
  | cons c rest ih =>
    have hv := find?_removeFile_of_none c.path h
    simp only [Sweep.remove, if_true]
    rcases hr : w.removeFile c.path with ⟨v, e | ⟨⟩⟩ <;> rw [hr] at hv <;> exact ih hv

theorem find?_of_mem_removed {cs : List Sweep.Candidate} {dir : Location} {x : Stale}
    (hdir : w.directoryAt out.way = .ok dir)
    (hn : ∀ c ∈ cs, ∃ f : FileName, c.path = out.join f.raw ∧
      ∀ target, w.tree.find? (f :: dir) ≠ some (.link target))
    (hx : x ∈ (Sweep.remove true w cs).2.stale) (hf : x.path = out.join f.raw) :
    (Sweep.remove true w cs).1.tree.find? (f :: dir) = none := by
  induction cs generalizing w with
  | nil => cases hx
  | cons c rest ih =>
    rw [List.forall_mem_cons] at hn
    obtain ⟨⟨g, hg, hlink⟩, hrest⟩ := hn
    simp only [Sweep.remove, if_true, hg] at hx ⊢
    rcases hv : w.removeFile (out.join g.raw) with ⟨v, e | ⟨⟩⟩
    · rw [hv] at hx
      obtain ⟨rfl, -⟩ | ⟨he, -⟩ := removeFile_join hv
      · exact ih hdir hrest hx
      · cases he
    · rw [hv] at hx
      dsimp only at hx ⊢
      rcases removeFile_join hv with ⟨-, e, he⟩ | ⟨-, l, e, hl, he, hd, rfl⟩
      · cases he
      · rw [hdir] at hl
        cases hl
        have hgone : (w.drop (g :: dir)).tree.find? (g :: dir) = none :=
          FileTree.find?_erase_self (by simp)
        rcases List.mem_cons.1 hx with rfl | hx
        · obtain rfl : f = g := PathName.join_injective hf.symm
          exact find?_remove_of_none hgone
        · have hworked : Worked (fun _ => False) (· = g) w (w.drop (g :: dir)) dir := by
            cases e with
            | directory => exact absurd rfl hd
            | link target => exact absurd he (hlink target)
            | file bytes => exact (Worked.refl w dir).drop rfl id he
          refine ih (hworked.directoryAt hdir fun _ => False.elim) (fun c hc => ?_) hx
          obtain ⟨g', hg', hlink'⟩ := hrest c hc
          refine ⟨g', hg', fun target ht => ?_⟩
          by_cases hgg : g' :: dir = g :: dir
          · rw [hgg, hgone] at ht
            cases ht
          · exact hlink' target ((FileTree.find?_erase_of_ne hgg).symm.trans ht)

/-- Where all removals succeed, all of `cs` is reported. -/
theorem stale_of_remove {cs : List Sweep.Candidate}
    (h : (Sweep.remove force w cs).2.failures = []) :
    (Sweep.remove force w cs).2.stale = cs.map fun c => ⟨c.name, c.path, force⟩ := by
  cases force with
  | false => rw [Sweep.remove_of_not_force]
  | true =>
    induction cs generalizing w with
    | nil => rfl
    | cons c rest ih =>
      simp only [Sweep.remove, if_true] at h ⊢
      rcases hr : w.removeFile c.path with ⟨v, e | ⟨⟩⟩
      · rw [hr] at h
        cases h
      · rw [hr] at h
        rw [List.map_cons, ← ih h]

theorem find?_of_remove {cs : List Sweep.Candidate} {c : Sweep.Candidate} {dir : Location}
    (hdir : w.directoryAt out.way = .ok dir)
    (hn : ∀ c ∈ cs, ∃ f : FileName, c.path = out.join f.raw ∧
      ∀ target, w.tree.find? (f :: dir) ≠ some (.link target))
    (hr : (Sweep.remove true w cs).2.failures = []) (hc : c ∈ cs) (hf : c.path = out.join f.raw) :
    (Sweep.remove true w cs).1.tree.find? (f :: dir) = none := by
  have hx : ⟨c.name, c.path, true⟩ ∈ (Sweep.remove true w cs).2.stale := by
    rw [stale_of_remove hr]
    exact List.mem_map_of_mem hc
  exact find?_of_mem_removed hdir hn hx hf

/-- Where a directory of agents is found, the way of `out` leads to it. -/
theorem exists_way_of_isDirectory (h : w.isDirectory out = true) :
    ∃ dir, w.resolve out = .ok dir ∧ w.tree.isDirectory dir = true ∧ out.Passable ∧
      w.directoryAt out.way = .ok dir := by
  obtain ⟨dir, hdir, he⟩ := resolve_isSome_of_entry? (e := .directory)
    (by simpa [Workspace.isDirectory] using h)
  have hd : w.tree.isDirectory dir = true := by simp [FileTree.isDirectory, he]
  obtain ⟨hacc, hway⟩ := directoryAt_way_of_resolve hdir hd
  exact ⟨dir, hdir, hd, PathName.passable_of_refusal hacc, hway⟩

theorem sweep_of_not_directory (hd : w.isDirectory out = false) :
    Sweep.run w s r filter force out known = (w, ⟨[], []⟩) := by
  simp [Sweep.run, hd]

theorem isDirectory_of_resolve {dir : Location} (hr : w.resolve out = .ok dir)
    (hd : w.tree.isDirectory dir = true) : w.isDirectory out = true := by
  simpa [Workspace.isDirectory, entry?, hr, FileTree.isDirectory] using hd

theorem sweep_of_directory {dir : Location} (hdir : w.openDirectory out = .ok dir) :
    Sweep.run w s r filter force out known = Sweep.remove force w
      ((Sweep.candidates w s r filter out dir).filter fun c => !known.contains c.name) := by
  obtain ⟨hr, hd, -⟩ := openDirectory_eq_ok_iff.1 hdir
  simp [Sweep.run, isDirectory_of_resolve hr hd, hdir]

theorem openDirectory_of_sweep {dir : Location}
    (h : (Sweep.run w s r filter force out known).2.failures = []) (hr : w.resolve out = .ok dir)
    (hd : w.tree.isDirectory dir = true) : w.openDirectory out = .ok dir := by
  have hdir := isDirectory_of_resolve hr hd
  cases ho : w.openDirectory out with
  | error e => simp [Sweep.run, hdir, ho] at h
  | ok dir' =>
    obtain ⟨hr', -⟩ := openDirectory_eq_ok_iff.1 ho
    cases hr.symm.trans hr'
    rfl

theorem sweep_of_none {dir : Location} (hdir : w.openDirectory out = .ok dir)
    (hn : ((w.tree.children dir).filterMap (Sweep.candidate? w s r filter out dir)).filter
      (fun c => !known.contains c.name) = []) :
    Sweep.run w s r filter force out known = (w, ⟨[], []⟩) := by
  have hnone : (Sweep.candidates w s r filter out dir).filter (fun c => !known.contains c.name) =
      [] := by
    refine List.perm_nil.1 ?_
    rw [← hn]
    exact (List.mergeSort_perm _ _).filter _
  rw [sweep_of_directory hdir, hnone]
  rfl

theorem sweep_of_candidate {dir : Location} {c : Sweep.Candidate}
    (hdir : w.openDirectory out = .ok dir)
    (hn : ((w.tree.children dir).filterMap (Sweep.candidate? w s r filter out dir)).filter
      (fun c => !known.contains c.name) = [c]) :
    Sweep.run w s r filter force out known = Sweep.remove force w [c] := by
  have hone : (Sweep.candidates w s r filter out dir).filter (fun c => !known.contains c.name) =
      [c] := by
    refine List.perm_singleton.1 ?_
    rw [← hn]
    exact (List.mergeSort_perm _ _).filter _
  rw [sweep_of_directory hdir, hone]

theorem sweep_of_single {dir : Location} (hdir : w.openDirectory out = .ok dir)
    (hn : ((w.tree.children dir).filterMap (Sweep.candidate? w s r filter out dir)).filter
      (fun c => !known.contains c.name) = [⟨name, out.join f.raw⟩])
    (hr : (w.removeFile (out.join f.raw)).2 = .ok ()) :
    Sweep.run w s r filter true out known =
      (w.drop (f :: dir), ⟨[⟨name, out.join f.raw, true⟩], []⟩) := by
  rw [sweep_of_candidate hdir hn]
  simp only [Sweep.remove, if_true]
  rcases hv : w.removeFile (out.join f.raw) with ⟨v, e⟩
  rw [hv] at hr
  dsimp only at hr
  subst hr
  obtain ⟨hres, hd, -⟩ := openDirectory_eq_ok_iff.1 hdir
  rcases removeFile_join hv with ⟨-, e, he⟩ | ⟨-, l, e, hl, -, -, rfl⟩
  · cases he
  · rw [(directoryAt_way_of_resolve hres hd).2] at hl
    cases hl
    rfl

theorem sweep_of_not_force : (Sweep.run w s r filter false out known).1 = w := by
  unfold Sweep.run
  split
  · rfl
  · split
    · rfl
    · rw [Sweep.remove_of_not_force]

theorem mem_candidates_of_find? {dir : Location} {c : Sweep.Candidate}
    (h : c ∈ Sweep.candidates v s r filter out dir)
    (hv : ∀ f bytes, v.tree.find? (f :: dir) = some (.file bytes) →
      w.tree.find? (f :: dir) = some (.file bytes)) :
    c ∈ Sweep.candidates w s r filter out dir := by
  simp only [Sweep.candidates, List.mem_mergeSort, List.mem_filterMap] at h ⊢
  obtain ⟨f, -, hc⟩ := h
  cases hb : v.tree.find? (f :: dir) with
  | none => simp [Sweep.candidate?, hb] at hc
  | some e =>
    cases e with
    | directory => simp [Sweep.candidate?, hb] at hc
    | link target => simp [Sweep.candidate?, hb] at hc
    | file bytes =>
      have hw := hv f bytes hb
      refine ⟨f, FileTree.mem_children_iff.2 ⟨_, hw⟩, ?_⟩
      simpa only [Sweep.candidate?, hb, hw] using hc

/-- After all unknown candidates of `dir` are removed, there are none. -/
theorem unknown_candidates_eq_nil {R : FileName → Prop} {dir : Location}
    (hdir : w.directoryAt out.way = .ok dir) (h : Worked (fun _ => False) R w v dir)
    (hv : (Sweep.remove true w
      ((Sweep.candidates w s r filter out dir).filter fun c => !known.contains c.name)).1 = v)
    (hr : (Sweep.remove true w
      ((Sweep.candidates w s r filter out dir).filter fun c =>
        !known.contains c.name)).2.failures = []) :
    ((Sweep.candidates v s r filter out dir).filter fun c => !known.contains c.name) = [] := by
  refine List.eq_nil_iff_forall_not_mem.2 fun c hc => ?_
  obtain ⟨hcand, hknown⟩ := List.mem_filter.1 hc
  obtain ⟨f, hf, -, bytes, hb⟩ := exists_of_mem_candidates hcand
  have hbefore : c ∈ Sweep.candidates w s r filter out dir := by
    refine mem_candidates_of_find? hcand fun g bytes hg => ?_
    rcases h.entries (g :: dir) with he | ⟨-, -, ⟨hfalse, -⟩ | ⟨-, hn, -⟩⟩
    · rw [← he, hg]
    · exact hfalse.elim
    · rw [hg] at hn
      cases hn
  have hgone := find?_of_remove hdir (fun c hc => ?_) hr
    (List.mem_filter.2 ⟨hbefore, hknown⟩) hf
  · rw [hv, hb] at hgone
    cases hgone
  · obtain ⟨g, hg, -, bytes, he⟩ := exists_of_mem_candidates (List.mem_filter.1 hc).1
    exact ⟨g, hg, fun target ht => by rw [he] at ht; cases ht⟩

theorem openDirectory_of_swept {dir : Location}
    (hv : (Sweep.run w s r filter force out known).1 = v)
    (hr : (Sweep.run w s r filter force out known).2.failures = [])
    (hdir : v.resolve out = .ok dir) (hd : v.tree.isDirectory dir = true) :
    w.openDirectory out = .ok dir ∧
      Stage (fun _ => False) (Removed out (Sweep.run w s r filter force out known).2.stale) out
        w v ∧
      Worked (fun _ => False) (Removed out (Sweep.run w s r filter force out known).2.stale) w v
        dir := by
  obtain ⟨hacc, hvway⟩ := directoryAt_way_of_resolve hdir hd
  have hp := PathName.passable_of_refusal hacc
  have hstage := sweep_stage w out s r filter force known
  rw [hv] at hstage
  cases hwd : w.isDirectory out with
  | false =>
    rw [sweep_of_not_directory hwd] at hv
    cases hv
    rw [isDirectory_of_resolve hdir hd] at hwd
    cases hwd
  | true =>
    obtain ⟨dir', hwdir, hwis, -, hway⟩ := exists_way_of_isDirectory hwd
    -- what the sweep leaves is the directory that it looked at
    obtain ⟨hg, hworked⟩ := hstage.worked_of_directoryAt hp hvway
    rw [grown_eq_self hp hway] at hg hworked
    rw [hway] at hg
    cases hg
    exact ⟨openDirectory_of_sweep hr hwdir hwis, hstage, hworked⟩

/-- A forced sweep without failures leaves only candidates that are `known`. -/
theorem unknown_candidates_of_sweep {dir : Location}
    (hv : (Sweep.run w s r filter true out known).1 = v)
    (hr : (Sweep.run w s r filter true out known).2.failures = [])
    (hdir : v.resolve out = .ok dir) (hd : v.tree.isDirectory dir = true) :
    ((Sweep.candidates v s r filter out dir).filter fun c => !known.contains c.name) = [] := by
  obtain ⟨hopen, -, hworked⟩ := openDirectory_of_swept hv hr hdir hd
  obtain ⟨hwdir, hwis, -⟩ := openDirectory_eq_ok_iff.1 hopen
  rw [sweep_of_directory hopen] at hv hr
  exact unknown_candidates_eq_nil (directoryAt_way_of_resolve hwdir hwis).2 hworked hv hr

theorem listable_of_swept (hv : (Sweep.run w s r filter force out known).1 = v)
    (hr : (Sweep.run w s r filter force out known).2.failures = []) {e : FileError}
    (he : v.openDirectory out = .error e) : v.isDirectory out = false := by
  refine Bool.eq_false_iff.2 fun hvd => ?_
  obtain ⟨dir, hdir, hd, -⟩ := exists_way_of_isDirectory hvd
  obtain ⟨hopen, hstage, -⟩ := openDirectory_of_swept hv hr hdir hd
  have hsealed := (openDirectory_eq_ok_iff.1 hopen).2.2
  rw [← hstage.sealed] at hsealed
  rw [openDirectory_eq_ok_iff.2 ⟨hdir, hd, hsealed⟩] at he
  cases he

/-- A sweep without failures leaves `v`, in which there is nothing for another one. -/
theorem sweep_again (hv : (Sweep.run w s r filter force out known).1 = v)
    (hr : (Sweep.run w s r filter force out known).2.failures = []) :
    (Sweep.run v s r filter force out known).1 = v := by
  cases force with
  | false => exact sweep_of_not_force
  | true =>
    unfold Sweep.run
    split
    · rfl
    · cases ho : v.openDirectory out with
      | error e => rfl
      | ok dir =>
        obtain ⟨hdir, hd, -⟩ := openDirectory_eq_ok_iff.1 ho
        dsimp only
        rw [unknown_candidates_of_sweep hv hr hdir hd]
        rfl

theorem listable_of_unsealed (hs : w.sealed = []) {e : FileError}
    (he : w.openDirectory out = .error e) : w.isDirectory out = false := by
  refine Bool.eq_false_iff.2 fun hd => ?_
  obtain ⟨l, -, -, hl⟩ := openDirectory_of_isDirectory hd
  rw [he, hs] at hl
  cases hl

theorem sweep_failures_of_not_force (h : ∀ {e}, w.openDirectory out = .error e →
    w.isDirectory out = false) : (Sweep.run w s r filter false out known).2.failures = [] := by
  cases ho : w.openDirectory out with
  | error e => rw [sweep_of_not_directory (h ho)]
  | ok dir => rw [sweep_of_directory ho, Sweep.remove_of_not_force]

end

end AgentDocs
