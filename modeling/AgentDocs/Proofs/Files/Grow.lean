import Mathlib.Data.List.Induction
import AgentDocs.Proofs.Files.Directory

/-!
# Missing directories

What making the directories on a path does to a workspace: it adds directories where nothing stood
and changes nothing else, it succeeds exactly when it leaves a directory at the end of the path, and
doing it once more changes nothing.

* `Grows`: a workspace with directories added.
* `makeDirectories_of_directoryAt`: nothing is made where the directory is there.
* `makeDirectories_leads`: when it succeeds.
* `follow_of_makeDirectories`: what the path led to before.
* `grown_grown`: it is idempotent, also where it fails.
* `exists_prefix_of_grown`: what is made is on the path.
* `write_grown`, `write_join`: files written behind it.
-/

namespace AgentDocs.Files

namespace PathName

/-- No directory on the way is refused by its spelling. -/
def Passable (p : PathName) : Prop := p.inside ≠ [] → (pathOf p.inside).refusal? = none

theorem passable_of_join {p : PathName} {f : FileName} (h : (p.join f.raw).refusal? = none) :
    p.Passable := by
  intro hi
  obtain ⟨more, hm⟩ := bytes_join_pathOf hi f
  exact refusal?_of_append hm (pathOf_bytes_ne_nil (proper_inside p) hi) h

theorem passable_of_refusal {p : PathName} (h : p.refusal? = none) : p.Passable := by
  intro hi
  have hp := proper_inside p
  have ht := spelling_markedSegments p
  have hne : p.markedSegments.map (·.1) ≠ [.root] := by
    intro hr
    have hs := (proper_markedSegments p).eq_root hr
    rw [hs] at ht
    have : p.raw.bytes = [] := by simpa [spelling, joined] using ht.symm
    rw [markedSegments, this] at hs
    simp at hs
  have hpath : pathOf p.markedSegments = p := by
    rw [pathOf, if_neg hne, ht]
  unfold inside at hi hp ⊢
  split
  · next hc =>
    rw [if_pos hc] at hi hp
    have hms : p.markedSegments ≠ [] := by
      intro he
      exact hi (by rw [he]; rfl)
    obtain ⟨more, hm⟩ := bytes_pathOf_append hi hp
      (List.cons_ne_nil (p.markedSegments.getLast hms) [])
    rw [List.dropLast_concat_getLast, hpath] at hm
    exact refusal?_of_append hm (pathOf_bytes_ne_nil hp hi) h
  · rwa [hpath]

/-! ## The directories on the way -/

section
variable {first : List (Step × List UInt8)} {x : Step × List UInt8}

/-- The last of some segments counts: it is the only one, or it does not stay. -/
def Counts (first : List (Step × List UInt8)) (x : Step × List UInt8) : Prop :=
  first = [] ∨ x.1 ≠ .here

theorem prefixesOf_reverse_concat (h : Counts first x) :
    (prefixesOf (first ++ [x])).reverse = pathOf (first ++ [x]) :: (prefixesOf first).reverse := by
  by_cases hf : first = []
  · subst hf
    rw [List.nil_append, prefixesOf_single]
    rfl
  · rw [prefixesOf_concat hf, if_neg (h.resolve_left hf), List.reverse_append]
    rfl

theorem prefixesOf_concat_here (hf : first ≠ []) (h : x.1 = .here) :
    prefixesOf (first ++ [x]) = prefixesOf first := by
  rw [prefixesOf_concat hf, if_pos h, List.append_nil]

/-- The last segment of those that count is empty only in the path of the root. -/
theorem Counts.eq_root (h : Counts first x) (hp : Proper (first ++ [x])) (hx : x.2 = []) :
    first = [] ∧ x = (.root, []) := by
  by_cases hf : first = []
  · subst hf
    refine ⟨rfl, ?_⟩
    have hm := hp.marked
    simp only [List.nil_append, List.map_cons, List.map_nil, hx, mark, if_true, List.cons.injEq,
      and_true] at hm
    exact hm.symm
  · have hs := hp.step_eq hf
    rw [hx, innerStep_nil] at hs
    exact absurd hs (h.resolve_left hf)

theorem Proper.step_ne_root (hp : Proper (first ++ [x])) (hf : first ≠ []) : x.1 ≠ .root := by
  rw [hp.step_eq hf]
  exact innerStep_ne_root x.2

theorem map_ne_root (hx : x.2 ≠ []) (hp : Proper (first ++ [x])) :
    (first ++ [x]).map (·.1) ≠ [.root] := by
  intro hr
  have hs := hp.eq_root hr
  cases first with
  | nil => cases hs; exact hx rfl
  | cons y first => simp at hs

theorem Proper.refusal?_left (hp : Proper (first ++ [x])) (hf : first ≠ [])
    (h : (pathOf (first ++ [x])).refusal? = none) : (pathOf first).refusal? = none := by
  obtain ⟨more, hm⟩ := bytes_pathOf_append hf hp.left (List.cons_ne_nil x [])
  exact refusal?_of_append hm (pathOf_bytes_ne_nil hp.left hf) h

end

end PathName

open PathName

namespace Workspace

/-! ## Workspaces that grow -/

/-- A workspace holds all that another one holds, and beside it only directories. -/
structure Grows (w v : Workspace) : Prop where
  start : v.start = w.start
  sealed : v.sealed = w.sealed
  entries : ∀ l, v.tree.find? l = w.tree.find? l ∨
    w.tree.find? l = none ∧ v.tree.find? l = some .directory

variable {w v u : Workspace} {p : PathName} {l : Location} {steps : List Step}

theorem Grows.refl (w : Workspace) : Grows w w := ⟨rfl, rfl, fun _ => .inl rfl⟩

theorem Grows.trans (h : Grows w v) (k : Grows v u) : Grows w u := by
  refine ⟨k.start.trans h.start, k.sealed.trans h.sealed, fun l => ?_⟩
  rcases k.entries l with hk | ⟨hn, hk⟩
  · rw [hk]
    exact h.entries l
  · refine .inr ⟨?_, hk⟩
    rcases h.entries l with hl | ⟨hl, -⟩
    · rw [← hl, hn]
    · exact hl

theorem Grows.find?_of_some (h : Grows w v) {e : Entry} (he : w.tree.find? l = some e) :
    v.tree.find? l = some e := by
  rcases h.entries l with hl | ⟨hl, -⟩
  · rw [hl, he]
  · rw [he] at hl
    cases hl

theorem Grows.isDirectory (h : Grows w v) (hd : w.tree.isDirectory l = true) :
    v.tree.isDirectory l = true := by
  have hl : w.tree.find? l = some .directory := by simpa [FileTree.isDirectory] using hd
  simp [FileTree.isDirectory, h.find?_of_some hl]

theorem Grows.follow (h : Grows w v) (hl : w.follow steps = .ok l) : v.follow steps = .ok l := by
  unfold Workspace.follow at hl ⊢
  rw [h.start]
  have hleads := FileTree.leads_of_walk hl
  refine (hleads.walk_of_kept (fun m hm => h.isDirectory hm) fun m hm => ?_).walk
  obtain ⟨e, he⟩ := Option.isSome_iff_exists.1 (hleads.isSome_of_mem_visited m hm)
  rw [he, h.find?_of_some he]

theorem Grows.resolve (h : Grows w v) (hl : w.resolve p = .ok l) : v.resolve p = .ok l := by
  unfold Workspace.resolve at hl ⊢
  cases hr : p.refusal? with
  | some e => rw [hr] at hl; cases hl
  | none =>
    rw [hr] at hl
    exact h.follow hl

theorem Grows.directoryAt (h : Grows w v) (hl : w.directoryAt steps = .ok l) :
    v.directoryAt steps = .ok l := by
  rw [directoryAt_eq_ok_iff] at hl ⊢
  exact ⟨h.follow hl.1, h.isDirectory hl.2⟩

theorem grows_put (h : w.tree.find? l = none) : Grows w (w.put l .directory) := by
  have hl : l ≠ [] := by
    rintro rfl
    rw [FileTree.find?_root] at h
    cases h
  refine ⟨rfl, rfl, fun m => ?_⟩
  by_cases hm : m = l
  · subst hm
    exact .inr ⟨h, FileTree.find?_insert_self hl⟩
  · exact .inl (FileTree.find?_insert_of_ne hm)

theorem makeDirectory_grows {r : Except FileError Unit} (h : w.makeDirectory p = (v, r)) :
    Grows w v := by
  unfold makeDirectory at h
  split at h
  · cases h; exact .refl w
  · split at h
    · cases h; exact .refl w
    · split at h
      · cases h; exact .refl w
      · next he => cases h; exact grows_put he
  · cases h; exact .refl w

theorem orDirectory_fst (p : PathName) (edited : Edited) : (orDirectory p edited).1 = edited.1 := by
  obtain ⟨w, e | ⟨⟩⟩ := edited
  · unfold orDirectory
    dsimp only
    split <;> rfl
  · rfl

theorem makeDirectories_grows (w : Workspace) (ps : List PathName) :
    Grows w (w.makeDirectories ps).1 := by
  induction ps generalizing w with
  | nil => exact .refl w
  | cons p outer ih =>
    rw [makeDirectories]
    rcases hm : w.makeDirectory p with ⟨v, r⟩
    have hv := makeDirectory_grows hm
    split
    · next w' hw =>
      cases hw
      have hu := ih v
      rcases ho : v.makeDirectories outer with ⟨u, e | ⟨⟩⟩
      · rw [ho] at hu
        exact hv.trans hu
      · rw [ho] at hu
        rw [orDirectory_fst]
        exact (hv.trans hu).trans (makeDirectory_grows (v := (u.makeDirectory p).1) rfl)
    · rw [orDirectory_fst]
      exact hv

/-! ## One directory -/

section
variable {first : List (Step × List UInt8)} {x : Step × List UInt8}

/-- The steps of some segments lead to a directory. -/
def leadsToDirectory (w : Workspace) (ms : List (Step × List UInt8)) : Prop :=
  ∃ l, w.directoryAt (ms.map (·.1)) = .ok l

theorem lastStep?_pathOf (hp : Proper (first ++ [x])) (hx : x.2 ≠ []) :
    w.lastStep? (pathOf (first ++ [x])) =
      match (pathOf (first ++ [x])).refusal? with
      | some e => .error e
      | none => (w.directoryAt (first.map (·.1))).map fun l => some (l, x.1) := by
  have hb : (pathOf (first ++ [x])).movesBack = x.1 :: (first.map (·.1)).reverse := by
    rw [movesBack, markedSegments_pathOf hp (by simp) (map_ne_root hx hp)]
    simp [hx]
  unfold lastStep?
  rw [hb]
  cases (pathOf (first ++ [x])).refusal? with
  | some e => rfl
  | none => simp only [List.reverse_reverse]

theorem resolve_pathOf {ms : List (Step × List UInt8)} (hp : Proper ms) (hm : ms ≠ [])
    (hr : (pathOf ms).refusal? = none) (h : w.directoryAt (ms.map (·.1)) = .ok l) :
    w.resolve (pathOf ms) = .ok l := by
  obtain ⟨hl, hd⟩ := directoryAt_eq_ok_iff.1 h
  rw [resolve, hr]
  show w.follow (pathOf ms).moves = .ok l
  by_cases hroot : ms.map (·.1) = [.root]
  · have hms : (pathOf ms).moves = [.root, .here] := by
      rw [pathOf, if_pos hroot, moves, markedSegments_root]
      rfl
    rw [hroot] at hl
    have hwalk : w.follow [.root] = .ok [] := (FileTree.Leads.root .done).walk
    cases hwalk.symm.trans hl
    rw [hms]
    exact (FileTree.Leads.root (.stay rfl .done)).walk
  · rwa [moves, markedSegments_pathOf hp hm hroot]

theorem isDirectory_pathOf_iff {ms : List (Step × List UInt8)} (hp : Proper ms) (hm : ms ≠ [])
    (hr : (pathOf ms).refusal? = none) :
    w.isDirectory (pathOf ms) = true ↔ w.leadsToDirectory ms := by
  have hres : w.resolve (pathOf ms) = w.follow (pathOf ms).moves := by rw [resolve, hr]
  unfold leadsToDirectory isDirectory entry?
  by_cases hroot : ms.map (·.1) = [.root]
  · have hms : (pathOf ms).moves = [.root, .here] := by
      rw [pathOf, if_pos hroot, moves, markedSegments_root]
      rfl
    have hwalk : w.follow [.root, .here] = .ok [] :=
      (FileTree.Leads.root (.stay rfl .done)).walk
    have hdir : w.directoryAt [.root] = .ok [] :=
      directoryAt_eq_ok_iff.2 ⟨(FileTree.Leads.root .done).walk, rfl⟩
    rw [hres, hms, hwalk, hroot, hdir]
    simp [FileTree.find?_root]
  · have hms : (pathOf ms).moves = ms.map (·.1) := by
      rw [moves, markedSegments_pathOf hp hm hroot]
    rw [hres, hms]
    simp only [directoryAt_eq_ok_iff]
    cases w.follow (ms.map (·.1)) with
    | error e => simp
    | ok l => simp [FileTree.isDirectory]

theorem exists_directoryAt_left {step : Step} (hs : step ≠ .root)
    (h : w.directoryAt (steps ++ [step]) = .ok l) : ∃ m, w.directoryAt steps = .ok m := by
  obtain ⟨m, hm⟩ := FileTree.walk_append_ok (directoryAt_eq_ok_iff.1 h).1
  obtain ⟨k, hk⟩ := (FileTree.leads_of_walk hm).walk_append
  refine ⟨m, directoryAt_eq_ok_iff.2 ⟨hm, ?_⟩⟩
  have hl : w.tree.walk k m [step] = .ok l := (hk _).symm.trans (directoryAt_eq_ok_iff.1 h).1
  cases hd : w.tree.isDirectory m with
  | true => rfl
  | false =>
    have := (FileTree.leads_of_walk hl).eq_of_not_isDirectory (by simpa using Ne.symm hs) hd
    simp at this

theorem leadsToDirectory_left (hp : Proper (first ++ [x])) (hf : first ≠ [])
    (h : w.leadsToDirectory (first ++ [x])) : w.leadsToDirectory first := by
  obtain ⟨l, hl⟩ := h
  rw [List.map_append, List.map_singleton] at hl
  exact exists_directoryAt_left (hp.step_ne_root hf) hl

theorem leadsToDirectory_concat_here (hx : x.1 = .here) (h : w.leadsToDirectory first) :
    w.leadsToDirectory (first ++ [x]) := by
  obtain ⟨l, hl⟩ := h
  obtain ⟨k, hk⟩ := exists_follow_append hl
  have hd := (directoryAt_eq_ok_iff.1 hl).2
  refine ⟨l, directoryAt_eq_ok_iff.2 ⟨?_, hd⟩⟩
  rw [List.map_append, List.map_singleton, hx, hk]
  exact (FileTree.Leads.stay hd .done).walk

theorem not_leadsToDirectory_of_follow {ms : List (Step × List UInt8)} {e : FileError}
    (h : w.follow (ms.map (·.1)) = .error e) : ¬ w.leadsToDirectory ms := by
  rintro ⟨l, hl⟩
  rw [(directoryAt_eq_ok_iff.1 hl).1] at h
  cases h

/-- All that the making of one directory, at the end of `first ++ [x]`, can come to. -/
theorem makeDirectory_cases {r : Except FileError Unit} (hp : Proper (first ++ [x]))
    (hc : Counts first x) (h : w.makeDirectory (pathOf (first ++ [x])) = (v, r)) :
    (v = w ∧ ∃ e, r = .error e) ∨
      (r = .ok () ∧ w.leadsToDirectory first ∧
        w.follow ((first ++ [x]).map (·.1)) = .error .notFound ∧
        (pathOf (first ++ [x])).refusal? = none ∧
        ∃ l, v = w.put l .directory ∧ v.directoryAt ((first ++ [x]).map (·.1)) = .ok l) := by
  have hgrows := makeDirectory_grows h
  by_cases hx : x.2 = []
  · obtain ⟨rfl, rfl⟩ := hc.eq_root hp hx
    cases h
    exact .inl ⟨rfl, _, rfl⟩
  · unfold makeDirectory at h
    rw [lastStep?_pathOf hp hx] at h
    cases hr : (pathOf (first ++ [x])).refusal? with
    | some e => rw [hr] at h; cases h; exact .inl ⟨rfl, _, rfl⟩
    | none =>
      cases hl : w.directoryAt (first.map (·.1)) with
      | error e => rw [hr, hl] at h; cases h; exact .inl ⟨rfl, _, rfl⟩
      | ok l =>
        simp only [hr, hl, Except.map] at h
        split at h
        · next he => cases he
        · next l' name he =>
          simp only [Except.ok.injEq, Option.some.injEq, Prod.mk.injEq] at he
          obtain ⟨rfl, hname⟩ := he
          split at h
          · cases h; exact .inl ⟨rfl, _, rfl⟩
          · next hlong =>
            split at h
            · cases h; exact .inl ⟨rfl, _, rfl⟩
            · next hn =>
              cases h
              have hd := (directoryAt_eq_ok_iff.1 hl).2
              refine .inr ⟨rfl, ⟨l, hl⟩, ?_, rfl, ?_⟩
              · -- the steps would lead to the entry that is not there
                obtain ⟨k, hk⟩ := exists_follow_append hl
                have he := walk_child_of_none (k := k) hd hn
                rw [if_neg hlong] at he
                rw [List.map_append, List.map_singleton, hname, hk, he]
              · have hl' := hgrows.directoryAt hl
                obtain ⟨k, hk⟩ := exists_follow_append hl'
                have he : (w.put (name :: l) .directory).tree.find? (name :: l) =
                    some .directory := FileTree.find?_insert_self (by simp)
                have hw := walk_child (k := k) (directoryAt_eq_ok_iff.1 hl').2 he (by simp)
                refine ⟨name :: l, rfl, directoryAt_eq_ok_iff.2 ⟨?_, ?_⟩⟩
                · rw [List.map_append, List.map_singleton, hname, hk, hw]
                · simp [FileTree.isDirectory, he]
        · cases h; exact .inl ⟨rfl, _, rfl⟩

/-! ## All directories on the way -/

theorem makeDirectories_of_directoryAt {ms : List (Step × List UInt8)} (hp : Proper ms)
    (hr : ms ≠ [] → (pathOf ms).refusal? = none) (h : w.leadsToDirectory ms) :
    w.makeDirectories (prefixesOf ms).reverse = (w, .ok ()) := by
  induction ms using List.reverseRecOn with
  | nil => rfl
  | append_singleton first x ih =>
    have hleft : first ≠ [] → w.makeDirectories (prefixesOf first).reverse = (w, .ok ()) :=
      fun hf => ih hp.left (fun hf => hp.refusal?_left hf (hr (by simp)))
        (leadsToDirectory_left hp hf h)
    by_cases hc : Counts first x
    · have hd := (isDirectory_pathOf_iff hp (by simp) (hr (by simp))).2 h
      have houter : w.makeDirectories (prefixesOf first).reverse = (w, .ok ()) := by
        by_cases hf : first = []
        · subst hf
          rfl
        · exact hleft hf
      rcases hm : w.makeDirectory (pathOf (first ++ [x])) with ⟨v, r⟩
      rcases makeDirectory_cases hp hc hm with ⟨rfl, e, rfl⟩ | ⟨-, -, hn, -⟩
      · rw [prefixesOf_reverse_concat hc, makeDirectories, hm]
        cases e <;> simp only [houter, orDirectory, hm, hd, if_true]
      · exact absurd h (not_leadsToDirectory_of_follow hn)
    · obtain ⟨hf, hx⟩ := not_or.1 hc
      rw [prefixesOf_concat_here hf (not_not.1 hx)]
      exact hleft hf

theorem leadsToDirectory_of_orDirectory (hp : Proper (first ++ [x])) (hc : Counts first x)
    (hr : (pathOf (first ++ [x])).refusal? = none)
    (h : orDirectory (pathOf (first ++ [x])) (w.makeDirectory (pathOf (first ++ [x]))) =
      (v, .ok ())) : v.leadsToDirectory (first ++ [x]) := by
  rcases hm : w.makeDirectory (pathOf (first ++ [x])) with ⟨u, r⟩
  rw [hm] at h
  rcases makeDirectory_cases hp hc hm with ⟨rfl, e, rfl⟩ | ⟨rfl, -, -, -, l, -, hl⟩
  · unfold orDirectory at h
    dsimp only at h
    split at h
    · next hd =>
      cases h
      exact (isDirectory_pathOf_iff hp (by simp) hr).1 hd
    · cases h
  · cases h
    exact ⟨l, hl⟩

theorem not_leadsToDirectory_of_orDirectory {e : FileError} (hp : Proper (first ++ [x]))
    (hc : Counts first x) (hr : (pathOf (first ++ [x])).refusal? = none)
    (h : orDirectory (pathOf (first ++ [x])) (w.makeDirectory (pathOf (first ++ [x]))) =
      (v, .error e)) :
    v = w ∧ w.makeDirectory (pathOf (first ++ [x])) = (w, .error e) ∧
      ¬ v.leadsToDirectory (first ++ [x]) := by
  rcases hm : w.makeDirectory (pathOf (first ++ [x])) with ⟨u, r⟩
  rw [hm] at h
  rcases makeDirectory_cases hp hc hm with ⟨rfl, e, rfl⟩ | ⟨rfl, -⟩
  · unfold orDirectory at h
    dsimp only at h
    split at h
    · cases h
    · next hd =>
      cases h
      exact ⟨rfl, rfl, fun hl => hd ((isDirectory_pathOf_iff hp (by simp) hr).2 hl)⟩
  · cases h

/-- Making directories ends well exactly where a directory is there in the end. -/
theorem makeDirectories_leads {ms : List (Step × List UInt8)} {r : Except FileError Unit}
    (hp : Proper ms) (hm : ms ≠ []) (hr : (pathOf ms).refusal? = none)
    (h : w.makeDirectories (prefixesOf ms).reverse = (v, r)) :
    r = .ok () ∧ v.leadsToDirectory ms ∨ (∃ e, r = .error e) ∧ ¬ v.leadsToDirectory ms := by
  induction ms using List.reverseRecOn generalizing w v r with
  | nil => exact absurd rfl hm
  | append_singleton first x ih =>
    by_cases hc : Counts first x
    · have hlast : ∀ {u : Workspace}, orDirectory (pathOf (first ++ [x]))
          (u.makeDirectory (pathOf (first ++ [x]))) = (v, r) →
          r = .ok () ∧ v.leadsToDirectory (first ++ [x]) ∨
            (∃ e, r = .error e) ∧ ¬ v.leadsToDirectory (first ++ [x]) := by
        intro u hu
        rcases r with e | ⟨⟩
        · exact .inr ⟨⟨e, rfl⟩, (not_leadsToDirectory_of_orDirectory hp hc hr hu).2.2⟩
        · exact .inl ⟨rfl, leadsToDirectory_of_orDirectory hp hc hr hu⟩
      rw [prefixesOf_reverse_concat hc, makeDirectories] at h
      split at h
      · next w' hw =>
        rcases ho : w'.makeDirectories (prefixesOf first).reverse with ⟨u, e | ⟨⟩⟩
        · rw [ho] at h
          cases h
          by_cases hf : first = []
          · subst hf
            cases ho
          · rcases ih hp.left hf (hp.refusal?_left hf hr) ho with ⟨he, -⟩ | ⟨-, hn⟩
            · cases he
            · exact .inr ⟨⟨e, rfl⟩, fun hl => hn (leadsToDirectory_left hp hf hl)⟩
        · rw [ho] at h
          exact hlast h
      · exact hlast h
    · obtain ⟨hf, hx⟩ := not_or.1 hc
      have hx := not_not.1 hx
      rw [prefixesOf_concat_here hf hx] at h
      rcases ih hp.left hf (hp.refusal?_left hf hr) h with ⟨he, hl⟩ | ⟨he, hn⟩
      · exact .inl ⟨he, leadsToDirectory_concat_here hx hl⟩
      · exact .inr ⟨he, fun hl => hn (leadsToDirectory_left hp hf hl)⟩

theorem resolve_of_makeDirectory {r : Except FileError Unit} (hp : Proper (first ++ [x]))
    (hc : Counts first x) (h : w.makeDirectory (pathOf (first ++ [x])) = (v, r))
    (hl : v.tree.find? l ≠ w.tree.find? l) : v.resolve (pathOf (first ++ [x])) = .ok l := by
  rcases makeDirectory_cases hp hc h with ⟨rfl, -⟩ | ⟨-, -, -, hr, m, hv, hm⟩
  · exact absurd rfl hl
  · obtain rfl : l = m := by
      by_contra hne
      apply hl
      rw [hv]
      exact FileTree.find?_insert_of_ne hne
    exact resolve_pathOf hp (by simp) hr hm

theorem follow_of_makeDirectory_notFound (hp : Proper (first ++ [x])) (hc : Counts first x)
    (hr : (pathOf (first ++ [x])).refusal? = none)
    (h : w.makeDirectory (pathOf (first ++ [x])) = (v, .error .notFound)) :
    w.follow (first.map (·.1)) = .error .notFound := by
  by_cases hx : x.2 = []
  · obtain ⟨rfl, rfl⟩ := hc.eq_root hp hx
    cases h
  · unfold makeDirectory at h
    rw [lastStep?_pathOf hp hx, hr] at h
    unfold directoryAt at h
    cases hf : w.follow (first.map (·.1)) with
    | error e =>
      simp only [hf, bind, Except.bind, Except.map] at h
      cases h
      rfl
    | ok l =>
      simp only [hf, bind, Except.bind] at h
      cases hd : w.tree.isDirectory l with
      | false =>
        rw [hd] at h
        cases h
      | true =>
        simp only [hd, if_true, Except.map] at h
        split at h
        · next he => cases he
        · split at h
          · cases h
          · split at h <;> cases h
        · cases h

/-- Where a directory is made with all that are missing on the way to it, it was there before, or it
was not found. -/
theorem follow_of_makeDirectories {ms : List (Step × List UInt8)} (hp : Proper ms)
    (hr : ms ≠ [] → (pathOf ms).refusal? = none)
    (h : (w.makeDirectories (prefixesOf ms).reverse).1 = v) (hv : v.leadsToDirectory ms) :
    w.leadsToDirectory ms ∨ w.follow (ms.map (·.1)) = .error .notFound := by
  induction ms using List.reverseRecOn generalizing w v with
  | nil => subst h; exact .inl hv
  | append_singleton first x ih =>
    have hr' := hr (by simp)
    by_cases hc : Counts first x
    · rw [prefixesOf_reverse_concat hc, makeDirectories] at h
      split at h
      · next w' hw =>
        have hfirst := follow_of_makeDirectory_notFound hp hc hr' hw
        refine .inr ?_
        rw [List.map_append]
        exact FileTree.walk_append_error hfirst
      · rw [orDirectory_fst] at h
        rcases makeDirectory_cases hp hc (Prod.ext h rfl) with ⟨rfl, -⟩ | ⟨-, -, hn, -⟩
        · exact .inl hv
        · exact .inr hn
    · obtain ⟨hf, hx⟩ := not_or.1 hc
      have hx := not_not.1 hx
      rw [prefixesOf_concat_here hf hx] at h
      rcases ih hp.left (fun hf => hp.refusal?_left hf hr') h (leadsToDirectory_left hp hf hv) with
        hl | hn
      · exact .inl (leadsToDirectory_concat_here hx hl)
      · refine .inr ?_
        rw [List.map_append]
        exact FileTree.walk_append_error hn

/-- Every directory that is made is at the end of one of the paths in `prefixesOf ms`. -/
theorem exists_prefix_of_makeDirectories {ms : List (Step × List UInt8)} (hp : Proper ms)
    (h : (w.makeDirectories (prefixesOf ms).reverse).1 = v)
    (hl : v.tree.find? l ≠ w.tree.find? l) : ∃ q ∈ prefixesOf ms, v.resolve q = .ok l := by
  induction ms using List.reverseRecOn generalizing w v with
  | nil =>
    subst h
    exact absurd rfl hl
  | append_singleton first x ih =>
    by_cases hc : Counts first x
    · have hmem : ∀ q, q ∈ prefixesOf (first ++ [x]) ↔
          q = pathOf (first ++ [x]) ∨ q ∈ prefixesOf first := by
        intro q
        rw [← List.mem_reverse, prefixesOf_reverse_concat hc, List.mem_cons, List.mem_reverse]
      simp only [hmem]
      rw [prefixesOf_reverse_concat hc, makeDirectories] at h
      split at h
      · next w' hw =>
        rcases makeDirectory_cases hp hc hw with ⟨rfl, -⟩ | ⟨hok, -⟩
        · rcases ho : w'.makeDirectories (prefixesOf first).reverse with ⟨u, e | ⟨⟩⟩
          · rw [ho] at h
            subst h
            obtain ⟨q, hq, hres⟩ := ih hp.left (by rw [ho]) hl
            exact ⟨q, .inr hq, hres⟩
          · rw [ho, orDirectory_fst] at h
            rcases hm : u.makeDirectory (pathOf (first ++ [x])) with ⟨v', r⟩
            rw [hm] at h
            dsimp only at h
            subst h
            by_cases hu : u.tree.find? l = w'.tree.find? l
            · rw [← hu] at hl
              exact ⟨_, .inl rfl, resolve_of_makeDirectory hp hc hm hl⟩
            · obtain ⟨q, hq, hres⟩ := ih hp.left (by rw [ho]) hu
              exact ⟨q, .inr hq, (makeDirectory_grows hm).resolve hres⟩
        · cases hok
      · rw [orDirectory_fst] at h
        exact ⟨_, .inl rfl, resolve_of_makeDirectory hp hc (Prod.ext h rfl) hl⟩
    · obtain ⟨hf, hx⟩ := not_or.1 hc
      rw [prefixesOf_concat_here hf (not_not.1 hx)] at h ⊢
      exact ih hp.left h hl

/-- Where not all directories are made, either those on the way to the last one are not, or they are
and the last one is not, or nothing was made at all. -/
theorem makeDirectories_error_cases {e : FileError} (hp : Proper (first ++ [x]))
    (hc : Counts first x) (hr : (pathOf (first ++ [x])).refusal? = none)
    (h : w.makeDirectories (prefixesOf (first ++ [x])).reverse = (v, .error e)) :
    (∃ u : Workspace, u.makeDirectories (prefixesOf first).reverse = (v, .error e)) ∨
      (∃ u : Workspace, u.makeDirectories (prefixesOf first).reverse = (v, .ok ()) ∧
        v.makeDirectory (pathOf (first ++ [x])) = (v, .error e) ∧
        orDirectory (pathOf (first ++ [x])) (v, .error e) = (v, .error e)) ∨
      v = w := by
  rw [prefixesOf_reverse_concat hc, makeDirectories] at h
  split at h
  · next w' _ =>
    rcases ho : w'.makeDirectories (prefixesOf first).reverse with ⟨u, e' | ⟨⟩⟩
    · rw [ho] at h
      cases h
      exact .inl ⟨w', ho⟩
    · rw [ho] at h
      dsimp only at h
      obtain ⟨rfl, hlast, -⟩ := not_leadsToDirectory_of_orDirectory hp hc hr h
      rw [hlast] at h
      exact .inr (.inl ⟨w', ho, hlast, h⟩)
  · obtain ⟨rfl, -⟩ := not_leadsToDirectory_of_orDirectory hp hc hr h
    exact .inr (.inr rfl)

/-- Nothing is made the second time. -/
theorem makeDirectories_twice {ms : List (Step × List UInt8)} (hp : Proper ms)
    (hr : ms ≠ [] → (pathOf ms).refusal? = none)
    (h : (w.makeDirectories (prefixesOf ms).reverse).1 = v) :
    (v.makeDirectories (prefixesOf ms).reverse).1 = v := by
  induction ms using List.reverseRecOn generalizing w v with
  | nil => rfl
  | append_singleton first x ih =>
    have hr' := hr (by simp)
    rcases hall : w.makeDirectories (prefixesOf (first ++ [x])).reverse with ⟨v', r⟩
    rw [hall] at h
    subst h
    rcases makeDirectories_leads hp (by simp) hr' hall with ⟨-, hl⟩ | ⟨⟨e, rfl⟩, hn⟩
    · rw [makeDirectories_of_directoryAt hp hr hl]
    · by_cases hc : Counts first x
      · have hcons : (∃ e, v'.makeDirectory (pathOf (first ++ [x])) = (v', .error e)) →
            (v'.makeDirectories (prefixesOf first).reverse).1 = v' →
            (v'.makeDirectories (prefixesOf (first ++ [x])).reverse).1 = v' := by
          rintro ⟨e, he⟩ ho
          rw [prefixesOf_reverse_concat hc, makeDirectories, he]
          rcases hou : v'.makeDirectories (prefixesOf first).reverse with ⟨u, s⟩
          rw [hou] at ho
          dsimp only at ho
          subst ho
          cases e <;> cases s <;> simp only [hou, orDirectory_fst, he]
        have hagain : ∀ {u : Workspace} {s}, u.makeDirectories (prefixesOf first).reverse =
            (v', s) → (v'.makeDirectories (prefixesOf first).reverse).1 = v' :=
          fun ho => ih hp.left (fun hf => hp.refusal?_left hf hr') (by rw [ho])
        rcases makeDirectories_error_cases hp hc hr' hall with ⟨u, ho⟩ | ⟨u, ho, he, -⟩ | rfl
        · refine hcons ?_ (hagain ho)
          rcases hm : v'.makeDirectory (pathOf (first ++ [x])) with ⟨u', r⟩
          rcases makeDirectory_cases hp hc hm with ⟨rfl, e', rfl⟩ | ⟨-, hl, -⟩
          · exact ⟨e', rfl⟩
          · -- the outer directories were not all made
            by_cases hf : first = []
            · subst hf
              cases ho
            · rcases makeDirectories_leads hp.left hf (hp.refusal?_left hf hr') ho with
                ⟨he, -⟩ | ⟨-, hn'⟩
              · cases he
              · exact absurd hl hn'
        · exact hcons ⟨e, he⟩ (hagain ho)
        · rw [hall]
      · obtain ⟨hf, hx⟩ := not_or.1 hc
        rw [prefixesOf_concat_here hf (not_not.1 hx)] at hall ⊢
        exact ih hp.left (fun hf => hp.refusal?_left hf hr') (by rw [hall])

theorem makeDirectory_of_notFound (hp : Proper (first ++ [x])) (hx : x.2 ≠ [])
    (hr : (pathOf (first ++ [x])).refusal? = none)
    (hn : w.follow (first.map (·.1)) = .error .notFound) :
    w.makeDirectory (pathOf (first ++ [x])) = (w, .error .notFound) := by
  have hd : w.directoryAt (first.map (·.1)) = .error .notFound := by
    simp only [directoryAt, hn, bind, Except.bind]
  simp only [makeDirectory, lastStep?_pathOf hp hx, hr, hd, Except.map]

/-- Where the directories are not all made, and the path is not found afterwards either, the second
attempt fails with the same `e`. -/
theorem makeDirectories_again {ms : List (Step × List UInt8)} {e : FileError} (hp : Proper ms)
    (hr : ms ≠ [] → (pathOf ms).refusal? = none)
    (h : w.makeDirectories (prefixesOf ms).reverse = (v, .error e))
    (hn : v.follow (ms.map (·.1)) = .error .notFound) :
    v.makeDirectories (prefixesOf ms).reverse = (v, .error e) := by
  induction ms using List.reverseRecOn generalizing w with
  | nil => cases h
  | append_singleton first x ih =>
    have hr' := hr (by simp)
    have hrleft := fun hf => hp.refusal?_left hf hr'
    have hleft : first ≠ [] → ¬ v.leadsToDirectory first →
        v.follow (first.map (·.1)) = .error .notFound := by
      intro hf hl
      rw [List.map_append, List.map_singleton] at hn
      exact follow_left_of_notFound (hp.step_ne_root hf) hn fun l hd => hl ⟨l, hd⟩
    by_cases hc : Counts first x
    · rcases makeDirectories_error_cases hp hc hr' h with ⟨u, ho⟩ | ⟨u, ho, hlast, hor⟩ | rfl
      · have hf : first ≠ [] := by
          rintro rfl
          cases ho
        rcases makeDirectories_leads hp.left hf (hrleft hf) ho with ⟨he, -⟩ | ⟨-, hl⟩
        · cases he
        · -- the last directory has no place to be made in
          have houter := ih hp.left hrleft ho (hleft hf hl)
          have hx : x.2 ≠ [] := fun hx => hf (hc.eq_root hp hx).1
          have hlast := makeDirectory_of_notFound hp hx hr' (hleft hf hl)
          rw [prefixesOf_reverse_concat hc, makeDirectories, hlast]
          simp only [houter]
      · have houter : v.makeDirectories (prefixesOf first).reverse = (v, .ok ()) := by
          by_cases hf : first = []
          · subst hf
            rfl
          · rcases makeDirectories_leads hp.left hf (hrleft hf) ho with ⟨-, hl⟩ | ⟨⟨e', he⟩, -⟩
            · exact makeDirectories_of_directoryAt hp.left hrleft hl
            · cases he
        rw [prefixesOf_reverse_concat hc, makeDirectories, hlast]
        cases e <;> simp only [houter, hlast, hor]
      · exact h
    · obtain ⟨hf, hx⟩ := not_or.1 hc
      have hx := not_not.1 hx
      rw [prefixesOf_concat_here hf hx] at h ⊢
      refine ih hp.left hrleft h (hleft hf fun hl => ?_)
      obtain ⟨l, hl⟩ := leadsToDirectory_concat_here hx hl
      rw [(directoryAt_eq_ok_iff.1 hl).1] at hn
      cases hn

end

/-! ## The workspace with a directory made -/

/-- The workspace after the directories on a path are made as far as that goes. -/
def grown (w : Workspace) (p : PathName) : Workspace :=
  (w.makeDirectories p.prefixes.reverse).1

theorem grows_grown (w : Workspace) (p : PathName) : Grows w (w.grown p) :=
  makeDirectories_grows w _

/-- What is made in `w.grown p` is on the path. -/
theorem exists_prefix_of_grown (hl : (w.grown p).tree.find? l ≠ w.tree.find? l) :
    ∃ q ∈ p.prefixes, (w.grown p).resolve q = .ok l := by
  rw [← prefixesOf_inside]
  refine exists_prefix_of_makeDirectories (proper_inside p) ?_ hl
  rw [prefixesOf_inside, grown]

theorem grown_eq_self (hp : p.Passable) (h : w.directoryAt p.way = .ok l) : w.grown p = w := by
  rw [grown, ← prefixesOf_inside, makeDirectories_of_directoryAt (proper_inside p) hp ⟨l, h⟩]

theorem grown_grown (w : Workspace) (hp : p.Passable) : (w.grown p).grown p = w.grown p := by
  unfold grown
  rw [← prefixesOf_inside]
  exact makeDirectories_twice (proper_inside p) hp rfl

section
variable {f : FileName} {bytes : ByteArray}

theorem write_of_directoryAt (ha : (p.join f.raw).refusal? = none)
    (hl : w.directoryAt p.way = .ok l) :
    w.write (p.join f.raw) bytes = w.replaceFile (p.join f.raw) bytes := by
  have hm : w.makeDirectories p.prefixes.reverse = (w, .ok ()) := by
    rw [← prefixesOf_inside]
    exact makeDirectories_of_directoryAt (proper_inside p) (passable_of_join ha) ⟨l, hl⟩
  rw [write, directoriesOf_join, hm]

/-- A file is written as it is written after the missing directories are made. -/
theorem write_grown_of_directoryAt (ha : (p.join f.raw).refusal? = none)
    (hl : (w.grown p).directoryAt p.way = .ok l) :
    w.write (p.join f.raw) bytes = (w.grown p).write (p.join f.raw) bytes := by
  rw [write_of_directoryAt ha hl]
  have hp := passable_of_join ha
  rcases hm : w.makeDirectories p.prefixes.reverse with ⟨u, r⟩
  have hu : w.grown p = u := by rw [grown, hm]
  rw [hu] at hl ⊢
  suffices hr : r = .ok () by rw [write, directoriesOf_join, hm, hr]
  rw [← prefixesOf_inside] at hm
  by_cases hi : p.inside = []
  · rw [hi] at hm
    cases hm
    rfl
  · rcases makeDirectories_leads (proper_inside p) hi (hp hi) hm with ⟨hr, -⟩ | ⟨-, hn⟩
    · exact hr
    · exact absurd ⟨l, hl⟩ hn

theorem write_grown {existing : Option String}
    (h : (w.grown p).readNormalized? (p.join f.raw) = .ok existing) :
    w.write (p.join f.raw) bytes = (w.grown p).write (p.join f.raw) bytes := by
  have ha := accepted_of_readNormalized? h
  have hp := passable_of_join ha
  by_cases hd : ∃ l, (w.grown p).directoryAt p.way = .ok l
  · obtain ⟨l, hl⟩ := hd
    exact write_grown_of_directoryAt ha hl
  · have hnotFound : (w.grown p).follow (p.way ++ [.child f]) = .error .notFound := by
      cases hf : (w.grown p).follow (p.way ++ [.child f]) with
      | ok m => exact absurd (exists_directoryAt_of_follow hf) hd
      | error e =>
        have ht : (w.grown p).readText (p.join f.raw) = .error e := by
          simp [readText, resolve_join ha, hf, bind, Except.bind]
        rw [Workspace.readNormalized?, ht] at h
        cases e with
        | notFound => rfl
        | _ => cases h
    have hway : (w.grown p).follow p.way = .error .notFound :=
      follow_left_of_notFound (by simp) hnotFound fun l hl => hd ⟨l, hl⟩
    rcases hm : w.makeDirectories p.prefixes.reverse with ⟨u, r⟩
    have hu : w.grown p = u := by rw [grown, hm]
    rw [hu] at hd hway ⊢
    rw [write, write, directoriesOf_join, hm]
    suffices hagain : u.makeDirectories p.prefixes.reverse = (u, r) by rw [hagain]
    rw [← prefixesOf_inside] at hm ⊢
    by_cases hi : p.inside = []
    · rw [hi] at hm ⊢
      cases hm
      rfl
    · rcases makeDirectories_leads (proper_inside p) hi (hp hi) hm with ⟨-, hl⟩ | ⟨⟨e, rfl⟩, -⟩
      · exact absurd hl hd
      · exact makeDirectories_again (proper_inside p) hp hm hway

end

/-- All that the writing of a file in the directory at `p` can come to. -/
theorem write_join {f : FileName} {bytes : ByteArray} {r : Except FileError Unit}
    (h : w.write (p.join f.raw) bytes = (v, r)) :
    (v = w.grown p ∧ ∃ e, r = .error e) ∨
      (r = .ok () ∧ ∃ l, (w.grown p).directoryAt p.way = .ok l ∧
        (w.grown p).tree.find? (f :: l) ≠ some .directory ∧
        v = (w.grown p).put (f :: l) (.file bytes)) := by
  unfold write at h
  rw [directoriesOf_join] at h
  rcases hm : w.makeDirectories p.prefixes.reverse with ⟨u, e | ⟨⟩⟩
  · rw [hm] at h
    cases h
    exact .inl ⟨by rw [grown, hm], e, rfl⟩
  · rw [hm] at h
    have hu : w.grown p = u := by rw [grown, hm]
    rw [hu]
    exact replaceFile_join h

end Workspace

end AgentDocs.Files
