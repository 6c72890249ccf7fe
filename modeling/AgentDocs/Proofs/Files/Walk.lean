import AgentDocs.Proofs.Files.Join

/-!
# Walks

How a path is walked over a tree, as rules: `Leads t n here steps l` says that the steps lead from
`here` to `l` with at most `n` links followed. All facts about successful walks are proved by
induction on it.

* `walk_eq_ok_iff`: a walk succeeds exactly where the rules lead.
* `Leads.walk_append`, `walk_append_ok`: a walk along two lists of steps is a walk along the first
  and then one along the second.
* `Leads.walk_eq_or`: the number of links that may be followed only cuts a walk off.
* `walk_congr`: a walk sees directories, links and names, and nothing of the bytes of files.
* `Leads.walk_of_kept`: a walk that succeeds also succeeds in every tree that keeps the directories
  and what the walk looks at (`FileTree.visited`).
* `Leads.exists_directory_of_mem_visited`: a walk to a directory looks at what leads to directories.
-/

namespace AgentDocs.Files

/-- Results of operations on files are compared by what they hold. -/
instance decidableEqExcept {ε α : Type} [DecidableEq ε] [DecidableEq α] : DecidableEq (Except ε α)
  | .ok a, .ok b =>
    if h : a = b then isTrue (h ▸ rfl) else isFalse fun e => h (by cases e; rfl)
  | .error a, .error b =>
    if h : a = b then isTrue (h ▸ rfl) else isFalse fun e => h (by cases e; rfl)
  | .ok _, .error _ => isFalse (by simp)
  | .error _, .ok _ => isFalse (by simp)

namespace FileTree

/-- The walk that goes on behind a link where `n` links may be followed. -/
def walkOn (t : FileTree) : Nat → Location → List Step → Except FileError Location
  | 0 => fun _ _ => .error .tooManyLinks
  | links + 1 => t.walk links

theorem walk_eq (t : FileTree) (n : Nat) : t.walk n = t.walkWith (t.walkOn n) := by
  cases n <;> rfl

/-! ## The rules of walks -/

/-- Steps lead from one location to another with at most so many links followed. -/
inductive Leads (t : FileTree) : Nat → Location → List Step → Location → Prop
  | done {n : Nat} {here : Location} : Leads t n here [] here
  | root {n : Nat} {here l : Location} {rest : List Step} :
      Leads t n [] rest l → Leads t n here (.root :: rest) l
  | stay {n : Nat} {here l : Location} {rest : List Step} :
      t.isDirectory here = true → Leads t n here rest l → Leads t n here (.here :: rest) l
  | up {n : Nat} {here l : Location} {rest : List Step} :
      t.isDirectory here = true → Leads t n here.tail rest l → Leads t n here (.up :: rest) l
  | into {n : Nat} {here l : Location} {rest : List Step} {name : FileName} {e : Entry} :
      t.isDirectory here = true → t.find? (name :: here) = some e →
      (∀ target, e ≠ .link target) → Leads t n (name :: here) rest l →
      Leads t n here (.child name :: rest) l
  | link {n : Nat} {here l : Location} {rest : List Step} {name : FileName} {target : RawText} :
      t.isDirectory here = true → t.find? (name :: here) = some (.link target) →
      Leads t n here ((PathName.mk target).moves ++ rest) l →
      Leads t (n + 1) here (.child name :: rest) l

variable {t u : FileTree} {n : Nat} {here l m : Location} {steps rest : List Step}

theorem Leads.walk (h : Leads t n here steps l) : t.walk n here steps = .ok l := by
  induction h with
  | done => simp [walk_eq, walkWith]
  | root _ ih => rw [walk_eq] at ih ⊢; simpa [walkWith] using ih
  | stay hd _ ih => rw [walk_eq] at ih ⊢; simpa [walkWith, hd] using ih
  | up hd _ ih => rw [walk_eq] at ih ⊢; simpa [walkWith, hd] using ih
  | @into _ _ _ _ _ e hd he hl _ ih =>
    rw [walk_eq] at ih ⊢
    cases e with
    | link target => exact absurd rfl (hl target)
    | file bytes => simpa [walkWith, hd, he] using ih
    | directory => simpa [walkWith, hd, he] using ih
  | link hd he _ ih => rw [walk_eq]; simpa [walkWith, walkOn, hd, he] using ih

theorem leads_of_walkWith {follow : Location → List Step → Except FileError Location}
    (hf : ∀ name target here rest l, t.isDirectory here = true →
      t.find? (name :: here) = some (.link target) →
      follow here ((PathName.mk target).moves ++ rest) = .ok l →
      Leads t n here (.child name :: rest) l)
    (h : t.walkWith follow here steps = .ok l) : Leads t n here steps l := by
  induction steps generalizing here with
  | nil => cases h; exact .done
  | cons step rest ih =>
    cases step with
    | root => exact .root (ih h)
    | here =>
      simp only [walkWith] at h
      cases hd : t.isDirectory here with
      | false => simp [hd] at h
      | true => exact .stay hd (ih (by simpa [hd] using h))
    | up =>
      simp only [walkWith] at h
      cases hd : t.isDirectory here with
      | false => simp [hd] at h
      | true => exact .up hd (ih (by simpa [hd] using h))
    | child name =>
      simp only [walkWith] at h
      cases hd : t.isDirectory here with
      | false => simp [hd] at h
      | true =>
        simp only [hd, Bool.not_true, Bool.false_eq_true, if_false] at h
        cases he : t.find? (name :: here) with
        | none => simp [he] at h
        | some e =>
          rw [he] at h
          cases e with
          | link target => exact hf _ _ _ _ _ hd he h
          | file bytes => exact .into hd he (by simp) (ih h)
          | directory => exact .into hd he (by simp) (ih h)

theorem leads_of_walk (h : t.walk n here steps = .ok l) : Leads t n here steps l := by
  induction n generalizing here steps l with
  | zero => exact leads_of_walkWith (fun _ _ _ _ _ _ _ h => by cases h) h
  | succ n ih => exact leads_of_walkWith (fun _ _ _ _ _ hd he h => .link hd he (ih h)) h

theorem walk_eq_ok_iff : t.walk n here steps = .ok l ↔ Leads t n here steps l :=
  ⟨leads_of_walk, Leads.walk⟩

/-! ## Walks one after the other -/

/-- The number `k` of links that are left after the first walk does not depend on the second one. -/
theorem Leads.walk_append (h : Leads t n here steps l) :
    ∃ k, ∀ more, t.walk n here (steps ++ more) = t.walk k l more := by
  induction h with
  | @done n _ => exact ⟨n, fun _ => rfl⟩
  | @root n _ _ _ _ ih =>
    obtain ⟨k, hk⟩ := ih
    exact ⟨k, fun more => by rw [← hk, walk_eq]; simp [walkWith]⟩
  | @stay n _ _ _ hd _ ih =>
    obtain ⟨k, hk⟩ := ih
    exact ⟨k, fun more => by rw [← hk, walk_eq]; simp [walkWith, hd]⟩
  | @up n _ _ _ hd _ ih =>
    obtain ⟨k, hk⟩ := ih
    exact ⟨k, fun more => by rw [← hk, walk_eq]; simp [walkWith, hd]⟩
  | @into n _ _ _ _ e hd he hl _ ih =>
    obtain ⟨k, hk⟩ := ih
    refine ⟨k, fun more => ?_⟩
    rw [← hk, walk_eq]
    cases e with
    | link target => exact absurd rfl (hl target)
    | file bytes => simp [walkWith, hd, he]
    | directory => simp [walkWith, hd, he]
  | link hd he _ ih =>
    obtain ⟨k, hk⟩ := ih
    refine ⟨k, fun more => ?_⟩
    rw [← hk, walk_eq]
    simp [walkWith, hd, he, walkOn, List.append_assoc]

theorem walk_append_ok {first more : List Step} (h : t.walk n here (first ++ more) = .ok m) :
    ∃ l, t.walk n here first = .ok l := by
  rw [walk_eq_ok_iff] at h
  generalize hs : first ++ more = steps at h
  induction h generalizing first with
  | done => exact ⟨_, by rw [(List.append_eq_nil_iff.1 hs).1]; exact Leads.done.walk⟩
  | root _ ih =>
    cases first with
    | nil => exact ⟨_, Leads.done.walk⟩
    | cons step first =>
      cases hs
      obtain ⟨l, hl⟩ := ih rfl
      exact ⟨l, (Leads.root (leads_of_walk hl)).walk⟩
  | stay hd _ ih =>
    cases first with
    | nil => exact ⟨_, Leads.done.walk⟩
    | cons step first =>
      cases hs
      obtain ⟨l, hl⟩ := ih rfl
      exact ⟨l, (Leads.stay hd (leads_of_walk hl)).walk⟩
  | up hd _ ih =>
    cases first with
    | nil => exact ⟨_, Leads.done.walk⟩
    | cons step first =>
      cases hs
      obtain ⟨l, hl⟩ := ih rfl
      exact ⟨l, (Leads.up hd (leads_of_walk hl)).walk⟩
  | into hd he hn _ ih =>
    cases first with
    | nil => exact ⟨_, Leads.done.walk⟩
    | cons step first =>
      cases hs
      obtain ⟨l, hl⟩ := ih rfl
      exact ⟨l, (Leads.into hd he hn (leads_of_walk hl)).walk⟩
  | link hd he _ ih =>
    cases first with
    | nil => exact ⟨_, Leads.done.walk⟩
    | cons step first =>
      cases hs
      obtain ⟨l, hl⟩ := ih (List.append_assoc _ _ _)
      exact ⟨l, (Leads.link hd he (leads_of_walk hl)).walk⟩

theorem walkWith_append_error {follow : Location → List Step → Except FileError Location}
    {first more : List Step} {e : FileError}
    (hf : ∀ here steps, follow here steps = .error e → follow here (steps ++ more) = .error e)
    (h : t.walkWith follow here first = .error e) :
    t.walkWith follow here (first ++ more) = .error e := by
  induction first generalizing here with
  | nil => cases h
  | cons step rest ih =>
    cases step with
    | root => exact ih h
    | here =>
      cases hd : t.isDirectory here with
      | false => simpa [walkWith, hd] using h
      | true => simpa [walkWith, hd] using ih (by simpa [walkWith, hd] using h)
    | up =>
      cases hd : t.isDirectory here with
      | false => simpa [walkWith, hd] using h
      | true => simpa [walkWith, hd] using ih (by simpa [walkWith, hd] using h)
    | child name =>
      cases hd : t.isDirectory here with
      | false => simpa [walkWith, hd] using h
      | true =>
        simp only [walkWith, hd, Bool.not_true, Bool.false_eq_true, if_false,
          List.cons_append] at h ⊢
        cases he : t.find? (name :: here) with
        | none =>
          rw [he] at h
          exact h
        | some e' =>
          rw [he] at h
          cases e' with
          | link target =>
            dsimp only at h ⊢
            rw [← List.append_assoc]
            exact hf _ _ h
          | file bytes => exact ih h
          | directory => exact ih h

theorem walk_append_error {first more : List Step} {e : FileError}
    (h : t.walk n here first = .error e) : t.walk n here (first ++ more) = .error e := by
  induction n generalizing here first with
  | zero => exact walkWith_append_error (fun _ _ h => h) h
  | succ n ih => exact walkWith_append_error (fun _ _ h => ih h) h

theorem walk_of_not_isDirectory {step : Step} (hs : step ≠ .root)
    (hd : t.isDirectory here = false) :
    t.walk n here (step :: rest) = .error .notDirectory := by
  rw [walk_eq]
  cases step with
  | root => exact absurd rfl hs
  | here => simp [walkWith, hd]
  | up => simp [walkWith, hd]
  | child name => simp [walkWith, hd]

/-- A walk that starts on no directory goes nowhere, unless it starts over at the root. -/
theorem Leads.eq_of_not_isDirectory (h : Leads t n here steps l) (hr : .root ∉ steps)
    (hd : t.isDirectory here = false) : steps = [] ∧ l = here := by
  cases h with
  | done => exact ⟨rfl, rfl⟩
  | root => exact absurd List.mem_cons_self hr
  | stay h => rw [hd] at h; cases h
  | up h => rw [hd] at h; cases h
  | into h => rw [hd] at h; cases h
  | link h => rw [hd] at h; cases h

theorem Leads.isDirectory (h : Leads t n here steps l) (hr : .root ∉ steps)
    (hl : t.isDirectory l = true) : t.isDirectory here = true := by
  cases hd : t.isDirectory here with
  | true => rfl
  | false =>
    obtain ⟨-, rfl⟩ := h.eq_of_not_isDirectory hr hd
    rw [hd] at hl
    cases hl

/-- With `k` links to follow instead of `n`, a walk leads to the same place or is cut off. -/
theorem Leads.walk_eq_or (h : Leads t n here steps l) (k : Nat) :
    t.walk k here steps = .ok l ∨ t.walk k here steps = .error .tooManyLinks := by
  induction h generalizing k with
  | done => exact .inl Leads.done.walk
  | root _ ih =>
    have := ih k
    rw [walk_eq] at this ⊢
    exact this
  | stay hd _ ih =>
    have := ih k
    rw [walk_eq] at this ⊢
    simpa [walkWith, hd] using this
  | up hd _ ih =>
    have := ih k
    rw [walk_eq] at this ⊢
    simpa [walkWith, hd] using this
  | @into _ _ _ _ _ e hd he hn _ ih =>
    have := ih k
    rw [walk_eq] at this ⊢
    cases e with
    | link target => exact absurd rfl (hn target)
    | file bytes => simpa [walkWith, hd, he] using this
    | directory => simpa [walkWith, hd, he] using this
  | link hd he _ ih =>
    cases k with
    | zero => exact .inr (by rw [walk_eq]; simp [walkWith, hd, he, walkOn])
    | succ k =>
      have := ih k
      rw [walk_eq t (k + 1)]
      simpa [walkWith, hd, he, walkOn] using this

/-! ## Walks in other trees -/

/-- What stands at a location, up to the bytes of a file. -/
def outline? (t : FileTree) (l : Location) : Option Entry :=
  (t.find? l).map fun e => match e with
    | .file _ => .file .empty
    | e => e

/-- Two trees have the same directories, links and file names. -/
def SameOutline (t u : FileTree) : Prop := ∀ l, t.outline? l = u.outline? l

theorem isDirectory_eq_outline (t : FileTree) (l : Location) :
    t.isDirectory l = (t.outline? l == some .directory) := by
  unfold isDirectory outline?
  rcases t.find? l with _ | e
  · rfl
  · cases e <;> rfl

theorem SameOutline.isDirectory (h : SameOutline t u) (l : Location) :
    t.isDirectory l = u.isDirectory l := by
  rw [isDirectory_eq_outline, isDirectory_eq_outline, h l]

theorem SameOutline.find? (h : SameOutline t u) (l : Location) :
    t.find? l = u.find? l ∨
      ∃ a b, t.find? l = some (.file a) ∧ u.find? l = some (.file b) := by
  have hl := h l
  unfold outline? at hl
  rcases ht : t.find? l with _ | a <;> rcases hu : u.find? l with _ | b <;>
    simp only [ht, hu, Option.map_none, Option.map_some] at hl
  · exact .inl rfl
  · cases hl
  · cases hl
  · cases a <;> cases b <;> simp_all

theorem walkWith_congr (h : SameOutline t u)
    {follow go : Location → List Step → Except FileError Location}
    (hf : ∀ here steps, follow here steps = go here steps) (here : Location) (steps : List Step) :
    t.walkWith follow here steps = u.walkWith go here steps := by
  induction steps generalizing here with
  | nil => rfl
  | cons step rest ih =>
    cases step with
    | root => exact ih []
    | here => simp only [walkWith, h.isDirectory here, ih]
    | up => simp only [walkWith, h.isDirectory here, ih]
    | child name =>
      simp only [walkWith, h.isDirectory here]
      rcases h.find? (name :: here) with he | ⟨a, b, ha, hb⟩
      · simp only [he, hf, ih]
      · simp only [ha, hb, ih]

theorem walk_congr (h : SameOutline t u) (n : Nat) (here : Location) (steps : List Step) :
    t.walk n here steps = u.walk n here steps := by
  induction n generalizing here steps with
  | zero => exact walkWith_congr h (fun _ _ => rfl) here steps
  | succ n ih => exact walkWith_congr h (fun here steps => ih here steps) here steps

/-! ## What a walk looks at -/

/-- The locations that a walk looks at, where `follow` gives those behind a link. -/
def visitedWith (t : FileTree) (follow : Location → List Step → List Location)
    (here : Location) : List Step → List Location
  | [] => []
  | .root :: rest => t.visitedWith follow [] rest
  | .here :: rest => t.visitedWith follow here rest
  | .up :: rest => t.visitedWith follow here.tail rest
  | .child name :: rest =>
    (name :: here) ::
      match t.find? (name :: here) with
      | some (.link target) => follow here ((PathName.mk target).moves ++ rest)
      | _ => t.visitedWith follow (name :: here) rest

/-- The locations of the entries that a walk looks at, with at most `links` links followed. -/
def visited (t : FileTree) : Nat → Location → List Step → List Location
  | 0 => t.visitedWith fun _ _ => []
  | links + 1 => t.visitedWith (t.visited links)

/-- The entries that the walk behind a link looks at. -/
def visitedOn (t : FileTree) : Nat → Location → List Step → List Location
  | 0 => fun _ _ => []
  | links + 1 => t.visited links

theorem visited_eq (t : FileTree) (n : Nat) : t.visited n = t.visitedWith (t.visitedOn n) := by
  cases n <;> rfl

theorem Leads.isSome_of_mem_visited (h : Leads t n here steps l) :
    ∀ m ∈ t.visited n here steps, (t.find? m).isSome = true := by
  induction h with
  | done => intro m hm; rw [visited_eq] at hm; cases hm
  | root _ ih => rw [visited_eq] at ih ⊢; exact ih
  | stay _ _ ih => rw [visited_eq] at ih ⊢; exact ih
  | up _ _ ih => rw [visited_eq] at ih ⊢; exact ih
  | @into _ _ _ _ _ e _ he hn _ ih =>
    rw [visited_eq, visitedWith, List.forall_mem_cons]
    refine ⟨by rw [he]; rfl, ?_⟩
    rw [visited_eq] at ih
    cases e with
    | link target => exact absurd rfl (hn target)
    | file bytes => simpa [he] using ih
    | directory => simpa [he] using ih
  | link _ he _ ih =>
    rw [visited_eq, visitedWith, List.forall_mem_cons]
    refine ⟨by rw [he]; rfl, ?_⟩
    simpa [he, visitedOn] using ih

theorem root_notMem_tail_append {first more : List Step} (hf : .root ∉ first.tail)
    (hm : .root ∉ more) : .root ∉ (first ++ more).tail := by
  cases first with
  | nil => exact fun h => hm (List.mem_of_mem_tail h)
  | cons step first =>
    rw [List.cons_append, List.tail_cons, List.mem_append]
    exact fun h => h.elim hf hm

/-- A walk to a directory looks at nothing that does not lead to a directory itself. -/
theorem Leads.exists_directory_of_mem_visited (h : Leads t n here steps l)
    (hl : t.isDirectory l = true) (hr : .root ∉ steps.tail) {dir : Location} {name : FileName}
    (hm : name :: dir ∈ t.visited n here steps) :
    ∃ k d, Leads t k dir [.child name] d ∧ t.isDirectory d = true := by
  induction h with
  | done => rw [visited_eq] at hm; cases hm
  | root _ ih =>
    rw [visited_eq] at ih hm
    exact ih hl (fun h => hr (List.mem_of_mem_tail h)) hm
  | stay _ _ ih =>
    rw [visited_eq] at ih hm
    exact ih hl (fun h => hr (List.mem_of_mem_tail h)) hm
  | up _ _ ih =>
    rw [visited_eq] at ih hm
    exact ih hl (fun h => hr (List.mem_of_mem_tail h)) hm
  | @into n here _ rest _ e hd he hn hrest ih =>
    rw [visited_eq, visitedWith, he] at hm
    rcases List.mem_cons.1 hm with hm | hm
    · cases hm
      exact ⟨n, _, .into hd he hn .done, hrest.isDirectory hr hl⟩
    · refine ih hl (fun h => hr (List.mem_of_mem_tail h)) ?_
      rw [visited_eq]
      cases e with
      | link target => exact absurd rfl (hn target)
      | file bytes => exact hm
      | directory => exact hm
  | @link n here _ rest name' target hd he hrest ih =>
    rw [visited_eq, visitedWith, he] at hm
    rcases List.mem_cons.1 hm with hm | hm
    · cases hm
      obtain ⟨d, hd'⟩ := walk_append_ok hrest.walk
      obtain ⟨k, hk⟩ := (leads_of_walk hd').walk_append
      refine ⟨n + 1, d, .link hd he (by simpa using leads_of_walk hd'), ?_⟩
      exact (leads_of_walk ((hk rest).symm.trans hrest.walk)).isDirectory hr hl
    · exact ih hl (root_notMem_tail_append (PathName.root_notMem_tail_moves _) hr) hm

/-- A walk is repeated in `u` if that keeps the directories and all that the walk looks at. -/
theorem Leads.walk_of_kept (h : Leads t n here steps l)
    (hd : ∀ m, t.isDirectory m = true → u.isDirectory m = true)
    (hv : ∀ m ∈ t.visited n here steps, u.find? m = t.find? m) :
    Leads u n here steps l := by
  induction h with
  | done => exact .done
  | root _ ih => exact .root (ih (by rw [visited_eq] at hv ⊢; simpa [visitedWith] using hv))
  | stay h _ ih =>
    exact .stay (hd _ h) (ih (by rw [visited_eq] at hv ⊢; simpa [visitedWith] using hv))
  | up h _ ih =>
    exact .up (hd _ h) (ih (by rw [visited_eq] at hv ⊢; simpa [visitedWith] using hv))
  | @into _ _ _ _ _ e h he hn _ ih =>
    rw [visited_eq, visitedWith, List.forall_mem_cons] at hv
    refine .into (hd _ h) (hv.1.trans he) hn (ih ?_)
    rw [visited_eq]
    cases e with
    | link target => exact absurd rfl (hn target)
    | file bytes => simpa [he] using hv.2
    | directory => simpa [he] using hv.2
  | link h he _ ih =>
    rw [visited_eq, visitedWith, List.forall_mem_cons] at hv
    exact .link (hd _ h) (hv.1.trans he) (ih (by simpa [he, visitedOn] using hv.2))

/-! ## Files in place of links -/

/-- A walk to a directory in a tree `u` where files may stand in place of links: it is repeated, or
it is stopped by one of these files, and then no path goes on behind it. -/
theorem Leads.append_or_stopped (h : Leads t n here steps l) (hl : t.isDirectory l = true)
    (hr : .root ∉ steps.tail)
    (hu : ∀ m e, t.find? m = some e → (∀ b, e ≠ .file b) → u.find? m = some e ∨
      (∃ target, e = .link target) ∧ ∃ b, u.find? m = some (.file b)) :
    (∃ k, ∀ more, u.walk n here (steps ++ more) = u.walk k l more) ∨
      (∃ m target b, t.find? m = some (.link target) ∧ u.find? m = some (.file b)) ∧
        ∀ more, .root ∉ more → more ≠ [] →
          u.walk n here (steps ++ more) = .error .notDirectory := by
  have hdir : ∀ m, t.isDirectory m = true → u.isDirectory m = true := by
    intro m hm
    rcases hu m .directory (by simpa [FileTree.isDirectory] using hm) (by simp) with hm | hm
    · simp [FileTree.isDirectory, hm]
    · simp at hm
  induction h with
  | @done n _ => exact .inl ⟨n, fun _ => rfl⟩
  | @root n _ _ rest _ ih =>
    rcases ih hl (fun h => hr (List.mem_of_mem_tail h)) with ⟨k, hk⟩ | ⟨hm, hs⟩
    · exact .inl ⟨k, fun more => by rw [← hk, walk_eq]; simp [walkWith]⟩
    · refine .inr ⟨hm, fun more h1 h2 => ?_⟩
      rw [← hs more h1 h2, walk_eq]; simp [walkWith]
  | @stay n _ _ rest hd _ ih =>
    rcases ih hl (fun h => hr (List.mem_of_mem_tail h)) with ⟨k, hk⟩ | ⟨hm, hs⟩
    · exact .inl ⟨k, fun more => by rw [← hk, walk_eq]; simp [walkWith, hdir _ hd]⟩
    · refine .inr ⟨hm, fun more h1 h2 => ?_⟩
      rw [← hs more h1 h2, walk_eq]; simp [walkWith, hdir _ hd]
  | @up n _ _ rest hd _ ih =>
    rcases ih hl (fun h => hr (List.mem_of_mem_tail h)) with ⟨k, hk⟩ | ⟨hm, hs⟩
    · exact .inl ⟨k, fun more => by rw [← hk, walk_eq]; simp [walkWith, hdir _ hd]⟩
    · refine .inr ⟨hm, fun more h1 h2 => ?_⟩
      rw [← hs more h1 h2, walk_eq]; simp [walkWith, hdir _ hd]
  | @into n here _ rest name e hd he hn hrest ih =>
    cases e with
    | link target => exact absurd rfl (hn target)
    | file b =>
      -- a file on the way would be the end of it, and the end is a directory
      have hf : t.isDirectory (name :: here) = false := by simp [FileTree.isDirectory, he]
      obtain ⟨-, rfl⟩ := hrest.eq_of_not_isDirectory hr hf
      rw [hf] at hl; cases hl
    | directory =>
      have he' : u.find? (name :: here) = some .directory := by
        rcases hu _ _ he (by simp) with h | ⟨⟨_, h⟩, -⟩
        · exact h
        · cases h
      rcases ih hl (fun h => hr (List.mem_of_mem_tail h)) with ⟨k, hk⟩ | ⟨hm, hs⟩
      · exact .inl ⟨k, fun more => by rw [← hk, walk_eq]; simp [walkWith, hdir _ hd, he']⟩
      · refine .inr ⟨hm, fun more h1 h2 => ?_⟩
        rw [← hs more h1 h2, walk_eq]; simp [walkWith, hdir _ hd, he']
  | @link n here _ rest name target hd he _ ih =>
    rcases hu _ _ he (by simp) with he' | ⟨-, b, hb⟩
    · have hr' : .root ∉ ((PathName.mk target).moves ++ rest).tail :=
        root_notMem_tail_append (PathName.root_notMem_tail_moves _) hr
      rcases ih hl hr' with ⟨k, hk⟩ | ⟨hm, hs⟩
      · refine .inl ⟨k, fun more => ?_⟩
        rw [← hk, walk_eq]
        simp [walkWith, hdir _ hd, he', walkOn, List.append_assoc]
      · refine .inr ⟨hm, fun more h1 h2 => ?_⟩
        rw [← hs more h1 h2, walk_eq]
        simp [walkWith, hdir _ hd, he', walkOn, List.append_assoc]
    · refine .inr ⟨⟨_, _, _, he, hb⟩, fun more h1 h2 => ?_⟩
      have hf : u.isDirectory (name :: here) = false := by simp [FileTree.isDirectory, hb]
      rw [walk_eq]
      simp only [List.cons_append, walkWith, hdir _ hd, hb, Bool.not_true, Bool.false_eq_true,
        if_false]
      cases hrm : rest ++ more with
      | nil => exact absurd (List.append_eq_nil_iff.1 hrm).2 h2
      | cons step more' =>
        cases step with
        | root =>
          have : Step.root ∈ rest ++ more := by rw [hrm]; exact List.mem_cons_self
          rcases List.mem_append.1 this with h | h
          · exact absurd h hr
          · exact absurd h h1
        | here => simp [walkWith, hf]
        | up => simp [walkWith, hf]
        | child name => simp [walkWith, hf]

end FileTree

end AgentDocs.Files
