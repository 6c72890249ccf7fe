import AgentDocs.Proofs.Template.Targets

/-!
# The depth of inclusions

The limit on the depth of inclusions is all that stops an expansion. Where every directive names a
file that can be read, a text expands exactly if no chain of inclusions is longer than the limit,
and otherwise it is too deep. Where inclusions go round in a circle nothing expands, whatever the
limit is. A higher limit changes nothing but the results that were too deep.

* `exists_error_of_chain`, `expandAt_of_not_chain`: chains decide whether a text expands.
* `expand_ok_iff_chains`: the limit and the chains, and circles of inclusions.
* `expandAt_deeper`, `expand_raised`: two limits.
-/

namespace AgentDocs.Template

open AgentDocs.Files AgentDocs.Text

/-! ## Chains of inclusions -/

/-- A text starts a chain of so many inclusions, each in the text that the one before includes. -/
inductive Chain (w : Workspace) (root : PathName) : Nat → List Char → Prop
  | stop (text : List Char) : Chain w root 0 text
  | into {n : Nat} {text inner : List Char} :
      Includes w root text inner → Chain w root n inner → Chain w root (n + 1) text

section
variable {w : Workspace} {root : PathName} {m n : Nat} {text inner : List Char}

theorem Chain.mono (h : Chain w root n text) (hm : m ≤ n) : Chain w root m text := by
  induction h generalizing m with
  | stop text =>
    obtain rfl := Nat.le_zero.1 hm
    exact .stop text
  | into hi _ ih =>
    cases m with
    | zero => exact .stop _
    | succ m => exact .into hi (ih (Nat.le_of_succ_le_succ hm))

theorem Chain.of_reaches (h : Relation.ReflTransGen (Includes w root) text inner)
    (hc : Chain w root n inner) : Chain w root n text := by
  induction h using Relation.ReflTransGen.head_induction_on with
  | refl => exact hc
  | head hi _ ih => exact (Chain.into hi ih).mono (Nat.le_succ n)

/-- A `text` on a circle of inclusions starts chains of every length `n`. -/
theorem Chain.of_circle (h : Relation.TransGen (Includes w root) text text) (n : Nat) :
    Chain w root n text := by
  obtain ⟨inner, hi, hback⟩ := Relation.TransGen.head'_iff.1 h
  induction n with
  | zero => exact .stop text
  | succ n ih => exact .into hi (.of_reaches hback ih)

/-! ## Chains and expansions -/

variable {limit levels : Nat} {origin : List Char}

/-- A `text` does not expand where a chain of inclusions uses up all `levels`. -/
theorem exists_error_of_chain (h : Chain w root levels text) :
    ∃ e, expandAt w root limit levels origin text = .error e := by
  induction levels generalizing origin text with
  | zero => exact ⟨_, rfl⟩
  | succ levels ih =>
    cases h with
    | into hi hc =>
      obtain ⟨target, htarget, hnames⟩ := hi
      obtain ⟨e, he⟩ : ∃ e, expandAt w root limit levels (trim target) _ = .error e := ih hc
      cases hout : expandAt w root limit (levels + 1) origin text with
      | error e => exact ⟨e, rfl⟩
      | ok out =>
        have hnone := failure?_expandAt w root limit levels origin text
        rw [hout] at hnone
        have htarget := List.findSome?_eq_none_iff.1 hnone.symm target htarget
        rw [included_of_names hnames, he] at htarget
        cases htarget

/-- Every text that is reached from a text by inclusions has its directives answered. -/
def AllAnswered (w : Workspace) (root : PathName) (text : List Char) : Prop :=
  ∀ inner, Relation.ReflTransGen (Includes w root) text inner → IsAnswered w root inner

theorem AllAnswered.of_includes (h : AllAnswered w root text) (hi : Includes w root text inner) :
    AllAnswered w root inner :=
  fun _ hr => h _ (.head hi hr)

/-- Where all directives are answered, only a chain that uses up all `levels` stops an expansion. -/
theorem expandAt_of_not_chain (ha : AllAnswered w root text) (hc : ¬ Chain w root levels text) :
    ∃ out, expandAt w root limit levels origin text = .ok out := by
  induction levels generalizing origin text with
  | zero => exact absurd (.stop text) hc
  | succ levels ih =>
    rw [← failure?_eq_none_iff, failure?_expandAt, List.findSome?_eq_none_iff]
    intro target htarget
    obtain ⟨inner, hnames⟩ := ha text .refl target htarget
    have hi : Includes w root text inner := ⟨target, htarget, hnames⟩
    rw [included_of_names hnames, failure?_eq_none_iff]
    exact ih (ha.of_includes hi) fun hinner => hc (.into hi hinner)

theorem depthExceeded_of_answered (ha : AllAnswered w root text) {e : Error}
    (h : expandAt w root limit levels origin text = .error e) :
    ∃ path, e = .depthExceeded path limit := by
  induction levels generalizing origin text with
  | zero =>
    cases h
    exact ⟨_, rfl⟩
  | succ levels ih =>
    rw [← failure?_eq_some_iff, failure?_expandAt] at h
    obtain ⟨target, htarget, hfail⟩ := List.exists_of_findSome?_eq_some h
    obtain ⟨inner, hnames⟩ := ha text .refl target htarget
    rw [included_of_names hnames, failure?_eq_some_iff] at hfail
    exact ih (ha.of_includes ⟨target, htarget, hnames⟩) hfail

end

/-- Where every directive that is reached from a text names a file that can be read, the text
expands exactly if no chain of inclusions that it starts is longer than the limit, and otherwise it
fails for being too deep. A text from which inclusions lead into a circle expands for no limit,
whatever its other directives name: there is a failure for each. -/
theorem expand_ok_iff_chains (w : Workspace) (root : PathName) (text : List Char) :
    (AllAnswered w root text → ∀ limit,
        ((∃ out, expand w root limit text = .ok out) ↔
          ¬ ∃ n, limit < n ∧ Chain w root n text) ∧
        ((∃ n, limit < n ∧ Chain w root n text) →
          ∃ path, expand w root limit text = .error (.depthExceeded path limit))) ∧
    (∀ inner, Relation.ReflTransGen (Includes w root) text inner →
      Relation.TransGen (Includes w root) inner inner →
      ∀ limit, ∃ e, expand w root limit text = .error e) := by
  have hlong : ∀ limit, (∃ n, limit < n ∧ Chain w root n text) →
      ∃ e, expand w root limit text = .error e := by
    rintro limit ⟨n, hn, hc⟩
    exact exists_error_of_chain (hc.mono hn)
  refine ⟨fun ha limit => ⟨⟨?_, ?_⟩, ?_⟩, ?_⟩
  · rintro ⟨out, hout⟩ hc
    obtain ⟨e, he⟩ := hlong limit hc
    rw [hout] at he
    cases he
  · intro hc
    exact expandAt_of_not_chain ha fun hchain => hc ⟨limit + 1, Nat.lt_succ_self limit, hchain⟩
  · intro hc
    obtain ⟨e, he⟩ := hlong limit hc
    obtain ⟨path, rfl⟩ := depthExceeded_of_answered ha he
    exact ⟨path, he⟩
  · intro inner hr hcircle limit
    exact hlong limit ⟨limit + 1, Nat.lt_succ_self limit, .of_reaches hr (.of_circle hcircle _)⟩

/-- The file `d` includes the file `b`, and the file `o` includes itself. -/
def nested : Workspace where
  tree := ((FileTree.empty.insert [⟨"d", by decide⟩]
    (.file (String.ofList (written ['b'])).toUTF8)).insert [⟨"b", by decide⟩]
      (.file "leaf".toUTF8)).insert [⟨"o", by decide⟩]
        (.file (String.ofList (written ['o'])).toUTF8)
  start := []
  sealed := []

theorem names_nested :
    Names nested ⟨"."⟩ ['d'] (written ['b']) ∧ Names nested ⟨"."⟩ ['b'] "leaf".toList ∧
      Names nested ⟨"."⟩ ['o'] (written ['o']) := by
  refine ⟨⟨[⟨"d", by decide⟩], String.ofList (written ['b']), ?_⟩,
    ⟨[⟨"b", by decide⟩], "leaf", ?_⟩, ⟨[⟨"o", by decide⟩], String.ofList (written ['o']), ?_⟩⟩ <;>
    exact ⟨by decide +kernel, by decide +kernel, by decide +kernel⟩

theorem includes_nested_iff {inner : List Char} :
    (Includes nested ⟨"."⟩ (written ['d']) inner ↔ inner = written ['b']) ∧
      (Includes nested ⟨"."⟩ (written ['b']) inner ↔ inner = "leaf".toList) ∧
      ¬ Includes nested ⟨"."⟩ "leaf".toList inner := by
  obtain ⟨ha, hb, -⟩ := names_nested
  refine ⟨includes_iff_of_single (by decide +kernel) ha,
    includes_iff_of_single (by decide +kernel) hb, ?_⟩
  have hnone : targets "leaf".toList = [] := by decide +kernel
  rintro ⟨target, htarget, -⟩
  rw [hnone] at htarget
  cases htarget

theorem allAnswered_nested : AllAnswered nested ⟨"."⟩ (written ['d']) := by
  obtain ⟨ha, hb, -⟩ := names_nested
  have hta : targets (written ['d']) = [['d']] := by decide +kernel
  have htb : targets (written ['b']) = [['b']] := by decide +kernel
  have htl : targets "leaf".toList = [] := by decide +kernel
  intro inner hr
  have hinner : inner = written ['d'] ∨ inner = written ['b'] ∨ inner = "leaf".toList := by
    induction hr with
    | refl => exact .inl rfl
    | tail _ hi ih =>
      rcases ih with rfl | rfl | rfl
      · exact .inr (.inl (includes_nested_iff.1.1 hi))
      · exact .inr (.inr (includes_nested_iff.2.1.1 hi))
      · exact absurd hi includes_nested_iff.2.2
  intro target htarget
  rcases hinner with rfl | rfl | rfl
  · rw [hta, List.mem_singleton] at htarget
    exact ⟨_, htarget ▸ ha⟩
  · rw [htb, List.mem_singleton] at htarget
    exact ⟨_, htarget ▸ hb⟩
  · rw [htl] at htarget
    cases htarget

theorem expand_ok_iff_chains_nested :
    AllAnswered nested ⟨"."⟩ (written ['d']) ∧
      (∃ out, expand nested ⟨"."⟩ 2 (written ['d']) = .ok out) ∧
      (∃ path, expand nested ⟨"."⟩ 1 (written ['d']) = .error (.depthExceeded path 1)) ∧
      Relation.TransGen (Includes nested ⟨"."⟩) (written ['o']) (written ['o']) ∧
      ∀ limit, ∃ e, expand nested ⟨"."⟩ limit (written ['o']) = .error e := by
  have hfirst : Includes nested ⟨"."⟩ (written ['d']) (written ['b']) :=
    includes_nested_iff.1.2 rfl
  have hsecond : Includes nested ⟨"."⟩ (written ['b']) "leaf".toList :=
    includes_nested_iff.2.1.2 rfl
  have hshort : ¬ ∃ n, 2 < n ∧ Chain nested ⟨"."⟩ n (written ['d']) := by
    rintro ⟨n, hn, hc⟩
    cases hc.mono hn with
    | into hi hc =>
      rw [includes_nested_iff.1] at hi
      subst hi
      cases hc with
      | into hi hc =>
        rw [includes_nested_iff.2.1] at hi
        subst hi
        cases hc with
        | into hi _ => exact includes_nested_iff.2.2 hi
  have hcircle : Relation.TransGen (Includes nested ⟨"."⟩) (written ['o']) (written ['o']) :=
    .single ⟨['o'], by decide +kernel, names_nested.2.2⟩
  obtain ⟨hchains, -⟩ := expand_ok_iff_chains nested ⟨"."⟩ (written ['d'])
  exact ⟨allAnswered_nested, (hchains allAnswered_nested 2).1.2 hshort,
    (hchains allAnswered_nested 1).2 ⟨2, by decide, .into hfirst (.into hsecond (.stop _))⟩,
    hcircle, (expand_ok_iff_chains nested ⟨"."⟩ (written ['o'])).2 _ .refl hcircle⟩

/-! ## Two limits -/

/-- An expansion failed for being too deep. -/
def IsTooDeep (r : Except Error (List Char)) : Prop :=
  ∃ path limit, r = .error (.depthExceeded path limit)

section
variable {low high : List Char → Except Error (List Char)}
  (h : ∀ target, IsTooDeep (low target) ∨ high target = low target)
include h

theorem expandPieces_deeper (ps : List Piece) :
    IsTooDeep (expandPieces low ps) ∨ expandPieces high ps = expandPieces low ps := by
  induction ps with
  | nil => exact .inr rfl
  | cons p rest ih =>
    cases p with
    | character c =>
      rw [expandPieces, expandPieces]
      rcases ih with ⟨path, limit, hr⟩ | hr
      · exact .inl ⟨path, limit, by rw [hr]; rfl⟩
      · exact .inr (by rw [hr])
    | directive target =>
      rw [expandPieces, expandPieces]
      rcases h target with ⟨path, limit, ht⟩ | ht
      · exact .inl ⟨path, limit, by rw [ht]⟩
      · rw [ht]
        cases low target with
        | error e => exact .inr rfl
        | ok text =>
          rcases ih with ⟨path, limit, hr⟩ | hr
          · exact .inl ⟨path, limit, by simp only [hr, Except.map]⟩
          · exact .inr (by simp only [hr])

theorem expandScanned_deeper (state : ScanState) (line : List Char) :
    IsTooDeep (expandScanned low state line) ∨
      expandScanned high state line = expandScanned low state line := by
  unfold expandScanned
  cases state.kind line with
  | verbatim => exact .inr rfl
  | text =>
    simp only [expandLine_eq]
    exact expandPieces_deeper h _

theorem expandLines_deeper (state : ScanState) (ls : List (List Char)) :
    IsTooDeep (expandLines low state ls) ∨
      expandLines high state ls = expandLines low state ls := by
  induction ls generalizing state with
  | nil => exact .inr rfl
  | cons line rest ih =>
    rw [expandLines, expandLines]
    rcases expandScanned_deeper h state line with ⟨path, limit, hl⟩ | hl
    · exact .inl ⟨path, limit, by rw [hl]⟩
    · rw [hl]
      cases expandScanned low state line with
      | error e => exact .inr rfl
      | ok text =>
        rcases ih (state.step line) with ⟨path, limit, hr⟩ | hr
        · exact .inl ⟨path, limit, by simp only [hr, Except.map]⟩
        · exact .inr (by simp only [hr])

end

section
variable {w : Workspace} {root : PathName} {limit levels : Nat} {origin text : List Char}

theorem included_deeper {low high : List Char → List Char → Except Error (List Char)}
    (h : ∀ origin text, IsTooDeep (low origin text) ∨ high origin text = low origin text)
    (target : List Char) :
    IsTooDeep (included w root low target) ∨
      included w root high target = included w root low target := by
  cases hl : locate w root (trim target) with
  | error e => exact .inr (by simp only [included, hl])
  | ok l =>
    cases hf : w.textAt l with
    | error e => exact .inr (by simp only [included, hl, hf])
    | ok found =>
      have hn : Names w root target found.toList := ⟨l, found, hl, hf, rfl⟩
      rw [included_of_names hn, included_of_names hn]
      exact h _ _

/-- With `more` levels only what was too deep changes. -/
theorem expandAt_deeper (limit raised : Nat) {more : Nat} (hm : levels ≤ more) :
    IsTooDeep (expandAt w root limit levels origin text) ∨
      expandAt w root raised more origin text = expandAt w root limit levels origin text := by
  induction levels generalizing more origin text with
  | zero => exact .inl ⟨_, _, rfl⟩
  | succ levels ih =>
    obtain ⟨more, rfl⟩ : ∃ k, more = k + 1 := ⟨more - 1, by omega⟩
    rw [expandAt, expandAt]
    refine expandLines_deeper (included_deeper fun origin text => ?_) _ _
    exact ih (Nat.le_of_succ_le_succ hm)

/-- What is too deep tells the `limit`, not the levels that were left. -/
theorem limit_of_expandAt {path : String} {told : Nat}
    (h : expandAt w root limit levels origin text = .error (.depthExceeded path told)) :
    told = limit := by
  induction levels generalizing origin text with
  | zero =>
    cases h
    rfl
  | succ levels ih =>
    rw [← failure?_eq_some_iff, failure?_expandAt] at h
    obtain ⟨target, -, hfail⟩ := List.exists_of_findSome?_eq_some h
    obtain ⟨inner, -, hinner⟩ := exists_names_of_depthExceeded (failure?_eq_some_iff.1 hfail)
    exact ih hinner

end

/-- A higher limit keeps every text that expands and every failure but that of being too deep. Where
a text expands under the higher limit, it expands to the same under the lower one, or it is too deep
for that. -/
theorem expand_raised (w : Workspace) (root : PathName) (text : List Char) {limit raised : Nat}
    (h : limit ≤ raised) :
    (∀ out, expand w root limit text = .ok out → expand w root raised text = .ok out) ∧
    (∀ e, expand w root limit text = .error e → (∀ path told, e ≠ .depthExceeded path told) →
      expand w root raised text = .error e) ∧
    ∀ out, expand w root raised text = .ok out →
      expand w root limit text = .ok out ∨
        ∃ path, expand w root limit text = .error (.depthExceeded path limit) := by
  have hcases : IsTooDeep (expand w root limit text) ∨
      expand w root raised text = expand w root limit text :=
    expandAt_deeper limit raised (Nat.succ_le_succ h)
  rcases hcases with ⟨path, told, hd⟩ | heq
  · obtain rfl := limit_of_expandAt hd
    rw [hd]
    refine ⟨fun out ho => (by cases ho), fun e he hn => ?_, fun out _ => .inr ⟨path, rfl⟩⟩
    cases he
    exact absurd rfl (hn path told)
  · rw [heq]
    exact ⟨fun out ho => ho, fun e he _ => he, fun out ho => .inl ho⟩

theorem expand_raised_nested :
    1 ≤ 2 ∧
      (expand nested ⟨"."⟩ 2 (written ['d']) = .ok "leaf".toList ∧
        (expand nested ⟨"."⟩ 1 (written ['d']) = .ok "leaf".toList ∨
          ∃ path, expand nested ⟨"."⟩ 1 (written ['d']) = .error (.depthExceeded path 1))) ∧
      (expand nested ⟨"."⟩ 1 (written ['b']) = .ok "leaf".toList ∧
        expand nested ⟨"."⟩ 2 (written ['b']) = .ok "leaf".toList) ∧
      (expand nested ⟨"."⟩ 1 (written ['c'] ++ written ['o']) = .error (.includeNotFound ⟨"./c"⟩) ∧
        expand nested ⟨"."⟩ 2 (written ['c'] ++ written ['o']) =
          .error (.includeNotFound ⟨"./c"⟩)) := by
  have hl : 1 ≤ 2 := by decide
  have ha : expand nested ⟨"."⟩ 2 (written ['d']) = .ok "leaf".toList := by decide +kernel
  have hb : expand nested ⟨"."⟩ 1 (written ['b']) = .ok "leaf".toList := by decide +kernel
  have hc : expand nested ⟨"."⟩ 1 (written ['c'] ++ written ['o']) =
      .error (.includeNotFound ⟨"./c"⟩) := by decide +kernel
  exact ⟨hl, ⟨ha, (expand_raised nested ⟨"."⟩ (written ['d']) hl).2.2 _ ha⟩,
    ⟨hb, (expand_raised nested ⟨"."⟩ (written ['b']) hl).1 _ hb⟩,
    ⟨hc, (expand_raised nested ⟨"."⟩ _ hl).2.1 _ hc nofun⟩⟩

end AgentDocs.Template
