import AgentDocs.Proofs.Yaml.OneLine
import AgentDocs.Yaml.Value

/-!
# A field on one line

A stream of one line that is the field of a description is cut into six tokens, composed to a
mapping of one pair, and read as that.

* `Spells`: how a scalar stands on one line.
* `run_atField`, `run_inField_cons`, `run_inField_nil`: the lexer in front of the value, behind it
  and at the end.
* `tokens_field`, `Value.ofText_field`: the tokens of the stream and its value.
-/

namespace AgentDocs.Yaml

open AgentDocs.Text

/-- A text spells a scalar on one line: a plain scalar, or one between quotes without an escape,
with spaces around it. -/
inductive Spells : List Char → Style → List Char → Prop
  | plain {front text back : List Char} (hfront : IsSpaces front) (h : isPlain text = true)
      (hback : IsSpaces back) : Spells (front ++ (text ++ back)) .plain text
  | quoted (single : Bool) {front text back : List Char} (hfront : IsSpaces front)
      (h : isQuotable single text = true) (hback : IsSpaces back) :
      Spells (front ++ quote single :: (text ++ quote single :: back)) .quoted text

theorem Spells.of_isPlain {text : List Char} (h : isPlain text = true) :
    Spells text .plain text := by
  simpa using Spells.plain isSpaces_nil h isSpaces_nil

/-- A scalar `v` on one line shows no line break. -/
theorem Spells.isBreak {v text : List Char} {style : Style} (h : Spells v style text) :
    ∀ c ∈ v, isBreak c = false := by
  have hspaces (text : List Char) (h : IsSpaces text) : ∀ c ∈ text, Yaml.isBreak c = false :=
    fun c hc => isBreak_of_isSpace (h c hc)
  cases h with
  | plain hfront h hback =>
    have hrun := (Bool.and_eq_true_iff.1 (Bool.and_eq_true_iff.1 h).1).2
    simp only [List.forall_mem_append]
    exact ⟨hspaces _ hfront, isBreak_of_isRunning hrun, hspaces _ hback⟩
  | quoted single hfront h hback =>
    have hquote : Yaml.isBreak (quote single) = false := by cases single <;> decide
    have htext : ∀ c ∈ text, Yaml.isBreak c = false := fun c hc => (isQuotable_iff.1 h c hc).1
    simp only [List.forall_mem_append, List.forall_mem_cons]
    exact ⟨hspaces _ hfront, hquote, htext, hquote, hspaces _ hback⟩

/-- A stream has a value. -/
def IsValid (text : List Char) : Prop := ∃ value, Value.ofText text = .ok value

instance (text : List Char) : Decidable (IsValid text) :=
  match h : Value.ofText text with
  | .ok value => isTrue ⟨value, h⟩
  | .error _ => isFalse fun ⟨_, hvalue⟩ => nomatch h.symm.trans hvalue

/-- The field of a description in front of its value. -/
def field : List Char := "description: ".toList

namespace Lexer

section
variable {s s' t : Lexer} {c : Cursor} {fuel : Nat} {keyAllowed : Bool} {x : Char}
  {front rest : List Char}

/-! ## Taking a scalar -/

theorem startsPlain_of_beginsPlain (h : beginsPlain (x :: rest) = true)
    (hbreak : isBreak x = false) : startsPlain false x rest = true := by
  obtain ⟨hspace, hindicator | ⟨hx, hends⟩⟩ := beginsPlain_cases h
  · simp only [indicators, List.mem_cons, not_or] at hindicator
    simp [startsPlain, hspace, hbreak, hindicator]
  · have : rest.head?.any isSpace = false := by
      cases rest <;> simp_all [endsWord]
    rcases hx with rfl | rfl | rfl <;> simp [startsPlain, hends, this]

theorem token_eq_plainScalar (hcolumn : s.cursor.column ≠ 0) (hflow : s.inFlow = false)
    (h : beginsPlain (x :: rest) = true) (hbreak : isBreak x = false) :
    s.token x rest = s.plainScalar := by
  have hmarker := Cursor.atAnyMarker_eq_false hcolumn
  rw [Cursor.atAnyMarker, Bool.or_eq_false_iff] at hmarker
  have hstart := startsPlain_of_beginsPlain h hbreak
  obtain ⟨-, hindicator | ⟨hx, hends⟩⟩ := beginsPlain_cases h
  · simp only [indicators, List.mem_cons, not_or] at hindicator
    simp [token, hcolumn, hmarker, hflow, hstart, hindicator]
  · rcases hx with rfl | rfl | rfl <;> simp [token, hcolumn, hmarker, hflow, hstart, hends]

theorem token_eq_quotedScalar (hcolumn : s.cursor.column ≠ 0) (single : Bool) :
    s.token (quote single) rest = s.quotedScalar single := by
  have hmarker := Cursor.atAnyMarker_eq_false hcolumn
  rw [Cursor.atAnyMarker, Bool.or_eq_false_iff] at hmarker
  cases single <;> simp [token, hcolumn, hmarker, quote]

/-! ## Taking a line -/

/-- Where no key may begin, the spaces in `front` of a word are skipped. -/
theorem skipToToken_eq (hrest : c.rest = front ++ rest) (hfront : IsSpaces front)
    (hmark : c.next? (· == byteOrderMark) = false) (hword : startsWord rest = true)
    (hbreak : rest.head?.any isBreak = false) :
    skipToToken false (fuel + 1) false c = (false, c.advance front.length) := by
  have hhead : rest.head?.any isSpace = false ∧ rest.head?.any (· == '#') = false := by
    cases rest <;> simp_all [startsWord]
  have hskip : c.skipWhile (fun x => x == ' ' || x == '\t' && (false || !false)) =
      c.advance front.length := by
    have hspaces : (fun x => x == ' ' || x == '\t' && (false || !false)) = isSpace := by
      funext x
      simp [isSpace]
    rw [hspaces, Cursor.skipWhile, hrest, takeWhile_append_of_head? hhead.1,
      List.takeWhile_eq_self_iff.2 hfront]
  have hleft : (c.advance front.length).rest = rest := by
    simp [Cursor.advance, hrest]
  have hnext (p : Char → Bool) : (c.advance front.length).next? p = rest.head?.any p := by
    cases rest <;> simp [Cursor.next?, hleft]
  simp only [skipToToken, hmark, Bool.and_false, Bool.false_eq_true, if_false, hskip, hnext,
    hhead.2, hbreak]

/-- One token is taken, and the lexer goes on behind it. -/
theorem run_succ
    (hskip : skipToToken s.inFlow (fuel + 1) s.keyAllowed s.cursor = (keyAllowed, c))
    (hkeys : ({ s with keyAllowed, cursor := c } : Lexer).expireKeys = .ok s')
    (hrest : c.rest = x :: rest)
    (htoken : (s'.closeBlocks (decide <| c.column < ·)).token x rest = .ok t) :
    run (fuel + 1) s = run fuel t := by
  simp [run, hskip, hkeys, hrest, htoken, bind, Except.bind]

theorem run_nil
    (hskip : skipToToken s.inFlow (fuel + 1) s.keyAllowed s.cursor = (keyAllowed, c))
    (hkeys : ({ s with keyAllowed, cursor := c } : Lexer).expireKeys = .ok s')
    (hrest : c.rest = [])
    (hdrop : ((s'.closeBlocks (decide <| c.column < ·)).closeBlocks fun _ => true).dropKey =
      .ok t) :
    run (fuel + 1) s = .ok t.tokens.reverse := by
  simp [run, hskip, hkeys, hrest, hdrop, bind, Except.bind, pure, Except.pure]

end

/-- The lexer in front of a field. -/
def atField (v : List Char) : Lexer where
  cursor := ⟨field ++ v, 0, 0, 0⟩
  tokens := []
  columns := []
  key? := none
  outer := []
  keyAllowed := true

/-- The lexer in front of the colon of a field. -/
def atColon (v : List Char) : Lexer where
  cursor := ⟨':' :: ' ' :: v, 11, 0, 11⟩
  tokens := [.scalar .plain "description"]
  columns := []
  key? := some ⟨0, false, 0, 0, 0⟩
  outer := []
  keyAllowed := false

/-- The lexer behind the colon of a field, with the tokens of its value taken so far. -/
def inField (c : Cursor) (tokens : List Token) : Lexer where
  cursor := c
  tokens := tokens ++ [.value, .scalar .plain "description", .key, .blockMappingStart]
  columns := [0]
  key? := none
  outer := []
  keyAllowed := false

section
variable {c : Cursor} {fuel : Nat} {v text : List Char} {style : Style} {taken : List Token}

theorem run_atField (v : List Char) (fuel : Nat) :
    run (fuel + 2) (atField v) = run fuel (inField ⟨' ' :: v, 12, 0, 12⟩ []) := by
  have hkey : run (fuel + 2) (atField v) = run (fuel + 1) (atColon v) := by
    have hskip : skipToToken (atField v).inFlow (fuel + 2) (atField v).keyAllowed
        (atField v).cursor = (true, (atField v).cursor) := rfl
    have hkeys : (atField v).expireKeys = .ok (atField v) := rfl
    exact run_succ hskip hkeys rfl rfl
  have hcolon : run (fuel + 1) (atColon v) = run fuel (inField ⟨' ' :: v, 12, 0, 12⟩ []) := by
    have hskip : skipToToken (atColon v).inFlow (fuel + 1) (atColon v).keyAllowed
        (atColon v).cursor = (false, (atColon v).cursor) := rfl
    have hkeys : (atColon v).expireKeys = .ok (atColon v) := rfl
    exact run_succ hskip hkeys rfl rfl
  exact hkey.trans hcolon

theorem expireKeys_inField (c : Cursor) (taken : List Token) :
    (inField c taken).expireKeys = .ok (inField c taken) := rfl

theorem noteKey_inField (c : Cursor) (taken : List Token) :
    (inField c taken).noteKey = .ok (inField c taken) := rfl

/-- The mapping of a field stands at the first column, and no `column` reaches behind that. -/
theorem closeBlocks_inField (c : Cursor) (taken : List Token) (column : Nat) :
    (inField c taken).closeBlocks (decide <| column < ·) = inField c taken := by
  simp [closeBlocks, inField, inFlow]

/-- Behind the spaces in `front` of it, the token `t` of the value is taken. -/
theorem run_inField_cons {front rest : List Char} {x : Char} {c' : Cursor} {t : Token}
    (hrest : c.rest = front ++ x :: rest) (hfront : IsSpaces front)
    (hmark : c.next? (· == byteOrderMark) = false) (hword : startsWord (x :: rest) = true)
    (hbreak : isBreak x = false)
    (htoken : (inField (c.advance front.length) []).token x rest = .ok (inField c' [t])) :
    run (fuel + 1) (inField c []) = run fuel (inField c' [t]) := by
  have hskip : skipToToken false (fuel + 1) false c = (false, c.advance front.length) :=
    skipToToken_eq hrest hfront hmark hword hbreak
  have hleft : (c.advance front.length).rest = x :: rest := by
    rw [Cursor.advance, hrest, List.drop_left]
  exact run_succ hskip (expireKeys_inField _ []) hleft (by rw [closeBlocks_inField, htoken])

/-- At the end of the line the mapping of the field is closed. -/
theorem run_inField_nil (h : IsSpaces c.rest) :
    run (fuel + 1) (inField c taken) = .ok (inField c (.blockEnd :: taken)).tokens.reverse := by
  have hmark : c.next? (· == byteOrderMark) = false := by
    cases hr : c.rest with
    | nil => simp [Cursor.next?, hr]
    | cons x rest =>
      have hx : isSpace x = true := h x (by simp [hr])
      have : x ≠ byteOrderMark := by
        rintro rfl
        exact absurd hx (by decide)
      simp [Cursor.next?, hr, this]
  have hskip : skipToToken false (fuel + 1) false c = (false, c.advance c.rest.length) :=
    skipToToken_eq (List.append_nil _).symm h hmark rfl rfl
  exact run_nil (t := { inField (c.advance c.rest.length) (.blockEnd :: taken) with columns := [] })
    hskip (expireKeys_inField _ taken) List.drop_length (by rw [closeBlocks_inField]; rfl)

theorem plainScalar_inField {back : List Char} (hrest : c.rest = text ++ back)
    (h : isPlain text = true) (hback : IsSpaces back) (hcolumn : c.column ≠ 0) :
    ∃ c', (inField c []).plainScalar = .ok (inField c' [.scalar .plain (String.ofList text)]) ∧
      IsSpaces c'.rest := by
  obtain ⟨c', hread, hrest'⟩ := readPlain_eq hrest h hback hcolumn
    (Nat.one_le_iff_ne_zero.2 hcolumn)
  refine ⟨c', ?_, fun x hx => nomatch hrest' ▸ hx⟩
  have hflow : (inField c []).inFlow = false := rfl
  have hfloor : (inField c []).floor = 1 := rfl
  have hcursor : (inField c []).cursor = c := rfl
  rw [plainScalar, noteKey_inField]
  simp only [bind, Except.bind, hflow, hfloor, hcursor, hread]
  rfl

theorem quotedScalar_inField {single : Bool} {back : List Char}
    (hrest : c.rest = quote single :: (text ++ quote single :: back))
    (h : isQuotable single text = true) (hback : IsSpaces back) :
    ∃ c', (inField c []).quotedScalar single =
        .ok (inField c' [.scalar .quoted (String.ofList text)]) ∧
      IsSpaces c'.rest := by
  obtain ⟨c', hread, hrest'⟩ := readQuoted_eq hrest h hback
  refine ⟨c', ?_, hrest' ▸ hback⟩
  have hcursor : (inField c []).cursor = c := rfl
  rw [quotedScalar, noteKey_inField]
  simp only [bind, Except.bind, hcursor, hread]
  rfl

/-- Behind the spaces in `front` of it, a scalar is taken as one token. -/
theorem exists_token (h : Spells v style text) :
    ∃ front x rest, v = front ++ x :: rest ∧ IsSpaces front ∧ startsWord (x :: rest) = true ∧
      isBreak x = false ∧ ∀ c : Cursor, c.rest = x :: rest → c.column ≠ 0 →
        ∃ c', (inField c []).token x rest = .ok (inField c' [.scalar style (String.ofList text)]) ∧
          IsSpaces c'.rest := by
  cases h with
  | @plain front _ back hfront h hback =>
    cases text with
    | nil => cases h
    | cons x rest =>
      obtain ⟨⟨hbegin, hrun⟩, -⟩ :
          (beginsPlain (x :: rest) = true ∧ isRunning (x :: rest) = true) ∧ _ := by
        simpa only [isPlain, Bool.and_eq_true] using h
      have hbreak := (isRunning_cons.1 hrun).1
      refine ⟨front, x, rest ++ back, rfl, hfront, startsWord_of_beginsPlain hbegin back, hbreak,
        fun c hrest hcolumn => ?_⟩
      rw [token_eq_plainScalar hcolumn rfl (beginsPlain_append hbegin back) hbreak]
      exact plainScalar_inField hrest h hback hcolumn
  | @quoted single front _ back hfront h hback =>
    refine ⟨front, quote single, _, rfl, hfront, ?_, ?_, fun c hrest hcolumn => ?_⟩
    · cases single <;> rfl
    · cases single <;> rfl
    · rw [token_eq_quotedScalar hcolumn]
      exact quotedScalar_inField hrest h hback

/-- The tokens of a field. -/
def fieldTokens (style : Style) (text : List Char) : List Token :=
  [.blockMappingStart, .key, .scalar .plain "description", .value,
    .scalar style (String.ofList text), .blockEnd]

theorem run_inField (h : Spells v style text) (fuel : Nat) :
    run (fuel + 2) (inField ⟨' ' :: v, 12, 0, 12⟩ []) = .ok (fieldTokens style text) := by
  obtain ⟨front, x, rest, rfl, hfront, hword, hbreak, htake⟩ := exists_token h
  have hfront : IsSpaces (' ' :: front) := List.forall_mem_cons.2 ⟨by decide, hfront⟩
  set c : Cursor := ⟨' ' :: (front ++ x :: rest), 12, 0, 12⟩ with hc
  have hcolumn : (c.advance (' ' :: front).length).column ≠ 0 := by
    simp [hc, Cursor.advance]
  have hrest : c.rest = ' ' :: front ++ x :: rest := rfl
  have hleft : (c.advance (' ' :: front).length).rest = x :: rest := by
    simp [hc, Cursor.advance]
  obtain ⟨c', htoken, hback⟩ := htake _ hleft hcolumn
  rw [run_inField_cons hrest hfront rfl hword hbreak htoken,
    run_inField_nil hback]
  rfl

end

end Lexer

/-! ## The value of a field -/

section
variable {v text : List Char} {style : Style} {value : Value}

theorem tokens_field (h : Spells v style text) (hallowed : (field ++ v).all isAllowed = true) :
    tokens (field ++ v) = .ok (Lexer.fieldTokens style text) := by
  have hlength : (field ++ v).length + 1 = v.length + 12 + 2 := by
    rw [List.length_append, show field.length = 13 from rfl]
    omega
  rw [tokens, hallowed, hlength]
  exact (Lexer.run_atField v (v.length + 12)).trans (Lexer.run_inField h (v.length + 10))

/-- A field makes a mapping of one pair, from `description` to its scalar. -/
theorem Document.ofTokens_fieldTokens (style : Style) (text : List Char) :
    Document.ofTokens (Lexer.fieldTokens style text) =
      .ok ⟨.mapping none [(.scalar none .plain "description",
        .scalar none style (String.ofList text))], [], 4⟩ := rfl

/-- A scalar that is read as a text is read as its own `text`. -/
theorem Value.eq_of_text?_ofScalar {text s : String}
    (h : Value.ofScalar none style text = .ok value) (hs : value.text? = some s) : s = text := by
  rw [ofScalar] at h
  split at h
  · rw [ofMeaning] at h
    split at h <;> cases h <;> cases hs
    rfl
  · cases h
    cases hs
    rfl

theorem Reading.pure_apply {α : Type} (a : α) (s : Nat) :
    (pure a : Reading α) s = .ok (a, s) := rfl

theorem Reading.bind_apply {α β : Type} (x : Reading α) (f : α → Reading β) (s : Nat) :
    (x >>= f) s = (x s).bind fun p => f p.1 p.2 := rfl

theorem Document.valueWithin_scalar (d : Document) (depth left : Nat) (style : Style)
    (text : String) :
    d.valueWithin depth (.scalar none style text) left =
      (Value.ofScalar none style text).map fun w => (w, left) := by
  rw [valueWithin]
  change (Value.ofScalar none style text >>= fun w => pure (w, left)) = _
  cases Value.ofScalar none style text <;> rfl

theorem Document.valueWithin_field (d : Document) (depth left : Nat) (style : Style)
    (text : String) :
    d.valueWithin (depth + 1)
        (.mapping none [(.scalar none .plain "description", .scalar none style text)]) left =
      (Value.ofScalar none style text).map fun w =>
        (.mapping [(.text "description", w)], left) := by
  have hkey := d.valueWithin_scalar depth left .plain "description"
  rw [show Value.ofScalar none .plain "description" = .ok (.text "description") from rfl] at hkey
  have hvalue := d.valueWithin_scalar depth left style text
  rw [valueWithin]
  simp only [follow, List.mapM_cons, Reading.pure_apply, Reading.bind_apply, Except.bind, hkey,
    hvalue, Except.map]
  cases Value.ofScalar none style text <;> rfl

/-- A field that can be read is a mapping from its name to the value `w` of its scalar. -/
theorem Value.ofText_field (h : Spells v style text)
    (hvalid : Value.ofText (field ++ v) = .ok value) :
    ∃ w, Value.ofScalar none style (String.ofList text) = .ok w ∧
      value = .mapping [(.text "description", w)] := by
  have hallowed : (field ++ v).all isAllowed = true := by
    by_contra hforbidden
    rw [Value.ofText, Document.ofText, tokens, Bool.eq_false_iff.2 hforbidden] at hvalid
    cases hvalid
  rw [Value.ofText, Document.ofText, tokens_field h hallowed] at hvalid
  simp only [bind, Except.bind, Document.ofTokens_fieldTokens, StateT.run'] at hvalid
  rw [show depthLimit = 127 + 1 from rfl, Document.valueWithin_field] at hvalid
  cases hw : Value.ofScalar none style (String.ofList text) with
  | error e =>
    rw [hw] at hvalid
    cases hvalid
  | ok w =>
    rw [hw] at hvalid
    exact ⟨w, rfl, (Except.ok.inj hvalid).symm⟩

end

end AgentDocs.Yaml
