/-!
# Texts and bytes

The UTF-8 form of a text, and the text that any bytes show. Bytes that are no UTF-8 are decoded with
losses: each run of bytes that begins a character and breaks off, and each byte that begins none,
shows as one replacement character.

* `decode_bytes`: the UTF-8 form of a text shows the text.
* `decode_append`: a byte below 128 ends what stands in front of it.
* `mem_of_mem_bytes`, `mem_of_mem_decode`: characters below 128 stand for themselves only, and only
  they stand for themselves.
-/

namespace AgentDocs.Text

/-- The UTF-8 form of a text. -/
def bytes (s : String) : List UInt8 := s.toUTF8.data.toList

theorem bytes_eq (s : String) : bytes s = s.toList.flatMap String.utf8EncodeChar := by
  have h : s.toUTF8 = s.toList.utf8Encode := by
    rw [← String.toByteArray_ofList, String.ofList_toList]
    rfl
  rw [bytes, h, List.utf8Encode]
  simp

theorem bytes_append (s t : String) : bytes (s ++ t) = bytes s ++ bytes t := by
  rw [bytes_eq, bytes_eq, bytes_eq, String.toList_append, List.flatMap_append]

/-! ## Decoding -/

/-- What stands for bytes that are no character. -/
def replacement : Char := '\uFFFD'

/-- A character that was begun: the number that its bytes make so far, how many bytes follow the
next one, and the bounds of the digit in the next one. -/
structure Pending where
  value : Nat
  more : Nat
  least : Nat
  greatest : Nat

namespace Pending

/-- The digit in a byte, if the byte can go on with a character. -/
def digit? (p : Pending) (b : UInt8) : Option Nat :=
  if 128 + p.least ≤ b.toNat ∧ b.toNat ≤ 128 + p.greatest then some (b.toNat - 128) else none

/-- A character with one more digit: the character itself, or what is begun then. -/
def push (p : Pending) (digit : Nat) : List Char × Option Pending :=
  match p.more with
  | 0 => ([Char.ofNat (p.value * 64 + digit)], none)
  | more + 1 => ([], some ⟨p.value * 64 + digit, more, 0, 63⟩)

end Pending

/-- What a byte shows where a character begins, and what it begins. Bounds on the second byte keep
out characters that have a shorter form, surrogates, and what is beyond all characters. -/
def beginAt (b : UInt8) : List Char × Option Pending :=
  let n := b.toNat
  if n < 128 then ([Char.ofNat n], none)
  else if n < 194 then ([replacement], none)
  else if n < 224 then ([], some ⟨n - 192, 0, 0, 63⟩)
  else if n < 240 then
    ([], some ⟨n - 224, 1, if n = 224 then 32 else 0, if n = 237 then 31 else 63⟩)
  else if n < 245 then
    ([], some ⟨n - 240, 2, if n = 240 then 16 else 0, if n = 244 then 15 else 63⟩)
  else ([replacement], none)

/-- What a byte shows behind what was begun before it, and what is begun then. -/
def decodeStep : Option Pending → UInt8 → List Char × Option Pending
  | none, b => beginAt b
  | some p, b =>
    match p.digit? b with
    | some digit => p.push digit
    | none => (replacement :: (beginAt b).1, (beginAt b).2)

/-- What some bytes show behind what was begun before them. -/
def decodeFrom : Option Pending → List UInt8 → List Char
  | none, [] => []
  | some _, [] => [replacement]
  | state, b :: rest => (decodeStep state b).1 ++ decodeFrom (decodeStep state b).2 rest

/-- The characters that some bytes show. -/
def decode (bs : List UInt8) : List Char := decodeFrom none bs

/-! ## Steps -/

section
variable {n : Nat} {p : Pending} {b : UInt8}

theorem toNat_ofNat (h : n < 256) : (UInt8.ofNat n).toNat = n := UInt8.toNat_ofNat_of_lt' h

theorem beginAt_of_lt (h : b.toNat < 128) : beginAt b = ([Char.ofNat b.toNat], none) := by
  simp only [beginAt, h, if_true]

theorem beginAt_two (h : 194 ≤ n) (h' : n < 224) :
    beginAt (UInt8.ofNat n) = ([], some ⟨n - 192, 0, 0, 63⟩) := by
  simp only [beginAt, toNat_ofNat (show n < 256 by omega)]
  rw [if_neg (by omega), if_neg (by omega), if_pos h']

theorem beginAt_three (h : 224 ≤ n) (h' : n < 240) :
    beginAt (UInt8.ofNat n) =
      ([], some ⟨n - 224, 1, if n = 224 then 32 else 0, if n = 237 then 31 else 63⟩) := by
  simp only [beginAt, toNat_ofNat (show n < 256 by omega)]
  rw [if_neg (by omega), if_neg (by omega), if_neg (by omega), if_pos h']

theorem beginAt_four (h : 240 ≤ n) (h' : n < 245) :
    beginAt (UInt8.ofNat n) =
      ([], some ⟨n - 240, 2, if n = 240 then 16 else 0, if n = 244 then 15 else 63⟩) := by
  simp only [beginAt, toNat_ofNat (show n < 256 by omega)]
  rw [if_neg (by omega), if_neg (by omega), if_neg (by omega), if_neg (by omega), if_pos h']

theorem decodeStep_digit (hl : p.least ≤ n) (hg : n ≤ p.greatest) (h : n < 64) :
    decodeStep (some p) (UInt8.ofNat (n + 128)) = p.push n := by
  have hd : p.digit? (UInt8.ofNat (n + 128)) = some n := by
    rw [Pending.digit?, toNat_ofNat (show n + 128 < 256 by omega), if_pos (by omega)]
    simp
  simp only [decodeStep, hd]

theorem decodeStep_of_lt (h : b.toNat < 128) :
    decodeStep (some p) b = (replacement :: [Char.ofNat b.toNat], none) := by
  have hd : p.digit? b = none := by
    rw [Pending.digit?, if_neg (by omega)]
  simp only [decodeStep, hd, beginAt_of_lt h]

end

/-! ## What is encoded is decoded -/

section
variable {v : Nat} {rest : List UInt8}

theorem decodeFrom_two (h : 128 ≤ v) (h' : v < 2048) :
    decodeFrom none (UInt8.ofNat (v / 64 % 32 + 192) :: UInt8.ofNat (v % 64 + 128) :: rest) =
      Char.ofNat v :: decodeFrom none rest := by
  have hsum : (v / 64 % 32 + 192 - 192) * 64 + v % 64 = v := by omega
  simp only [decodeFrom, show decodeStep none = beginAt from rfl]
  rw [beginAt_two (by omega) (by omega),
    decodeStep_digit (Nat.zero_le _) (show v % 64 ≤ 63 by omega) (by omega)]
  simp only [Pending.push, hsum, List.nil_append, List.cons_append]

theorem decodeFrom_three (h : 2048 ≤ v) (h' : v < 65536) (hs : v < 55296 ∨ 57343 < v) :
    decodeFrom none (UInt8.ofNat (v / 4096 % 16 + 224) :: UInt8.ofNat (v / 64 % 64 + 128) ::
      UInt8.ofNat (v % 64 + 128) :: rest) = Char.ofNat v :: decodeFrom none rest := by
  have hsum : ((v / 4096 % 16 + 224 - 224) * 64 + v / 64 % 64) * 64 + v % 64 = v := by omega
  simp only [decodeFrom, show decodeStep none = beginAt from rfl]
  rw [beginAt_three (by omega) (by omega),
    decodeStep_digit (by dsimp only; split <;> omega) (by dsimp only; split <;> omega) (by omega)]
  simp only [Pending.push]
  rw [decodeStep_digit (Nat.zero_le _) (show v % 64 ≤ 63 by omega) (by omega)]
  simp only [Pending.push, hsum, List.nil_append, List.cons_append]

theorem decodeFrom_four (h : 65536 ≤ v) (h' : v < 1114112) :
    decodeFrom none (UInt8.ofNat (v / 262144 % 8 + 240) :: UInt8.ofNat (v / 4096 % 64 + 128) ::
      UInt8.ofNat (v / 64 % 64 + 128) :: UInt8.ofNat (v % 64 + 128) :: rest) =
      Char.ofNat v :: decodeFrom none rest := by
  have hsum : (((v / 262144 % 8 + 240 - 240) * 64 + v / 4096 % 64) * 64 + v / 64 % 64) * 64 +
      v % 64 = v := by omega
  simp only [decodeFrom, show decodeStep none = beginAt from rfl]
  rw [beginAt_four (by omega) (by omega),
    decodeStep_digit (by dsimp only; split <;> omega) (by dsimp only; split <;> omega) (by omega)]
  simp only [Pending.push]
  rw [decodeStep_digit (Nat.zero_le _) (show v / 64 % 64 ≤ 63 by omega) (by omega)]
  simp only [Pending.push]
  rw [decodeStep_digit (Nat.zero_le _) (show v % 64 ≤ 63 by omega) (by omega)]
  simp only [Pending.push, hsum, List.nil_append, List.cons_append]

end

theorem decodeFrom_encode (c : Char) (rest : List UInt8) :
    decodeFrom none (String.utf8EncodeChar c ++ rest) = c :: decodeFrom none rest := by
  have hvalid : c.val.toNat < 0xD800 ∨ 0xDFFF < c.val.toNat ∧ c.val.toNat < 0x110000 := c.valid
  suffices h : decodeFrom none (String.utf8EncodeChar c ++ rest) =
      Char.ofNat c.val.toNat :: decodeFrom none rest by
    rw [h]
    exact congrArg (· :: _) (Char.ofNat_toNat c)
  simp only [String.utf8EncodeChar]
  generalize c.val.toNat = v at hvalid ⊢
  by_cases h1 : v ≤ 127
  · have hv : (UInt8.ofNat v).toNat = v := toNat_ofNat (by omega)
    rw [if_pos h1, List.singleton_append, decodeFrom, decodeStep, beginAt_of_lt (by omega), hv]
    rfl
  · rw [if_neg h1]
    by_cases h2 : v ≤ 2047
    · rw [if_pos h2]
      exact decodeFrom_two (by omega) (by omega)
    · rw [if_neg h2]
      by_cases h3 : v ≤ 65535
      · rw [if_pos h3]
        exact decodeFrom_three (by omega) (by omega) (by omega)
      · rw [if_neg h3]
        exact decodeFrom_four (by omega) (by omega)

theorem decode_flatMap (text : List Char) : decode (text.flatMap String.utf8EncodeChar) = text := by
  induction text with
  | nil => rfl
  | cons c rest ih => rw [List.flatMap_cons, decode, decodeFrom_encode, ← decode, ih]

/-- Decoding the UTF-8 form of `s` gives the characters of `s`. -/
theorem decode_bytes (s : String) : decode (bytes s) = s.toList := by
  rw [bytes_eq, decode_flatMap]

/-! ## What is shown -/

section
variable {a rest : List UInt8} {b : UInt8} {c : Char} {state : Option Pending} {p : Pending}
  {n : Nat}

/-- The byte `b`, below 128, ends whatever form was begun in `a`. -/
theorem decodeFrom_append (hb : b.toNat < 128) :
    decodeFrom state (a ++ b :: rest) = decodeFrom state a ++ decodeFrom none (b :: rest) := by
  induction a generalizing state with
  | nil =>
    cases state with
    | none => rfl
    | some p =>
      simp only [List.nil_append, decodeFrom, decodeStep_of_lt hb]
      simp only [decodeStep, beginAt_of_lt hb]
      rfl
  | cons x a ih =>
    rw [List.cons_append, decodeFrom, decodeFrom, ih, List.append_assoc]

theorem decode_append (hb : b.toNat < 128) :
    decode (a ++ b :: rest) = decode a ++ decode (b :: rest) := decodeFrom_append hb

theorem decode_cons (hb : b.toNat < 128) :
    decode (b :: rest) = Char.ofNat b.toNat :: decode rest := by
  rw [decode, decodeFrom, decodeStep, beginAt_of_lt hb]
  rfl

/-- A byte `b` below 128 stands in the UTF-8 form of `s` only for its character. -/
theorem mem_of_mem_bytes {s : String} (hb : b.toNat < 128) (h : b ∈ bytes s) :
    Char.ofNat b.toNat ∈ s.toList := by
  obtain ⟨before, after, hs⟩ := List.append_of_mem h
  rw [← decode_bytes, hs, decode_append hb, decode_cons hb]
  exact List.mem_append_cons_self

theorem decodeFrom_some_ne_nil : decodeFrom (some p) a ≠ [] := by
  induction a generalizing p with
  | nil => simp [decodeFrom]
  | cons b rest ih =>
    rw [decodeFrom, decodeStep]
    split
    · rw [Pending.push]
      split
      · simp
      · simpa using ih
    · simp

theorem decodeFrom_ne_nil (h : a ≠ []) : decodeFrom state a ≠ [] := by
  cases state with
  | some p => exact decodeFrom_some_ne_nil
  | none =>
    obtain ⟨b, rest, rfl⟩ := List.exists_cons_of_ne_nil h
    rw [decodeFrom, decodeStep, beginAt]
    -- either something is shown at once, or something is begun that shows in the end
    repeat' split
    all_goals first
      | exact List.cons_ne_nil _ _
      | exact decodeFrom_some_ne_nil

/-- The weight of a digit with `n` digits behind it. -/
def weight : Nat → Nat
  | 0 => 1
  | n + 1 => 64 * weight n

/-- What was begun comes to a number above those of single bytes. -/
def Pending.IsWide (p : Pending) : Prop := 128 ≤ (p.value * 64 + p.least) * weight p.more

theorem isWide_of_beginAt (h : (beginAt b).2 = some p) : p.IsWide := by
  rw [beginAt] at h
  split at h
  · cases h
  · split at h
    · cases h
    · split at h
      · rw [← Option.some.inj h]
        show 128 ≤ ((b.toNat - 192) * 64 + 0) * 1
        omega
      · split at h
        · rw [← Option.some.inj h]
          show 128 ≤ ((b.toNat - 224) * 64 + if b.toNat = 224 then 32 else 0) * 64
          split <;> omega
        · split at h
          · rw [← Option.some.inj h]
            show 128 ≤ ((b.toNat - 240) * 64 + if b.toNat = 240 then 16 else 0) * (64 * 64)
            split <;> omega
          · cases h

theorem toNat_ofNat_char (h : n < 55296) : (Char.ofNat n).toNat = n := by
  rw [Char.ofNat, dif_pos (Or.inl h)]
  rfl

/-- The character of `n` from 128 on is none of those below 128, save that a number without a
character counts as zero. -/
theorem ofNat_ne (hn : 128 ≤ n) (h0 : 0 < c.toNat) (h : c.toNat < 128) : c ≠ Char.ofNat n := by
  rintro rfl
  by_cases hv : n.isValidChar
  · have : (Char.ofNat n).toNat = n := by
      rw [Char.ofNat, dif_pos hv]
      rfl
    omega
  · rw [Char.ofNat, dif_neg hv] at h0
    exact absurd h0 (by decide)

theorem mem_beginAt (h0 : 0 < c.toNat) (h : c.toNat < 128) (hm : c ∈ (beginAt b).1) :
    b.toNat = c.toNat := by
  have hr : c ≠ replacement := ofNat_ne (n := 0xFFFD) (by decide) h0 h
  by_cases hb : b.toNat < 128
  · rw [beginAt_of_lt hb, List.mem_singleton] at hm
    rw [hm, toNat_ofNat_char (by omega)]
  · simp only [beginAt, hb, if_false] at hm
    repeat' split at hm
    all_goals simp_all

theorem mem_push (hp : p.IsWide) (hd : p.least ≤ n) (h0 : 0 < c.toNat) (h : c.toNat < 128) :
    c ∉ (p.push n).1 := by
  obtain ⟨value, more, least, greatest⟩ := p
  cases more with
  | zero =>
    have hw : 128 ≤ value * 64 + least := by simpa [Pending.IsWide, weight] using hp
    exact fun hm => ofNat_ne (show 128 ≤ value * 64 + n by
      have : least ≤ n := hd
      omega) h0 h (List.mem_singleton.1 hm)
  | succ more => exact List.not_mem_nil

theorem Pending.IsWide.push {q : Pending} (hp : p.IsWide) (hd : p.least ≤ n)
    (hq : (p.push n).2 = some q) : q.IsWide := by
  obtain ⟨value, more, least, greatest⟩ := p
  cases more with
  | zero => cases hq
  | succ more =>
    rw [← Option.some.inj hq]
    calc 128 ≤ (value * 64 + least) * (64 * weight more) := hp
      _ ≤ (value * 64 + n) * (64 * weight more) :=
        Nat.mul_le_mul_right _ (Nat.add_le_add_left hd _)
      _ = ((value * 64 + n) * 64 + 0) * weight more := by rw [Nat.add_zero, Nat.mul_assoc]

theorem isWide_of_decodeStep (hs : ∀ p, state = some p → p.IsWide)
    (h : (decodeStep state b).2 = some p) : p.IsWide := by
  cases state with
  | none => exact isWide_of_beginAt h
  | some q =>
    rw [decodeStep] at h
    split at h
    · next digit hd =>
      refine (hs q rfl).push ?_ h
      rw [Pending.digit?] at hd
      split at hd
      · have := Option.some.inj hd
        omega
      · cases hd
    · exact isWide_of_beginAt h

/-- A step shows `c`, a character of one byte, only where that byte stands. -/
theorem mem_decodeStep (hs : ∀ p, state = some p → p.IsWide) (h0 : 0 < c.toNat)
    (h : c.toNat < 128) (hm : c ∈ (decodeStep state b).1) : b.toNat = c.toNat := by
  cases state with
  | none => exact mem_beginAt h0 h hm
  | some q =>
    rw [decodeStep] at hm
    split at hm
    · next digit hd =>
      refine absurd hm (mem_push (hs q rfl) ?_ h0 h)
      rw [Pending.digit?] at hd
      split at hd
      · have := Option.some.inj hd
        omega
      · cases hd
    · rcases List.mem_cons.1 hm with rfl | hm
      · exact absurd rfl (ofNat_ne (n := 0xFFFD) (by decide) h0 h)
      · exact mem_beginAt h0 h hm

theorem mem_of_mem_decodeFrom (hs : ∀ p, state = some p → p.IsWide) (h0 : 0 < c.toNat)
    (h : c.toNat < 128) (hm : c ∈ decodeFrom state a) : UInt8.ofNat c.toNat ∈ a := by
  induction a generalizing state with
  | nil =>
    cases state with
    | none => exact absurd hm List.not_mem_nil
    | some p =>
      exact absurd (List.mem_singleton.1 hm) (ofNat_ne (n := 0xFFFD) (by decide) h0 h)
  | cons b rest ih =>
    rw [decodeFrom, List.mem_append] at hm
    rcases hm with hm | hm
    · rw [← mem_decodeStep hs h0 h hm, UInt8.ofNat_toNat]
      exact List.mem_cons_self
    · exact List.mem_cons_of_mem _ (ih (fun p hp => isWide_of_decodeStep hs hp) hm)

/-- A character below 128 in the text decoded from `a` stands for a byte of `a`. -/
theorem mem_of_mem_decode (h0 : 0 < c.toNat) (h : c.toNat < 128) (hm : c ∈ decode a) :
    UInt8.ofNat c.toNat ∈ a :=
  mem_of_mem_decodeFrom (fun _ hp => by cases hp) h0 h hm

end

end AgentDocs.Text
