import AgentDocs.Yaml.Scalar.Quoted
import AgentDocs.Yaml.Scalar.Double

/-!
# What plain scalars mean

A plain scalar is a null, a flag, an integer or a real where its text has one of their forms, and
text otherwise. Digits after a leading zero are text.
-/

namespace AgentDocs.Yaml

/-- What a plain scalar means. An integer is wide if it needs more than 64 bits. -/
inductive Meaning where
  | null
  | flag (value : Bool)
  | integer (value : Int)
  | wideInteger (value : Int)
  | real (value : Double)
  | text
  deriving Repr, DecidableEq

/-- The texts of null. -/
def isNull (s : List Char) : Bool :=
  ["".toList, "~".toList, "null".toList, "Null".toList, "NULL".toList].contains s

/-- The flag that a text stands for. -/
def flag? (s : List Char) : Option Bool :=
  if ["true".toList, "True".toList, "TRUE".toList].contains s then some true
  else if ["false".toList, "False".toList, "FALSE".toList].contains s then some false
  else none

/-! ## Integers -/

/-- A text begins with a sign. -/
def isSigned (s : List Char) : Bool := s.head?.any fun c => c == '+' || c == '-'

/-- A text without one plus sign in front. -/
def withoutPlus (s : List Char) : List Char := if s.head? = some '+' then s.drop 1 else s

/-- The value of digits in a base after those that make `value`. -/
def digitsValue? (base value : Nat) : List Char → Option Nat
  | [] => some value
  | c :: rest =>
    match hexDigit? c with
    | none => none
    | some d => if d < base then digitsValue? base (value * base + d) rest else none

/-- The value of at least one digit in a base. -/
def numeral? (base : Nat) (s : List Char) : Option Nat :=
  if s.isEmpty then none else digitsValue? base 0 s

/-- Digits of which the first of several is a zero make no number. -/
def isPaddedDigits (s : List Char) : Bool :=
  let s := if isSigned s then s.drop 1 else s
  decide (1 < s.length) && s.head? == some '0' && s.all Char.isDigit

/-- The base that the beginning of a number gives, and the digits after it. -/
def based? (s : List Char) : Option (Nat × List Char) :=
  match s with
  | '0' :: 'x' :: rest => some (16, rest)
  | '0' :: 'o' :: rest => some (8, rest)
  | '0' :: 'b' :: rest => some (2, rest)
  | _ => none

/-- The integer that a text without a minus sign stands for. -/
def natural? (s : List Char) : Option Nat :=
  let unsigned := withoutPlus s
  match based? unsigned with
  | some (base, rest) => numeral? base rest
  | none => if isPaddedDigits s then none else numeral? 10 unsigned

/-- The integer that a text with a minus sign stands for, as its absolute value. -/
def negative? (s : List Char) : Option Nat :=
  match s with
  | '-' :: rest =>
    match based? rest with
    | some (base, rest) => numeral? base rest
    | none => if isPaddedDigits s then none else numeral? 10 rest
  | _ => none

/-- The integer that a text stands for. -/
def integer? (s : List Char) : Option Int :=
  match natural? s with
  | some n => some n
  | none => (negative? s).map fun n => -(n : Int)

/-! ## Reals -/

/-- The digits of a number with its point left out, the exponent that this takes, and the rest. -/
def mantissa? (s : List Char) : Option (Nat × Int × List Char) :=
  let whole := s.takeWhile Char.isDigit
  let rest := s.drop whole.length
  let fraction := if rest.head? = some '.' then (rest.drop 1).takeWhile Char.isDigit else []
  let rest := if rest.head? = some '.' then rest.drop (fraction.length + 1) else rest
  (numeral? 10 (whole ++ fraction)).map fun n => (n, -(fraction.length : Int), rest)

/-- The exponent that ends a number. -/
def exponent? (s : List Char) : Option Int :=
  match s with
  | [] => some 0
  | c :: rest =>
    if c != 'e' && c != 'E' then none
    else
      match rest with
      | '-' :: digits => (numeral? 10 digits).map fun n => -(n : Int)
      | '+' :: digits => (numeral? 10 digits).map fun n => (n : Int)
      | digits => (numeral? 10 digits).map fun n => (n : Int)

/-- The finite real that decimal digits stand for. -/
def decimal? (s : List Char) : Option Double := do
  let minus := s.head? = some '-'
  let (digits, shift, rest) ← mantissa? (if minus then s.drop 1 else s)
  let exponent ← exponent? rest
  Double.round? minus digits (shift + exponent)

/-- The real that a text stands for. -/
def real? (s : List Char) : Option Double :=
  let unsigned := withoutPlus s
  if s.head? = some '+' && isSigned unsigned then none
  else if [".inf".toList, ".Inf".toList, ".INF".toList].contains unsigned then
    some (.infinite false)
  else if ["-.inf".toList, "-.Inf".toList, "-.INF".toList].contains s then some (.infinite true)
  else if [".nan".toList, ".NaN".toList, ".NAN".toList].contains s then some .notANumber
  else decimal? unsigned

/-! ## Meanings -/

/-- An integer fits into some bits: a negative one with its sign, any other without one. -/
def fits (bits : Nat) (n : Int) : Bool :=
  if n < 0 then n.natAbs ≤ Nat.pow 2 (bits - 1) else n.natAbs < Nat.pow 2 bits

/-- The meaning of an integer: within 64 bits, within 128 bits, or none. -/
def Meaning.ofInteger? (n : Int) : Option Meaning :=
  if fits 64 n then some (.integer n)
  else if fits 128 n then some (.wideInteger n)
  else none

/-- What a plain scalar means. -/
def Meaning.ofPlain (s : List Char) : Meaning :=
  if isNull s then .null
  else
    match flag? s with
    | some b => .flag b
    | none =>
      match (integer? s).bind Meaning.ofInteger? with
      | some m => m
      | none =>
        if isPaddedDigits s then .text
        else
          match real? s with
          | some r => .real r
          | none => .text

end AgentDocs.Yaml
