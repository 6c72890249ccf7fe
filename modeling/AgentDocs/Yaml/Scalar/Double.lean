/-!
# Reals in double precision

A decimal number is rounded to the nearest real with 53 significant binary digits, a tie going to
the even neighbour. The digits are exact natural numbers throughout.
-/

namespace AgentDocs.Yaml

/-- A real as far as equality sees it: both zeros are one, and so are all values that are not
numbers. A finite real is `digits * 2 ^ exponent`. -/
inductive Double where
  | notANumber
  | infinite (negative : Bool)
  | finite (negative : Bool) (digits : Nat) (exponent : Int)
  deriving Repr, DecidableEq

namespace Double

/-- The natural number nearest to `num / den`, of two the even one. -/
def nearest (num den : Nat) : Nat :=
  let q := num / den
  let twice := 2 * (num % den)
  if twice < den then q
  else if den < twice then q + 1
  else if q % 2 = 0 then q else q + 1

/-- The fraction `num / den` divided by a power of two. -/
def scaled (num den : Nat) (exponent : Int) : Nat × Nat :=
  if exponent < 0 then (num * Nat.pow 2 exponent.natAbs, den)
  else (num, den * Nat.pow 2 exponent.natAbs)

/-- The least exponent of a finite real. -/
def leastExponent : Int := -1074

/-- The greatest exponent of a finite real. -/
def greatestExponent : Int := 971

/-- The real nearest to a positive fraction, or nothing where it is too large to be finite. -/
def ofFraction? (negative : Bool) (num den : Nat) : Option Double :=
  let guess : Int := (num.log2 : Int) - (den.log2 : Int) - 52
  let (n, d) := scaled num den guess
  let exponent := max leastExponent (if n < d * Nat.pow 2 52 then guess - 1 else guess)
  let (n, d) := scaled num den exponent
  let digits := nearest n d
  let (digits, exponent) :=
    if digits = Nat.pow 2 53 then (Nat.pow 2 52, exponent + 1) else (digits, exponent)
  if greatestExponent < exponent then none
  else if digits = 0 then some (finite false 0 0)
  else some (finite negative digits exponent)

/-- The real nearest to `digits * 10 ^ exponent`, or nothing where it is too large to be finite.
Exponents far outside the range are decided by the number of digits. -/
def round? (negative : Bool) (digits : Nat) (exponent : Int) : Option Double :=
  let magnitude : Int := (Nat.toDigits 10 digits).length + exponent
  if digits = 0 || magnitude < -330 then some (finite false 0 0)
  else if 310 < magnitude then none
  else if exponent < 0 then ofFraction? negative digits (Nat.pow 10 exponent.natAbs)
  else ofFraction? negative (digits * Nat.pow 10 exponent.natAbs) 1

end Double

end AgentDocs.Yaml
