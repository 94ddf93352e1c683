/-!
# Binary floating-point numbers of 64 bits

`Binary64` is a finite number of that format, as its sign, an integer mantissa and a power of two:
`± mantissa · 2 ^ exponent`. The proof field leaves one such writing for each number, so equality of
the structure is sameness of the number, with `-0.0` and `0.0` apart. Infinities and NaN are no
values here: an operation whose result is too large has none.

Everything is exact arithmetic on natural numbers. `Binary64.round` takes a quotient of two of them
to the nearest number of the format, a tie to the even mantissa; products and quotients of numbers
are the exact ones, rounded once.

**Decimals are read in steps.** `Binary64.ofDecimal` rounds the significand, then multiplies or
divides by the number nearest to a power of ten, and each step rounds. For significands below
`2 ^ 53` and powers up to `10 ^ 22` that is the nearest number to the decimal; beyond, it can be off
by the last bit.
-/

set_option autoImplicit false

namespace TypedFlags

/-- The mantissas and exponents of the format: a mantissa is below `2 ^ 53`, and not below `2 ^ 52`
    unless the exponent is the least. -/
def Binary64.Canonical (mantissa : Nat) (exponent : Int) : Prop :=
  mantissa < 0x20000000000000 ∧ -1074 ≤ exponent ∧ exponent ≤ 971 ∧
    (0x10000000000000 ≤ mantissa ∨ exponent = -1074)

instance (mantissa : Nat) (exponent : Int) :
    Decidable (Binary64.Canonical mantissa exponent) :=
  inferInstanceAs (Decidable (_ ∧ _ ∧ _ ∧ _))

/-- A finite number of the format. -/
structure Binary64 where
  negative : Bool
  mantissa : Nat
  exponent : Int
  canonical : Binary64.Canonical mantissa exponent
  deriving DecidableEq

namespace Binary64

/-- Zero, with a sign. -/
def zero (negative : Bool) : Binary64 := ⟨negative, 0, -1074, by decide⟩

/-- Whether a number is zero, of either sign. -/
def isZero (x : Binary64) : Bool := x.mantissa = 0

/-- The number with its sign replaced. -/
def withSign (x : Binary64) (negative : Bool) : Binary64 := { x with negative }

/-- Whether a number has no fractional part. -/
def isIntegral (x : Binary64) : Bool :=
  x.mantissa % Nat.pow 2 (-x.exponent).toNat = 0

/-- The magnitude of a number as a quotient; one of the two powers is `1`. -/
def ratio (x : Binary64) : Nat × Nat :=
  (x.mantissa * Nat.pow 2 x.exponent.toNat, Nat.pow 2 (-x.exponent).toNat)

/-- The integer nearest to `num / den`, a tie to the even one. -/
def roundQuotient (num den : Nat) : Nat :=
  let q := num / den
  let twice := 2 * (num % den)
  if den < twice ∨ (twice = den ∧ q % 2 = 1) then q + 1 else q

/-- The integer part of the binary logarithm of `num / den`, both positive. -/
def floorLog2 (num den : Nat) : Int :=
  let k : Int := (Nat.log2 num : Int) - Nat.log2 den
  if den * Nat.pow 2 k.toNat ≤ num * Nat.pow 2 (-k).toNat then k else k - 1

/-- The number nearest to `num / den`, a tie to the even mantissa; none if that is too large. -/
def round (num den : Nat) : Option Binary64 :=
  if num = 0 then some (zero false)
  else
    let exponent := max (floorLog2 num den - 52) (-1074)
    let mantissa :=
      roundQuotient (num * Nat.pow 2 (-exponent).toNat) (den * Nat.pow 2 exponent.toNat)
    let (mantissa, exponent) :=
      if mantissa = 0x20000000000000 then (0x10000000000000, exponent + 1) else (mantissa, exponent)
    if h : Canonical mantissa exponent then some ⟨false, mantissa, exponent, h⟩ else none

/-- The rounded product of two magnitudes. -/
def mul? (x y : Binary64) : Option Binary64 :=
  round (x.ratio.1 * y.ratio.1) (x.ratio.2 * y.ratio.2)

/-- The rounded quotient of two magnitudes. -/
def div? (x y : Binary64) : Option Binary64 :=
  if y.isZero then none else round (x.ratio.1 * y.ratio.2) (x.ratio.2 * y.ratio.1)

/-- The greatest power of ten in the format. -/
def maxPower : Nat := 308

/-- The number nearest to a power of ten. -/
def powerOfTen? (k : Nat) : Option Binary64 := round (Nat.pow 10 k) 1

/-- Multiplies by `10 ^ k`. A number other than zero has no product with a power of ten beyond the
    greatest. -/
def scaleUp? (x : Binary64) (k : Nat) : Option Binary64 :=
  if k ≤ maxPower then (powerOfTen? k).bind x.mul?
  else if x.isZero then some x
  else none

/-- Divides by `10 ^ k`, by the greatest power of ten at a time. -/
def scaleDown? (x : Binary64) (k : Nat) : Option Binary64 :=
  if k ≤ maxPower then (powerOfTen? k).bind x.div?
  else if x.isZero then some x
  else (powerOfTen? maxPower).bind x.div? |>.bind (scaleDown? · (k - maxPower))
termination_by k
decreasing_by simp_all [maxPower]; omega

/-- The number that the decimal `± significand · 10 ^ power` is read as; none if it is too large. -/
def ofDecimal (negative : Bool) (significand : Nat) (power : Int) : Option Binary64 := do
  let x ← round significand 1
  let y ← if 0 ≤ power then x.scaleUp? power.toNat else x.scaleDown? (-power).toNat
  return y.withSign negative

/-- The number nearest to the decimal `± significand · 10 ^ power`; none if that is too large.
    Decimals far outside the range of the format are not computed: with `length` digits, a decimal
    lies between `10 ^ (power + length - 1)` and `10 ^ (power + length)`. -/
def nearest? (negative : Bool) (significand length : Nat) (power : Int) : Option Binary64 :=
  if significand = 0 ∨ power + length < -400 then some (zero negative)
  else if 400 < power then none
  else
    (round (significand * Nat.pow 10 power.toNat) (Nat.pow 10 (-power).toNat)).map
      (·.withSign negative)

end Binary64

end TypedFlags
