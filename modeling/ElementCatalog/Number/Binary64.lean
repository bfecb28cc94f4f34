/-!
# Finite binary64 numbers

A `Binary64` is a finite number of the 64-bit binary format, in sign, mantissa and exponent. The
representation is canonical, so two numbers are equal as data exactly if they are the same
number with the same sign; only the two zeros are equal as numbers and differ as data
(`Binary64.sameNumber`).

`Binary64.ofDecimal` reads a decimal: it rounds the exact quotient to the nearest number of the
format, and of two equally near ones takes the one with the even mantissa.
-/

namespace ElementCatalog

/-- The least mantissa of 53 bits, `2 ^ 52`. -/
def Binary64.leastFull : Nat := 0x10000000000000

/-- What mantissas lie below, `2 ^ 53`. -/
def Binary64.mantissaBound : Nat := 0x20000000000000

/-- Mantissa and exponent in the one form that the format stores: 53 bits where the exponent can
still be lowered, fewer at the least exponent. -/
def Binary64.Canonical (mantissa : Nat) (exponent : Int) : Prop :=
  mantissa < mantissaBound ∧ -1074 ≤ exponent ∧ exponent ≤ 971 ∧
    (leastFull ≤ mantissa ∨ exponent = -1074)

instance (mantissa : Nat) (exponent : Int) : Decidable (Binary64.Canonical mantissa exponent) := by
  unfold Binary64.Canonical
  infer_instance

/-- A finite number of the 64-bit binary format: `± mantissa · 2 ^ exponent`. -/
structure Binary64 where
  /-- Whether the sign is negative. Zero has a sign too. -/
  negative : Bool
  /-- The digits in base two, as a natural number. -/
  mantissa : Nat
  /-- The power of two that the mantissa is scaled by. -/
  exponent : Int
  /-- The number is in stored form. -/
  canonical : Binary64.Canonical mantissa exponent
deriving DecidableEq, Repr

namespace Binary64

/-- Zero of the given sign. -/
def zero (negative : Bool) : Binary64 :=
  ⟨negative, 0, -1074, by decide⟩

/-- Whether two numbers have the same value. The two zeros have. -/
def sameNumber (a b : Binary64) : Bool :=
  a == b || (a.mantissa == 0 && b.mantissa == 0)

/-- The quotient rounded to the nearest natural number, and to the even one of two. -/
def roundQuotient (numerator denominator : Nat) : Nat :=
  let quotient := numerator / denominator
  let remainder := numerator % denominator
  if denominator < 2 * remainder ∨ (2 * remainder = denominator ∧ quotient % 2 = 1) then
    quotient + 1
  else
    quotient

/-- The quotient `numerator / (denominator · 2 ^ exponent)` as a fraction of natural numbers. -/
def scaleDown (numerator denominator : Nat) (exponent : Int) : Nat × Nat :=
  if 0 ≤ exponent then (numerator, denominator * Nat.pow 2 exponent.toNat)
  else (numerator * Nat.pow 2 (-exponent).toNat, denominator)

/-- The exponent at which the fraction has a mantissa of 53 bits, or the least exponent. -/
def exponentOf (numerator denominator : Nat) : Int :=
  -- The quotient has the guessed exponent or the one below it.
  let guess : Int := numerator.log2 - denominator.log2 - 52
  let (scaled, unit) := scaleDown numerator denominator guess
  max (-1074) (if leastFull ≤ scaled / unit then guess else guess - 1)

/-- The number nearest to a fraction, unless the fraction is beyond the greatest number. -/
def ofFraction (negative : Bool) (numerator denominator : Nat) : Option Binary64 :=
  if numerator = 0 then some (zero negative)
  else
    let exponent := exponentOf numerator denominator
    let (scaled, unit) := scaleDown numerator denominator exponent
    let rounded := roundQuotient scaled unit
    -- Rounding up can lead to the least mantissa of the next exponent.
    let (mantissa, exponent) :=
      if rounded = mantissaBound then (leastFull, exponent + 1) else (rounded, exponent)
    if h : Canonical mantissa exponent then some ⟨negative, mantissa, exponent, h⟩ else none

/-- The number nearest to `± digits · 10 ^ exponent`, unless that is beyond the greatest number.
Decimals above `10 ^ 310` are beyond it, and those below `10 ^ -330` are nearest to zero. -/
def ofDecimal (negative : Bool) (digits : Nat) (exponent : Int) : Option Binary64 :=
  let magnitude : Int := (Nat.toDigits 10 digits).length + exponent
  if digits = 0 ∨ magnitude < -330 then some (zero negative)
  else if 310 < magnitude then none
  else if 0 ≤ exponent then ofFraction negative (digits * Nat.pow 10 exponent.toNat) 1
  else ofFraction negative digits (Nat.pow 10 (-exponent).toNat)

/-- Every number has the same value as itself. -/
@[simp]
theorem sameNumber_self (a : Binary64) : a.sameNumber a = true := by
  simp [sameNumber]

/-- The zeros have the same value, whatever their signs. -/
theorem sameNumber_zero (a b : Bool) : (zero a).sameNumber (zero b) = true := by
  cases a <;> cases b <;> decide

end Binary64

end ElementCatalog
