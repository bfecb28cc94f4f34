import ElementCatalog.Number.Binary64

/-!
# The shortest decimal of a binary number

Every decimal that lies nearer to a binary number than to any other reads as that number.
`Binary64.shortest` picks among them one with the fewest digits, and of several with that few
digits the nearest to the number, with an even last digit where two are equally near.

The search goes through decimal grids from the coarsest on which the number is at least one step
to ever finer ones. On a grid only the two neighbours of the number have to be looked at: when
any point of the grid reads as the number, so does one of them.
-/

namespace ElementCatalog

/-- A positive decimal number: `digits · 10 ^ exponent`. -/
structure Decimal where
  /-- The digits, as a natural number. -/
  digits : Nat
  /-- The power of ten that the digits are scaled by. -/
  exponent : Int
deriving DecidableEq, Repr

namespace Decimal

/-- The same number without zeros at the end of its digits. -/
def stripZeros (digits : Nat) (exponent : Int) : Decimal :=
  if h : 0 < digits ∧ digits % 10 = 0 then stripZeros (digits / 10) (exponent + 1)
  else ⟨digits, exponent⟩
termination_by digits
decreasing_by omega

end Decimal

namespace Binary64

/-- The reals that read as a given positive number, in quarters of its last binary place. The
ends belong to them if the mantissa is even. -/
structure Neighbourhood where
  /-- The lower end. -/
  lower : Nat
  /-- The number itself. -/
  middle : Nat
  /-- The upper end. -/
  upper : Nat
  /-- The power of two that counts a quarter. -/
  exponent : Int
  /-- Whether the ends read as the number. -/
  closed : Bool

/-- The neighbourhood of a number. Below a power of two the numbers lie twice as dense. -/
def neighbourhood (x : Binary64) : Neighbourhood where
  lower := if x.mantissa = leastFull ∧ x.exponent ≠ -1074 then 4 * x.mantissa - 1
    else 4 * x.mantissa - 2
  middle := 4 * x.mantissa
  upper := 4 * x.mantissa + 2
  exponent := x.exponent - 2
  closed := x.mantissa % 2 == 0

/-- The four factors by which a count of quarters and a count of decimal steps become counts of
the same thing: powers of two and of ten, each with its positive and its negative part. -/
def Neighbourhood.factors (n : Neighbourhood) (step : Int) : Nat × Nat :=
  (Nat.pow 2 n.exponent.toNat * Nat.pow 10 (-step).toNat,
    Nat.pow 2 (-n.exponent).toNat * Nat.pow 10 step.toNat)

/-- Whether `count · 10 ^ step` lies in the neighbourhood. -/
def Neighbourhood.contains (n : Neighbourhood) (step : Int) (count : Nat) : Bool :=
  let (quarter, unit) := n.factors step
  if n.closed then n.lower * quarter ≤ count * unit && count * unit ≤ n.upper * quarter
  else n.lower * quarter < count * unit && count * unit < n.upper * quarter

/-- The point of a decimal grid that is picked for the number, if one reads as it: the nearer of
the two neighbours, or the even one. -/
def Neighbourhood.pick (n : Neighbourhood) (step : Int) : Option Nat :=
  let (quarter, unit) := n.factors step
  let below := n.middle * quarter / unit
  let remainder := n.middle * quarter % unit
  match n.contains step below, n.contains step (below + 1) with
  | true, true =>
    -- Both neighbours read as the number: the nearer one, and of two equally near the even one.
    if 2 * remainder < unit ∨ (2 * remainder = unit ∧ below % 2 = 0) then some below
    else some (below + 1)
  | true, false => some below
  | false, true => some (below + 1)
  | false, false => none

/-- The first pick of ever finer grids. Grids on which the number is below one step are passed. -/
def Neighbourhood.search (n : Neighbourhood) : Nat → Int → Decimal
  | 0, step => ⟨n.middle, step⟩
  | fuel + 1, step =>
    let (quarter, unit) := n.factors step
    -- The number is below one step of the grid.
    if n.middle * quarter / unit = 0 then n.search fuel (step - 1)
    else
      match n.pick step with
      | some digits => Decimal.stripZeros digits step
      | none => n.search fuel (step - 1)

/-- An exponent of ten above the number. -/
def decimalCeiling (x : Binary64) : Int :=
  (x.exponent + x.mantissa.log2 + 1) * 30103 / 100000 + 2

/-- The shortest decimal that reads as the given number, its sign apart. Seventeen digits always
suffice, and the ceiling is at most three places too high. -/
def shortest (x : Binary64) : Decimal :=
  if x.mantissa = 0 then ⟨0, 0⟩ else x.neighbourhood.search 24 x.decimalCeiling

end Binary64

end ElementCatalog
