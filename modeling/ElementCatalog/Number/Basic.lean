import ElementCatalog.Number.Shortest

/-!
# Numbers

A number of a document is an integer of 64 bits, signed or unsigned, or a finite binary number.
An integer is never equal to a binary number, whatever their values.

`Number.ofLiteral` gives the number that a literal stands for. A literal without fraction and
exponent is an integer when it fits; minus zero and integers that do not fit are binary numbers.
`Number.text` writes a number such that it reads back: integers in decimal, binary numbers with
the fewest digits and always with a point or an exponent.
-/

namespace ElementCatalog

/-- The least signed integer of 64 bits, `- 2 ^ 63`. -/
def Number.leastInt : Int := -0x8000000000000000

/-- What unsigned integers of 64 bits lie below, `2 ^ 64`. -/
def Number.intBound : Int := 0x10000000000000000

/-- A number of a document. -/
inductive Number where
  /-- An integer that fits 64 bits, signed or unsigned. -/
  | int (value : Int) (bounds : Number.leastInt ≤ value ∧ value < Number.intBound)
  /-- A finite binary number. -/
  | binary (value : Binary64)
deriving DecidableEq, Repr

namespace Number

/-- The integer as a number, if it fits. -/
def ofInt? (value : Int) : Option Number :=
  if h : leastInt ≤ value ∧ value < intBound then some (.int value h) else none

/-- Whether two numbers are equal. The two zeros among the binary numbers are. -/
def same : Number → Number → Bool
  | .int a _, .int b _ => a == b
  | .binary a, .binary b => a.sameNumber b
  | _, _ => false

/-- A number as it is written in a document. -/
structure Literal where
  /-- Whether a minus sign stands in front. -/
  negative : Bool
  /-- The digits before the point. -/
  whole : List Char
  /-- The digits after the point. -/
  fraction : Option (List Char)
  /-- The exponent of ten. -/
  exponent : Option Int
deriving DecidableEq, Repr

/-- The natural number that decimal digits stand for. -/
def ofDigits (digits : List Char) : Nat :=
  digits.foldl (fun n c => 10 * n + (c.toNat - '0'.toNat)) 0

namespace Literal

/-- The literal as a binary number, unless it is beyond the greatest one. -/
def toBinary? (literal : Literal) : Option Binary64 :=
  let fraction := literal.fraction.getD []
  Binary64.ofDecimal literal.negative (ofDigits (literal.whole ++ fraction))
    (literal.exponent.getD 0 - fraction.length)

/-- The literal as an integer, if it has neither fraction nor exponent, is not minus zero and
fits. -/
def toInt? (literal : Literal) : Option Number :=
  match literal.fraction, literal.exponent with
  | none, none =>
    let magnitude := ofDigits literal.whole
    if literal.negative then
      if magnitude = 0 then none else ofInt? (-magnitude)
    else ofInt? magnitude
  | _, _ => none

end Literal

/-- The number that a literal stands for. A literal beyond the greatest number stands for none. -/
def ofLiteral (literal : Literal) : Option Number :=
  literal.toInt?.or (literal.toBinary?.map .binary)

/-- The least exponent of a leading digit that is written without an exponent. -/
def leastPlain : Int := -5

/-- The greatest exponent of a leading digit that is written without an exponent. -/
def greatestPlain : Int := 15

/-- The decimal digits of a natural number. -/
def digitsOf (n : Nat) : List Char :=
  Nat.toDigits 10 n

/-- A decimal number as text: digits with a point where the leading digit's exponent is moderate,
and else one digit before the point and an exponent with its sign. -/
def decimalText (x : Decimal) : List Char :=
  let digits := digitsOf x.digits
  let leading : Int := x.exponent + digits.length - 1
  if leastPlain ≤ leading ∧ leading ≤ greatestPlain then
    -- The point stands behind all digits, between two of them, or in front of all.
    if 0 ≤ x.exponent then digits ++ List.replicate x.exponent.toNat '0' ++ ['.', '0']
    else if 0 ≤ leading then
      digits.take (leading.toNat + 1) ++ '.' :: digits.drop (leading.toNat + 1)
    else '0' :: '.' :: List.replicate ((-leading).toNat - 1) '0' ++ digits
  else
    let fraction := if digits.length = 1 then [] else '.' :: digits.drop 1
    let sign := if leading < 0 then '-' else '+'
    digits.take 1 ++ fraction ++ ['e', sign] ++ digitsOf leading.natAbs

/-- A number as text. -/
def text : Number → String
  | .int value _ =>
    String.ofList ((if value < 0 then ['-'] else []) ++ digitsOf value.natAbs)
  | .binary value =>
    String.ofList ((if value.negative then ['-'] else []) ++ decimalText value.shortest)

/-- Every number is equal to itself. -/
@[simp]
theorem same_self (a : Number) : a.same a = true := by
  cases a <;> simp [same]

end Number

end ElementCatalog
