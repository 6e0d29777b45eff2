import Ini.Numeral.Decimal

/-!
# Binary floating-point numbers

A number of an interchange format is a sign and a magnitude. The magnitude is
the number that the exponent and fraction bits make together, and it grows with
the value: the next greater value has the next greater magnitude, across the
borders between exponents as well as from the subnormal numbers to the normal
ones, and infinity comes after the greatest finite value. So to round is to
find an integer. With the unit in the last place fixed by the size of the value,
the nearest multiple of it is taken, an even one if two are equally near, and
added to the magnitude at which values with that unit begin.

All of it is integer arithmetic on an exact ratio; nothing is rounded twice.
-/

namespace Ini

/-- A format by the widths of its fields. -/
structure BinaryFormat where
  fractionBits : Nat
  exponentBits : Nat
  deriving DecidableEq, Repr

/-- A number of some format. All that is not a number is one value. -/
inductive Binary where
  | nan
  | number (negative : Bool) (magnitude : Nat)
  deriving DecidableEq, Repr

/-- The integer nearest to a ratio, the even one if two are equally near. -/
def roundEven (num den : Nat) : Nat :=
  let quotient := num / den
  let rest := num % den
  if den < 2 * rest ∨ (2 * rest = den ∧ quotient % 2 = 1) then quotient + 1 else quotient

/-- The greatest power of two that a positive ratio reaches. -/
def floorLog2 (num den : Nat) : Int :=
  let k : Int := (num.log2 : Int) - den.log2
  if num * Nat.pow 2 (-k).toNat < den * Nat.pow 2 k.toNat then k - 1 else k

namespace BinaryFormat

/-- Single precision. -/
def single : BinaryFormat := ⟨23, 8⟩

/-- Double precision. -/
def double : BinaryFormat := ⟨52, 11⟩

/-- The magnitude of infinity. -/
def infinity (f : BinaryFormat) : Nat :=
  (Nat.pow 2 f.exponentBits - 1) * Nat.pow 2 f.fractionBits

/-- The exponent of the least positive value. -/
def leastExponent (f : BinaryFormat) : Int :=
  2 - Int.pow 2 (f.exponentBits - 1) - f.fractionBits

/-- The magnitude of the value nearest to a ratio. -/
def roundRatio (f : BinaryFormat) (num den : Nat) : Nat :=
  if num = 0 then 0
  else
    let unit := max f.leastExponent (floorLog2 num den - f.fractionBits)
    let steps := roundEven (num * Nat.pow 2 (-unit).toNat) (den * Nat.pow 2 unit.toNat)
    min f.infinity ((unit - f.leastExponent).toNat * Nat.pow 2 f.fractionBits + steps)

/-- The magnitude of the value nearest to a coefficient times a power of ten.
Exponents so large that they leave no doubt are settled by their size: ten to
such a power is beyond the greatest value, or the product, being less than two
to the power that `log2` gives, is below half the least one. -/
def roundDecimal (f : BinaryFormat) (coefficient : Nat) (exponent : Int) : Nat :=
  if coefficient = 0 then 0
  else if Int.pow 2 (f.exponentBits - 1) ≤ exponent then f.infinity
  else if coefficient.log2 + 1 + 3 * exponent < f.leastExponent then 0
  else f.roundRatio (coefficient * Nat.pow 10 exponent.toNat) (Nat.pow 10 (-exponent).toNat)

/-- The value nearest to what a numeral denotes. -/
def ofDecimal (f : BinaryFormat) : Decimal → Binary
  | .nan => .nan
  | .infinity negative => .number negative f.infinity
  | .finite negative coefficient exponent =>
    .number negative (f.roundDecimal coefficient exponent)

/-- A finite magnitude as an integer times a power of two. -/
def expand (f : BinaryFormat) (magnitude : Nat) : Nat × Int :=
  let exponent := magnitude / Nat.pow 2 f.fractionBits
  let fraction := magnitude % Nat.pow 2 f.fractionBits
  if exponent = 0 then (fraction, f.leastExponent)
  else (Nat.pow 2 f.fractionBits + fraction, f.leastExponent + (exponent - 1))

/-- The nearest value of another format. -/
def convert (f target : BinaryFormat) : Binary → Binary
  | .nan => .nan
  | .number negative magnitude =>
    if f.infinity ≤ magnitude then .number negative target.infinity
    else
      let (mantissa, exponent) := f.expand magnitude
      .number negative
        (target.roundRatio (mantissa * Nat.pow 2 exponent.toNat) (Nat.pow 2 (-exponent).toNat))

/-- The bits of a number as one integer, the sign on top. -/
def encode (f : BinaryFormat) (negative : Bool) (magnitude : Nat) : Nat :=
  (if negative then Nat.pow 2 (f.exponentBits + f.fractionBits) else 0) + magnitude

end BinaryFormat

end Ini
