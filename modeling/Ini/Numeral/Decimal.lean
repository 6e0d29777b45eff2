import Ini.Numeral.Integer

/-!
# Decimal numerals

A number with a fraction is written as digits with an optional point among
them, at least one digit in all, and an optional power of ten. Infinity and the
absence of a number have words of their own, in any case. A sign may stand
before all of these.

What is read is the exact number. Rounding it to a machine format is the
business of `Binary`.
-/

namespace Ini

/-- What a decimal numeral denotes. -/
inductive Decimal where
  | nan
  | infinity (negative : Bool)
  /-- The coefficient times a power of ten. A zero keeps its sign. -/
  | finite (negative : Bool) (coefficient : Nat) (exponent : Int)
  deriving DecidableEq, Repr

namespace Decimal

/-- A sign, if there is one, and what follows it. -/
def splitSign : Text → Bool × Text
  | '+' :: rest => (false, rest)
  | '-' :: rest => (true, rest)
  | text => (false, text)

/-- The digits at the start of a text, and what follows them. -/
def splitDigits (text : Text) : Text × Text := text.span Char.isDigit

/-- The digits after a point, if a point comes next, and what follows them. -/
def splitFraction : Text → Text × Text
  | '.' :: rest => splitDigits rest
  | text => ([], text)

/-- The power of ten that ends a numeral, zero if none is written. -/
def exponent? : Text → Option Int
  | [] => some 0
  | c :: rest =>
    if c = 'e' ∨ c = 'E' then
      let (negative, digits) := splitSign rest
      (natural? digits).map fun n => if negative then -Int.ofNat n else Int.ofNat n
    else none

/-- A numeral in digits, without its sign. -/
def unsigned? (negative : Bool) (text : Text) : Option Decimal :=
  let (whole, rest) := splitDigits text
  let (fraction, rest) := splitFraction rest
  if whole.isEmpty && fraction.isEmpty then none
  else
    (exponent? rest).map fun power =>
      finite negative (digitsValue (whole ++ fraction)) (power - fraction.length)

/-- The words for numbers that have no digits. -/
def word? (negative : Bool) (text : Text) : Option Decimal :=
  if text.fold = "nan".toList then some nan
  else if text.fold = "inf".toList ∨ text.fold = "infinity".toList then
    some (infinity negative)
  else none

/-- Reads a numeral. -/
def read? (text : Text) : Option Decimal :=
  let (negative, rest) := splitSign text
  (word? negative rest).or (unsigned? negative rest)

end Decimal

end Ini
