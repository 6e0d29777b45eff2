import Ini.Text.Basic

/-!
# Integers

An integer is written as digits, after a sign if need be; a minus sign is
understood only where negative numbers are. Leading zeros do not count. The
number has to lie in the range of the type asked for: nothing wraps and nothing
is cut off.
-/

namespace Ini

/-- The number that decimal digits make. -/
def digitsValue (digits : Text) : Nat :=
  digits.foldl (fun value c => 10 * value + (c.toNat - '0'.toNat)) 0

/-- Reads one or more digits. -/
def natural? (text : Text) : Option Nat :=
  if !text.isEmpty && text.all Char.isDigit then some (digitsValue text) else none

/-- A type of integers: those of so many binary digits, a sign among them or not. -/
structure IntType where
  signed : Bool
  bits : Nat
  deriving DecidableEq, Repr

namespace IntType

/-- The least number of the type. -/
def least (t : IntType) : Int := if t.signed then -Int.pow 2 (t.bits - 1) else 0

/-- The greatest number of the type. -/
def greatest (t : IntType) : Int :=
  if t.signed then Int.pow 2 (t.bits - 1) - 1 else Int.pow 2 t.bits - 1

/-- Whether a number is one of the type. -/
def holds (t : IntType) (n : Int) : Bool := t.least ≤ n && n ≤ t.greatest

/-- Reads a number without asking for its size. -/
def numeral? (t : IntType) : Text → Option Int
  | '+' :: digits => (natural? digits).map Int.ofNat
  | '-' :: digits => if t.signed then (natural? digits).map fun n => -Int.ofNat n else none
  | digits => (natural? digits).map Int.ofNat

/-- Reads a number of the type. -/
def read? (t : IntType) (text : Text) : Option Int := (t.numeral? text).filter t.holds

/-- The name of the type: its kind and its width. -/
def name (t : IntType) : String := (if t.signed then "i" else "u") ++ toString t.bits

end IntType

end Ini
