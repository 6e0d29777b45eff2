import Ini.Fault
import Ini.Numeral.Binary
import Ini.Text.Blank

/-!
# Converting text

A value is text until someone asks for more. The blanks around it are then
ignored, but a fault shows the value as it stands.
-/

namespace Ini.Text

/-- The words for yes. -/
def trueWords : List Text := ["1".toList, "yes".toList, "true".toList, "on".toList]

/-- The words for no. -/
def falseWords : List Text := ["0".toList, "no".toList, "false".toList, "off".toList]

/-- The truth value that a word stands for, in any case. -/
def truth? (word : Text) : Option Bool :=
  if trueWords.contains word.fold then some true
  else if falseWords.contains word.fold then some false
  else none

/-- What was read, or the fault that nothing could be. -/
def orNotA {α : Type} (kind : Kind) (value : Text) : Option α → Except Fault α
  | some result => .ok result
  | none => .error (.notA kind value)

/-- The value as an integer of a type. -/
def toInteger (value : Text) (t : IntType) : Except Fault Int :=
  orNotA .integer value (t.read? value.trim)

/-- The value as a floating-point number of a format. -/
def toFloat (value : Text) (f : BinaryFormat) : Except Fault Binary :=
  orNotA .float value ((Decimal.read? value.trim).map f.ofDecimal)

/-- The value as a truth value. -/
def toBoolean (value : Text) : Except Fault Bool :=
  orNotA .boolean value (truth? value.trim)

end Ini.Text
