import Ini.Numeral.Binary
import Ini.Table

/-!
# Shapes

A program that wants more than text says what it wants by a `Shape`, and gets a
`Value`. Shapes that can serve as keys of a table are a type of their own,
`Scalar`, for their values can be compared.

A shape may ask for something that text in a section never gives, such as a
tuple or a record inside a record. Such a shape is not refused beforehand: what
fails is the reading, and the fault names what was expected.
-/

namespace Ini

/-- A choice between named variants. A variant may carry a value, but a word
alone gives none. -/
structure Choice where
  name : String
  variants : List (Text × Bool)
  deriving DecidableEq, Repr

/-- Shapes whose values can be keys. -/
inductive Scalar where
  | text
  | boolean
  /-- A single character. -/
  | character
  | integer (t : IntType)
  | choice (c : Choice)
  deriving DecidableEq, Repr

/-- What a scalar is read as. -/
inductive Atom where
  | text (value : Text)
  | boolean (value : Bool)
  | character (value : Char)
  | integer (value : Int)
  | variant (name : Text)
  deriving DecidableEq, Repr

/-- What a value or a section is read as. -/
inductive Value where
  | atom (value : Atom)
  | float (value : Binary)
  | unit
  | absent
  | present (value : Value)
  | list (values : List Value)
  /-- How many items were left before each item and at the end. -/
  | counts (left : List Nat)
  | table (entries : List (Atom × Value))
  | record (fields : List (Text × Value))

/-- What may be asked for. -/
inductive Shape where
  | scalar (s : Scalar)
  | float (f : BinaryFormat)
  | unit
  /-- Whatever is there, without looking at it. -/
  | ignored
  /-- Whatever is there. -/
  | any
  | optional (inner : Shape)
  | list (inner : Shape)
  /-- A count of what is left, before each item and at the end. -/
  | countdown
  /-- A value under a name of its own. -/
  | wrapper (name : String) (inner : Shape)
  | unitRecord (name : String)
  | tuple (name : Option String) (size : Nat)
  | table (key : Scalar) (value : Shape)
  /-- Fields by name, each with what stands for it when it is missing, if
  anything may. A closed record has no room for other fields. -/
  | record (name : String) (fields : List (Text × Shape × Option Value)) (closed : Bool)

/-- The name of a format by its width. -/
def BinaryFormat.name (f : BinaryFormat) : String :=
  "f" ++ toString (f.fractionBits + f.exponentBits + 1)

/-- A scalar in the words of a fault. -/
def Scalar.expectation : Scalar → String
  | text => "a string"
  | boolean => "a boolean"
  | character => "a character"
  | integer t => t.name
  | choice c => "enum " ++ c.name

/-- A shape in the words of a fault. -/
def Shape.expectation : Shape → String
  | scalar s => s.expectation
  | float f => f.name
  | unit => "unit"
  | ignored | any | countdown => "anything at all"
  | optional _ => "option"
  | list _ => "a sequence"
  | wrapper name _ => "tuple struct " ++ name
  | unitRecord name => "unit struct " ++ name
  | tuple none size => s!"a tuple of size {size}"
  | tuple (some name) _ => "tuple struct " ++ name
  | table .. => "a map"
  | record name .. => "struct " ++ name

end Ini
