import Ini.Shape.Read

/-!
# Step by step

A section can also be gone through by hand: a key, then its value, then the
next key. The value of a key can be had once, and only after the key; passing
on to the next key without asking for the value is allowed.
-/

namespace Ini

/-- A place among the entries of a section: those not yet met, and the value of
the last key met until it is asked for. -/
structure Cursor where
  rest : Entries
  held : Option (Option Text) := none
  deriving DecidableEq, Repr

namespace Cursor

/-- The place before the first entry. -/
def ofEntries (entries : Entries) : Cursor := { rest := entries }

/-- How many keys are still to come. -/
def remaining (c : Cursor) : Nat := c.rest.length

/-- Goes on to the next key, if there is one. -/
def nextKey (shape : Scalar) (c : Cursor) : Cursor × Except Fault (Option Atom) :=
  match c.rest with
  | [] => (c, .ok none)
  | (key, value) :: rest => ({ rest, held := some value }, (shape.read (some key)).map some)

/-- The value of the last key met. -/
def nextValue (shape : Shape) (c : Cursor) : Cursor × Except Fault Value :=
  match c.held with
  | none => (c, .error (.shape .noValue))
  | some value => ({ c with held := none }, shape.read value)

end Cursor

end Ini
