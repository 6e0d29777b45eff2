import Ini.Config.Basic

/-!
# Asking a configuration

What a configuration says about a section is its own entries and, behind them,
the defaults. The raw answers are the values as they were stored; the others
have their references resolved. A key without a value reads as the empty text.
-/

namespace Ini.Config

/-- The defaults are always there. -/
def hasSection (name : Text) (c : Config) : Bool :=
  name = c.dialect.defaultSection || c.store.hasSection name

/-- Whether a section that is there has the key or inherits it. -/
def hasKey (name key : Text) (c : Config) : Bool :=
  match c.store.entries? name with
  | none => false
  | some own =>
    own.contains key.fold
      || (name ≠ c.dialect.defaultSection && c.store.defaults.contains key.fold)

/-- The named sections in order of their making. -/
def sectionNames (c : Config) : List Text := c.store.sectionNames

/-- Whether there is neither a named section nor a default. -/
def isEmpty (c : Config) : Bool := c.store.sections.isEmpty && c.store.defaults.isEmpty

/-- The keys of a section, its own before those it inherits. -/
def keys (name : Text) (c : Config) : Except Fault (List Text) :=
  match c.store.entries? name with
  | none => .error (.noSection name)
  | some own =>
    .ok (if name = c.dialect.defaultSection then own.keys
      else own.keys ++ c.store.defaults.keys.filter fun key => !own.contains key)

/-- The value as it was stored. -/
def getRaw (name key : Text) (c : Config) : Except Fault (Option Text) :=
  c.store.lookup name key.fold

/-- The resolved form of a value that was found. -/
def settled (name key : Text) (c : Config) : Option Text → Except Fault Text
  | some raw => c.store.resolve c.dialect name key raw
  | none => .ok []

/-- The value with its references resolved. Faults show the key as it was asked
for. -/
def get (name key : Text) (c : Config) : Except Fault Text := do
  c.settled name key (← c.getRaw name key)

/-- The resolved value, or another text if there is no such key. A reference
inside the value that leads nowhere is a fault all the same. -/
def getOr (name key fallback : Text) (c : Config) : Except Fault Text :=
  match c.getRaw name key with
  | .ok value => c.settled name key value
  | .error fault => if fault.isNotFound then .ok fallback else .error fault

/-- The value as a 64-bit integer. -/
def getInt (name key : Text) (c : Config) : Except Fault Int := do
  (← c.get name key).toInteger ⟨true, 64⟩

/-- The value as a number in double precision. -/
def getFloat (name key : Text) (c : Config) : Except Fault Binary := do
  (← c.get name key).toFloat .double

/-- The value as a truth value. -/
def getBool (name key : Text) (c : Config) : Except Fault Bool := do
  (← c.get name key).toBoolean

/-- Entries with their values resolved; the first fault counts. -/
def resolveEntries (name : Text) (c : Config) : Entries → Except Fault Entries
  | [] => .ok []
  | (key, none) :: rest => return (key, none) :: (← c.resolveEntries name rest)
  | (key, some raw) :: rest => do
    let value ← c.store.resolve c.dialect name key raw
    return (key, some value) :: (← c.resolveEntries name rest)

/-- The entries of a section as they were stored, its own before those it
inherits. -/
def rawItems (name : Text) (c : Config) : Except Fault Entries := c.store.mergedEntries name

/-- The entries of a section with their values resolved. -/
def items (name : Text) (c : Config) : Except Fault Entries := do
  c.resolveEntries name (← c.rawItems name)

/-- The text that reads back to the configuration. -/
def render (spaced : Bool) (c : Config) : Except Fault Text := c.store.render c.dialect spaced

/-- The text, if there is room for it. -/
def renderWithin (spaced : Bool) (capacity : Nat) (c : Config) : Except Fault Text := do
  Render.fitting capacity (← c.render spaced)

/-- The sections with their own entries, the defaults first unless empty. -/
def view (c : Config) : Table Text Entries := c.store.view

/-- Whether two configurations have the same dialect and hold the same. -/
def same (c other : Config) : Bool := c.dialect = other.dialect && c.store.same other.store

end Ini.Config
