import Ini.Reader
import Ini.Render
import Ini.Resolve
import Ini.Text.Convert

/-!
# Configurations

A configuration is a store together with the dialect it is read and written in.
Its functions are what a program uses: they fold the keys they are given, so
that a key may be spelled in any case, and they address the defaults by the
dialect's name for them or, where something is stored, by an empty name.

A function that changes the configuration gives the changed one beside its
outcome, because a reading that fails has stored what came before the fault. All
other changes either happen as a whole or leave the configuration as it is.
-/

namespace Ini

/-- A store and the dialect it is read and written in. -/
structure Config where
  dialect : Dialect
  store : Store
  deriving DecidableEq, Repr

/-- The name under which text without a source of its own is read. -/
def stringSource : Text := "<string>".toList

/-- The text in a file: there must be such a file, and it must be UTF-8. -/
def fileText : Option ByteArray → Except Fault Text
  | none => .error (.transfer .missing)
  | some bytes =>
    match String.fromUTF8? bytes with
    | some text => .ok text.toList
    | none => .error (.transfer .notUtf8)

namespace Config

/-- The configuration with nothing in it. -/
def empty (d : Dialect) : Config := ⟨d, { defaultName := d.defaultSection }⟩

/-- Reads a text. -/
def read (source text : Text) (c : Config) : Config × Except Fault Unit :=
  let (store, outcome) := c.store.read c.dialect source text
  ({ c with store := store }, outcome)

/-- Reads the content of a file under its name. -/
def load (name : Text) (content : Option ByteArray) (c : Config) : Config × Except Fault Unit :=
  match fileText content with
  | .ok text => c.read name text
  | .error fault => (c, .error fault)

/-- Adds an empty section. -/
def addSection (name : Text) (c : Config) : Config × Except Fault Unit :=
  if name = c.dialect.defaultSection then (c, .error (.reservedName name))
  else if name.isEmpty then (c, .error .emptyName)
  else if c.store.hasSection name then (c, .error (.sectionExists name none))
  else ({ c with store := c.store.insertSection name }, .ok ())

/-- Takes a section out, and says whether it was there. -/
def removeSection (name : Text) (c : Config) : Config × Bool :=
  ({ c with store := c.store.removeSection name }, c.store.hasSection name)

/-- The section that a name addresses where something is stored. -/
def target (name : Text) (c : Config) : Text :=
  if name.isEmpty then c.dialect.defaultSection else name

/-- Stores an entry. -/
def set (name key : Text) (value : Option Text) (c : Config) : Config × Except Fault Unit :=
  match c.store.entries? (c.target name) with
  | none => (c, .error (.noSection (c.target name)))
  | some _ => ({ c with store := c.store.put (c.target name) key.fold value }, .ok ())

/-- Takes an entry out, and says whether it was there. -/
def unset (name key : Text) (c : Config) : Config × Except Fault Bool :=
  match c.store.entries? (c.target name) with
  | none => (c, .error (.noSection (c.target name)))
  | some entries =>
    ({ c with store := c.store.remove (c.target name) key.fold }, .ok (entries.contains key.fold))

/-- Takes everything out. -/
def clear (c : Config) : Config := { c with store := c.store.clear }

end Config

end Ini
