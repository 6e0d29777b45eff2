import Ini.Text.Quoted

/-!
# Faults

Whatever goes wrong is one `Fault`, which names its cause by the data a caller
could act on: the section and key, the place in the text that was read, the
piece of a value that could not be understood. The wording is `Fault.message`
and is not consulted anywhere.
-/

namespace Ini

/-- A line of a named text. Lines count from one. -/
structure Position where
  source : Text
  line : Nat
  deriving DecidableEq, Repr

/-- A line number, with a blank before a single digit. -/
def lineLabel (line : Nat) : String := if line < 10 then s!" {line}" else s!"{line}"

/-- The position in words. -/
def Position.str (place : Position) : String :=
  s!"'{place.source.str}' [line {lineLabel place.line}]"

/-- What is wrong with a reference inside a value. Each flaw keeps the rest of
the value, from the end of the last reference or doubled sigil before it. -/
inductive ReferenceFlaw where
  /-- The sigil is followed neither by itself nor by the opening bracket. -/
  | dangling (sigil opening : Char) (rest : Text)
  /-- The reference has no end. -/
  | unclosed (rest : Text)
  deriving DecidableEq, Repr

/-- Why a key cannot be written. -/
inductive KeyFlaw where
  /-- Its line would be read as a header. -/
  | opensHeader
  /-- Its line would be cut inside it. -/
  | holds (delimiter : Text)
  deriving DecidableEq, Repr

/-- The kinds of value that text is converted to. -/
inductive Kind where
  | integer
  | float
  | boolean
  deriving DecidableEq, Repr

/-- What goes wrong when bytes come in or go out. -/
inductive TransferFault where
  /-- There is no such file. -/
  | missing
  /-- The bytes are not the encoding of a text. -/
  | notUtf8
  /-- The text does not fit where it should go. -/
  | full
  deriving DecidableEq, Repr

/-- What a value turns out to be where a shape has no use for it. -/
inductive Found where
  | text (value : Text)
  | unit
  | table
  | unitVariant
  deriving DecidableEq, Repr

/-- How a value or a section fails to have the shape asked for. -/
inductive Mismatch where
  | missingField (name : Text)
  | unknownField (name : Text) (known : List Text)
  | unknownVariant (name : Text) (known : List Text)
  /-- An integer that the type cannot hold. -/
  | outOfRange (value : Int) (expected : String)
  /-- A text of the right kind with the wrong content. -/
  | invalidText (value : Text) (expected : String)
  | wrongKind (found : Found) (expected : String)
  /-- A value is asked for where no key has been met. -/
  | noValue
  deriving DecidableEq, Repr

/-- All that can go wrong. -/
inductive Fault where
  | noSection (name : Text)
  | noOption (name key : Text)
  /-- A section is made a second time, in a text or by hand. -/
  | sectionExists (name : Text) (place : Option Position)
  | optionExists (name key : Text) (place : Position)
  /-- The name of the defaults is not a name for a section. -/
  | reservedName (name : Text)
  | emptyName
  /-- An entry stands before any header. -/
  | noHeader (place : Position) (raw : Text)
  | badReference (name key : Text) (flaw : ReferenceFlaw)
  | tooDeep (name key : Text) (limit : Nat)
  | unwritableKey (key : Text) (flaw : KeyFlaw)
  /-- Lines that are neither header nor entry, with their numbers. -/
  | malformedLines (source : Text) (lines : List (Nat × Text))
  /-- A text that is no value of the kind. -/
  | notA (kind : Kind) (value : Text)
  | transfer (cause : TransferFault)
  | shape (mismatch : Mismatch)
  deriving DecidableEq, Repr

namespace ReferenceFlaw

/-- The rest of the value in which the flaw stands. -/
def rest : ReferenceFlaw → Text
  | dangling _ _ rest => rest
  | unclosed rest => rest

def message : ReferenceFlaw → String
  | dangling sigil opening rest =>
    s!"'{sigil}' must be followed by '{sigil}' or '{opening}', found: '{rest.str}'"
  | unclosed rest => s!"bad interpolation variable reference '{rest.str}'"

end ReferenceFlaw

def KeyFlaw.message : KeyFlaw → String
  | opensHeader => "begins with section pattern"
  | holds delimiter => s!"contains delimiter '{delimiter.str}'"

def Kind.word : Kind → String
  | integer => "int"
  | float => "float"
  | boolean => "boolean"

def TransferFault.message : TransferFault → String
  | missing => "No such file or directory (os error 2)"
  | notUtf8 => "stream did not contain valid UTF-8"
  | full => "failed to write whole buffer"

def Found.message : Found → String
  | text value => s!"string {value.quoted.str}"
  | unit => "unit value"
  | table => "map"
  | unitVariant => "unit variant"

/-- The names a reader may choose from, in words; `what` says what they name. -/
def expectedOneOf (what : String) : List Text → String
  | [] => s!"there are no {what}"
  | [a] => s!"expected `{a.str}`"
  | [a, b] => s!"expected `{a.str}` or `{b.str}`"
  | names => "expected one of " ++ String.intercalate ", " (names.map fun n => s!"`{n.str}`")

def Mismatch.message : Mismatch → String
  | missingField name => s!"missing field `{name.str}`"
  | unknownField name known =>
    s!"unknown field `{name.str}`, " ++ expectedOneOf "fields" known
  | unknownVariant name known =>
    s!"unknown variant `{name.str}`, " ++ expectedOneOf "variants" known
  | outOfRange value expected => s!"invalid value: integer `{value}`, expected {expected}"
  | invalidText value expected =>
    s!"invalid value: string {value.quoted.str}, expected {expected}"
  | wrongKind found expected => s!"invalid type: {found.message}, expected {expected}"
  | noValue => "No value available for map entry"

namespace Fault

/-- The fault in words. -/
def message : Fault → String
  | noSection name => s!"No section: '{name.str}'"
  | noOption name key => s!"No option '{key.str}' in section: '{name.str}'"
  | sectionExists name none => s!"section '{name.str}' already exists"
  | sectionExists name (some place) =>
    s!"While reading from {place.str}: section '{name.str}' already exists"
  | optionExists name key place =>
    s!"While reading from {place.str}: option '{key.str}' in section '{name.str}' already exists"
  | reservedName name =>
    s!"Invalid section name '{name.str}': the default section always exists"
  | emptyName => "Invalid section name '': section names cannot be empty"
  | noHeader place raw =>
    s!"File contains no section headers.\nfile: {place.str}\n{raw.quoted.str}"
  | badReference name key flaw =>
    s!"Bad interpolation in option '{key.str}' of section '{name.str}': {flaw.message}"
  | tooDeep name key limit =>
    s!"Recursion limit exceeded in value substitution: option '{key.str}' in section "
      ++ s!"'{name.str}' (max depth {limit})"
  | unwritableKey key flaw => s!"Cannot write key '{key.str}': {flaw.message}"
  | malformedLines source lines =>
    lines.foldl
      (fun text (number, raw) => s!"{text}\n\t[line {lineLabel number}]: {raw.quoted.str}")
      s!"Source contains parsing errors: '{source.str}'"
  | notA kind value => s!"Not a {kind.word}: '{value.str}'"
  | transfer cause => s!"IO error: {cause.message}"
  | shape mismatch => mismatch.message

/-- A look-up met neither the section nor the key. -/
def isNotFound : Fault → Bool
  | noSection _ | noOption .. => true
  | _ => false

/-- The single place in a text that the fault is about. -/
def position? : Fault → Option Position
  | sectionExists _ place => place
  | optionExists _ _ place | noHeader place _ => some place
  | _ => none

end Fault

end Ini
