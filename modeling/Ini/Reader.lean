import Ini.Line
import Ini.Statement
import Ini.Store

/-!
# Reading

A text is read line by line into a store that may already hold something. What
is carried from line to line is small: the section that entries go to, the
entry whose value the next lines may continue, and the lines that made no
sense.

The first line of a value is stored at once. Lines that continue it are kept
aside and join it when the value ends: at the next line that starts a statement
of its own, or at the end of the text. If the dialect lets a blank line end a
value, that line ends it without the join.

A malformed line is noted and the reading goes on; all of them are reported
together at the end. A repetition under a strict dialect and an entry before
any header are faults at once. What has been stored up to then stays, so every
step yields the reader beside its outcome.
-/

namespace Ini

/-- An entry whose value may still grow: where it stands, and the lines of its
value so far. -/
structure Pending where
  name : Text
  key : Text
  lines : List Text
  deriving DecidableEq, Repr

/-- The value with one more line. -/
def Pending.push (p : Pending) (line : Text) : Pending := { p with lines := p.lines ++ [line] }

/-- The value that the lines make. Blanks at its end are not part of it. -/
def Pending.value (p : Pending) : Text := (Text.joinLines p.lines).trimEnd

/-- A reading in progress. -/
structure Reader where
  store : Store
  /-- The section that entries go to. -/
  current : Option Text := none
  pending : Option Pending := none
  /-- The malformed lines with their numbers. -/
  malformed : List (Nat × Text) := []
  deriving DecidableEq, Repr

namespace Reader

/-- Ends the value that may still grow, and stores all of it. -/
def flush (r : Reader) : Reader :=
  match r.pending with
  | none => r
  | some p =>
    { r with
      store := r.store.adjust p.name (·.adjust p.key fun _ => some p.value)
      pending := none }

/-- Notes a malformed line. -/
def reject (r : Reader) (place : Position) (raw : Text) : Reader :=
  { r with malformed := r.malformed ++ [(place.line, raw)] }

/-- Goes on with the section that a header names. A header without a name is
malformed and leaves no section to go on with. -/
def enter (d : Dialect) (place : Position) (raw name : Text) (r : Reader) :
    Reader × Except Fault Unit :=
  if name.isEmpty then ({ r with current := none }.reject place raw, .ok ())
  else if name = d.defaultSection then ({ r with current := some name }, .ok ())
  else if r.store.hasSection name && d.strict then
    (r, .error (.sectionExists name (some place)))
  else ({ r with store := r.store.insertSection name, current := some name }, .ok ())

/-- Stores an entry, whose value later lines may continue if it has one. -/
def assign (d : Dialect) (place : Position) (name key : Text) (value : Option Text) (r : Reader) :
    Reader × Except Fault Unit :=
  match r.store.entries? name with
  | none => (r, .error (.noSection name))
  | some entries =>
    if entries.contains key && d.strict then (r, .error (.optionExists name key place))
    else
      ({ r with
          store := r.store.put name key value
          pending := value.map fun first => ⟨name, key, [first]⟩ }, .ok ())

/-- The section that entries go to. Where there is none, a dialect that allows
it makes the unnamed section, and goes on with it. -/
def locate (d : Dialect) (r : Reader) : Option (Text × Reader) :=
  match r.current with
  | some name => some (name, r)
  | none =>
    if d.headless then
      some (unnamedSection,
        { r with store := r.store.insertSection unnamedSection, current := some unnamedSection })
    else none

/-- Acts on a line that starts a statement of its own. A malformed line, too,
needs a section to stand in. -/
def start (d : Dialect) (place : Position) (raw : Text) (statement : Statement) (r : Reader) :
    Reader × Except Fault Unit :=
  match statement with
  | .header name => r.enter d place raw name
  | .entry key value =>
    match r.locate d with
    | none => (r, .error (.noHeader place raw))
    | some (name, r) => r.assign d place name key value
  | .malformed =>
    match r.locate d with
    | none => (r, .error (.noHeader place raw))
    | some (_, r) => (r.reject place raw, .ok ())

/-- Takes one line. -/
def feed (d : Dialect) (place : Position) (raw : Text) (r : Reader) : Reader × Except Fault Unit :=
  let cleaned := Line.clean d raw
  match r.pending with
  | none =>
    if cleaned.isEmpty then (r, .ok ())
    else r.start d place raw (Statement.ofCleaned d cleaned)
  | some p =>
    if cleaned.isEmpty then
      ({ r with pending := if d.blankLinesInValues then some (p.push []) else none }, .ok ())
    else if raw.indented then ({ r with pending := some (p.push cleaned) }, .ok ())
    else r.flush.start d place raw (Statement.ofCleaned d cleaned)

/-- Ends the reading, and reports the malformed lines. -/
def finish (source : Text) (r : Reader) : Reader × Except Fault Unit :=
  (r.flush,
    if r.malformed.isEmpty then .ok () else .error (.malformedLines source r.malformed))

/-- Takes lines up to the first fault, numbering them from `number` on. -/
def feedAll (d : Dialect) (source : Text) (number : Nat) (lines : List Text) (r : Reader) :
    Reader × Except Fault Unit :=
  match lines with
  | [] => (r, .ok ())
  | raw :: rest =>
    match r.feed d ⟨source, number⟩ raw with
    | (r, .ok ()) => feedAll d source (number + 1) rest r
    | (r, .error fault) => (r, .error fault)

/-- Lines may be taken in two parts, the numbers of the second going on from
those of the first. -/
theorem feedAll_append (d : Dialect) (source : Text) (first second : List Text) (number : Nat)
    (r : Reader) :
    r.feedAll d source number (first ++ second) =
      match r.feedAll d source number first with
      | (r, .ok ()) => r.feedAll d source (number + first.length) second
      | (r, .error fault) => (r, .error fault) := by
  induction first generalizing number r with
  | nil => rfl
  | cons raw rest ih =>
      simp only [List.cons_append, feedAll, List.length_cons]
      split
      · rw [ih, Nat.add_assoc, Nat.add_comm 1]
      · rfl

/-- Takes all lines and ends the reading; a fault on the way ends it where it
stands. -/
def run (d : Dialect) (source : Text) (lines : List Text) (r : Reader) :
    Reader × Except Fault Unit :=
  match r.feedAll d source 1 lines with
  | (r, .ok ()) => r.finish source
  | (r, .error fault) => (r, .error fault)

end Reader

/-- Reads a text into a store. -/
def Store.read (d : Dialect) (source text : Text) (s : Store) : Store × Except Fault Unit :=
  let (reader, outcome) := Reader.run d source text.lines { store := s }
  (reader.store, outcome)

end Ini
