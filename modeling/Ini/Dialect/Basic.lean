import Ini.Text.Basic

/-!
# Dialects

There is no one format behind the name of INI files. A `Dialect` fixes what a
reader and a writer must agree on: what parts a key from its value, what starts
a comment, whether a key may stand alone, what a repetition means, and how
values refer to each other.

An empty delimiter or comment mark is allowed and never matches. The one
exception is the writer's delimiter, which is the first of the list even if
empty.
-/

namespace Ini

/-- How values refer to other values. -/
inductive Interpolation where
  /-- Values are taken as they stand. -/
  | off
  /-- `%(key)s` stands for a value of the same section, `%%` for a percent sign. -/
  | basic
  /-- A dollar sign and a key in braces, after a section name and a colon if the
  value is in another section; a doubled dollar sign stands for one. -/
  | extended
  deriving DecidableEq, Repr

/-- The name under which the defaults are addressed unless a dialect says otherwise. -/
def defaultSectionName : Text := "DEFAULT".toList

/-- The name of the section that holds entries standing before any header. -/
def unnamedSection : Text := "<UNNAMED_SECTION>".toList

/-- What a reader and a writer have to agree on. -/
structure Dialect where
  /-- A line without a delimiter is a key without a value, not a malformed line. -/
  bareKeys : Bool := false
  /-- A section or key met a second time in one store is a fault. -/
  strict : Bool := true
  /-- A blank line does not end a value that later lines continue. -/
  blankLinesInValues : Bool := true
  /-- Entries may stand before any header. -/
  headless : Bool := false
  /-- The name that addresses the defaults. -/
  defaultSection : Text := defaultSectionName
  /-- What parts a key from its value. -/
  delimiters : List Text := [['='], [':']]
  /-- What makes a comment of a line it starts. -/
  commentMarks : List Text := [['#'], [';']]
  /-- What makes a comment of the rest of a line, after a blank. -/
  inlineMarks : List Text := []
  interpolation : Interpolation := .basic
  /-- How many values may be nested by references, the outermost counted. -/
  depthLimit : Nat := 10
  deriving DecidableEq, Repr

namespace Dialect

/-- The dialect used when none is chosen. -/
def standard : Dialect := {}

/-- The delimiter that is written. -/
def primaryDelimiter (d : Dialect) : Text := d.delimiters.head?.getD ['=']

end Dialect

end Ini
