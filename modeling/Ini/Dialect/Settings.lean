import Ini.Dialect.Basic
import Ini.Table

/-!
# Settings by name

A dialect is chosen from outside by naming some of its fields and giving each a
value of the right kind; the fields that are not named stay as they are. Names
that belong to no field are passed over, so that a list of settings written for
a richer library can be read here. A value of the wrong kind is refused.

Each field is described once, by a `Dialect.Field`: its name, and how it is read
and set. `Dialect.settings` and `Dialect.set?` are both drawn from the list of
these, and `setAll?_settings` says that what the first shows, the second takes.
-/

namespace Ini

/-- A value for a field of a dialect, before its kind is checked. -/
inductive Setting where
  | flag (on : Bool)
  | text (text : Text)
  | texts (list : List Text)
  | count (n : Nat)
  /-- A value of a kind that no field takes. -/
  | other
  deriving DecidableEq, Repr

namespace Interpolation

/-- The word that chooses a way of interpolation. -/
def word : Interpolation → Text
  | off => "none".toList
  | basic => "basic".toList
  | extended => "extended".toList

/-- The way of interpolation that a word chooses. Case matters. -/
def ofWord? (word : Text) : Option Interpolation :=
  [off, basic, extended].find? fun mode => mode.word = word

theorem ofWord?_word (mode : Interpolation) : ofWord? mode.word = some mode := by
  cases mode <;> decide

end Interpolation

namespace Dialect

/-- One field of a dialect as seen from outside. -/
structure Field where
  name : String
  get : Dialect → Setting
  set? : Setting → Dialect → Option Dialect

namespace Field

/-- A field that is on or off. -/
def ofFlag (name : String) (read : Dialect → Bool) (put : Bool → Dialect → Dialect) : Field where
  name := name
  get d := .flag (read d)
  set?
    | .flag on, d => some (put on d)
    | _, _ => none

/-- A field that holds a list of marks. -/
def ofTexts (name : String) (read : Dialect → List Text) (put : List Text → Dialect → Dialect) :
    Field where
  name := name
  get d := .texts (read d)
  set?
    | .texts list, d => some (put list d)
    | _, _ => none

/-- The name of the defaults. -/
def defaultSection : Field where
  name := "default_section"
  get d := .text d.defaultSection
  set?
    | .text name, d => some { d with defaultSection := name }
    | _, _ => none

/-- The way of interpolation, by its word. -/
def interpolation : Field where
  name := "interpolation"
  get d := .text d.interpolation.word
  set?
    | .text word, d => (Interpolation.ofWord? word).map fun mode => { d with interpolation := mode }
    | _, _ => none

/-- The first number that is too large for a machine word. -/
def wordLimit : Nat := Nat.pow 2 64

/-- The depth limit. It is a machine word and takes no larger number. -/
def depthLimit : Field where
  name := "max_interpolation_depth"
  get d := .count d.depthLimit
  set?
    | .count n, d => if n < wordLimit then some { d with depthLimit := n } else none
    | _, _ => none

/-- The fields of a dialect. -/
def all : List Field :=
  [ofFlag "allow_no_value" (·.bareKeys) fun on d => { d with bareKeys := on },
   ofFlag "strict" (·.strict) fun on d => { d with strict := on },
   ofFlag "empty_lines_in_values" (·.blankLinesInValues)
     fun on d => { d with blankLinesInValues := on },
   ofFlag "allow_unnamed_section" (·.headless) fun on d => { d with headless := on },
   defaultSection,
   ofTexts "delimiters" (·.delimiters) fun list d => { d with delimiters := list },
   ofTexts "comment_prefixes" (·.commentMarks) fun list d => { d with commentMarks := list },
   ofTexts "inline_comment_prefixes" (·.inlineMarks) fun list d => { d with inlineMarks := list },
   interpolation,
   depthLimit]

end Field

/-- Every field by name. -/
def settings (d : Dialect) : Table String Setting :=
  Field.all.map fun field => (field.name, field.get d)

/-- Sets the field of the given name; fails if the value is not of its kind. -/
def set? (d : Dialect) (name : String) (value : Setting) : Option Dialect :=
  match Field.all.find? fun field => field.name = name with
  | none => some d
  | some field => field.set? value d

/-- Sets several fields, from left to right. -/
def setAll? (d : Dialect) (list : Table String Setting) : Option Dialect :=
  list.foldlM (fun d pair => d.set? pair.1 pair.2) d

theorem setAll?_settings {d : Dialect} (start : Dialect) (h : d.depthLimit < Field.wordLimit) :
    start.setAll? d.settings = some d := by
  simpa [setAll?, settings, set?, Field.all, Field.ofFlag, Field.ofTexts, Field.defaultSection,
    Field.interpolation, Field.depthLimit, Interpolation.ofWord?_word] using h

end Dialect

end Ini
