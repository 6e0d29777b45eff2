import Ini.Dialect.Basic
import Ini.Store

/-!
# Writing

A store is written as a text that reads back to it. A section is its header
line, a line for each entry, and a blank line. A line feed inside a value is
followed by a tab, so that the next line of the value is indented and continues
it. Entries of the unnamed section have no header and come first, for anywhere
else they would be read into the section before them.

A key that would not read back as itself is a fault. A key written alone is not
checked.
-/

namespace Ini

namespace Render

/-- What is wrong with a key that is to be followed by a delimiter. -/
def keyFlaw? (d : Dialect) (key : Text) : Option KeyFlaw :=
  if key.head? = some '[' then some .opensHeader
  else (d.delimiters.find? fun mark => (Text.cut [mark] key).isSome).map .holds

/-- The delimiter as it is written. -/
def delimiter (d : Dialect) (spaced : Bool) : Text :=
  if spaced then ' ' :: d.primaryDelimiter ++ [' '] else d.primaryDelimiter

/-- A value as it is written. -/
def value (text : Text) : Text :=
  text.flatMap fun c => if c = '\n' then ['\n', '\t'] else [c]

/-- The line of an entry, or lines, if its value has several. -/
def entry (d : Dialect) (spaced : Bool) (key : Text) (content : Option Text) :
    Except Fault Text :=
  if d.bareKeys && content.isNone then .ok (key ++ ['\n'])
  else
    match keyFlaw? d key with
    | some flaw => .error (.unwritableKey key flaw)
    | none => .ok (key ++ delimiter d spaced ++ value (content.getD []) ++ ['\n'])

/-- The lines of several entries; the first fault counts. -/
def entries (d : Dialect) (spaced : Bool) : Entries → Except Fault Text
  | [] => .ok []
  | (key, content) :: rest => do
    let line ← entry d spaced key content
    return line ++ (← entries d spaced rest)

/-- A section: what heads it, its entries, and a blank line. -/
def block (d : Dialect) (spaced : Bool) (heading : Text) (content : Entries) :
    Except Fault Text := do
  return heading ++ (← entries d spaced content) ++ ['\n']

/-- The header line of a section. -/
def header (name : Text) : Text := '[' :: name ++ [']', '\n']

/-- Several sections, each under its header. -/
def blocks (d : Dialect) (spaced : Bool) : Table Text Entries → Except Fault Text
  | [] => .ok []
  | (name, content) :: rest => do
    let text ← block d spaced (header name) content
    return text ++ (← blocks d spaced rest)

/-- The text, if it fits into the given number of bytes. -/
def fitting (capacity : Nat) (text : Text) : Except Fault Text :=
  if text.utf8Size ≤ capacity then .ok text else .error (.transfer .full)

end Render

namespace Store

/-- The entries that stand before any header: those the unnamed section's name
addresses. -/
def renderUnnamed (d : Dialect) (spaced : Bool) (s : Store) : Except Fault Text :=
  match s.entries? unnamedSection with
  | none => .ok []
  | some content => Render.block d spaced [] content

/-- The sections that are written under a header: the defaults unless they are
empty, then the named sections. -/
def headed (s : Store) : Table Text Entries :=
  (if s.defaults.isEmpty then [] else [(s.defaultName, s.defaults)]) ++
    s.sections.filter fun pair => pair.1 ≠ unnamedSection

/-- The whole store as text. -/
def render (d : Dialect) (spaced : Bool) (s : Store) : Except Fault Text := do
  let unnamed ← s.renderUnnamed d spaced
  return unnamed ++ (← Render.blocks d spaced s.headed)

end Store

end Ini
