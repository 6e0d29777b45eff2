import Ini.Dialect.Basic
import Ini.Text.Blank

/-!
# Statements

A line that does not continue a value makes a statement, and what it states
depends on its cleaned text and the dialect alone, never on the store.
-/

namespace Ini

/-- What a cleaned line says. -/
inductive Statement where
  /-- The section of this name begins. -/
  | header (name : Text)
  /-- The key, folded, has this value, or stands alone. -/
  | entry (key : Text) (value : Option Text)
  /-- Nothing that could be understood. -/
  | malformed
  deriving DecidableEq, Repr

namespace Statement

/-- The name between the brackets of a header. It is taken as it stands, blanks
included, and may be empty. -/
def headerName? : Text → Option Text
  | '[' :: rest => if rest.getLast? = some ']' then some rest.dropLast else none
  | _ => none

/-- A key with the text after its delimiter, or a malformed line if the key is
empty. -/
def ofKey (key : Text) (value : Option Text) : Statement :=
  if key.trim.isEmpty then malformed else entry key.trim.fold (value.map Text.trim)

/-- What a cleaned line says: a header if it stands in brackets, else an entry
whose key ends at the leftmost delimiter. Without a delimiter the whole line is
a key if keys may stand alone. -/
def ofCleaned (d : Dialect) (cleaned : Text) : Statement :=
  match headerName? cleaned with
  | some name => header name
  | none =>
    match Text.cut d.delimiters cleaned with
    | some found => ofKey found.before (some found.after)
    | none => if d.bareKeys then ofKey cleaned none else malformed

/-- The part of a line in which its key stands: what is in front of the delimiter, or all
of the line where there is none. -/
def keyPart (d : Dialect) (line : Text) : Text :=
  match Text.cut d.delimiters line with
  | some found => found.before
  | none => line

theorem headerName?_eq_some_iff {row name : Text} :
    headerName? row = some name ↔ row = '[' :: name ++ [']'] := by
  constructor
  · intro h
    unfold headerName? at h
    split at h
    · next rest =>
        split at h
        · next hlast =>
            obtain ⟨front, rfl⟩ := List.getLast?_eq_some_iff.1 hlast
            cases h
            simp
        · cases h
    · cases h
  · rintro rfl
    simp [headerName?]

theorem key_of_ofKey {text key : Text} {value other : Option Text}
    (h : ofKey text value = .entry key other) : key = text.trim.fold := by
  unfold ofKey at h
  split at h
  · cases h
  · cases h
    rfl

/-- The key that a line states is its part trimmed and folded. -/
theorem key_of_ofCleaned {d : Dialect} {line key : Text} {value : Option Text}
    (h : ofCleaned d line = .entry key value) :
    key = (keyPart d line).trim.fold := by
  unfold ofCleaned at h
  split at h
  · cases h
  · cases hcut : Text.cut d.delimiters line with
    | some found =>
        rw [hcut] at h
        rw [keyPart, hcut]
        exact key_of_ofKey h
    | none =>
        rw [hcut] at h
        rw [keyPart, hcut]
        cases hbare : d.bareKeys with
        | true =>
            rw [hbare] at h
            exact key_of_ofKey h
        | false =>
            rw [hbare] at h
            cases h

end Statement

end Ini
