import Ini.Dialect.Basic
import Ini.Text.Blank

/-!
# Lines

Before a line is understood it loses its comments and the blanks around it. A
line that starts with a comment mark, blanks aside, is a comment as a whole. An
inline mark makes a comment of what follows it, but only at the very start of
the line or directly after a blank, so that `a;b` keeps its semicolon.

The inline marks are applied one after the other, each to what the one before
it has left. Occurrences of a mark are met from left to right and do not
overlap: one that opens no comment hides those that begin inside it.
-/

namespace Ini.Line

/-- Whether a comment mark stands at the start of a line. -/
def startsComment (marks : List Text) (line : Text) : Bool :=
  (Text.markAtStart marks line).isSome

/-- What stands before the first comment that `mark` opens. The number says how
many characters still belong to an occurrence that opened none; the flag says
whether a comment may open at the next character. -/
def beforeComment (mark : Text) : Nat → Bool → Text → Text
  | _, _, [] => []
  | covered + 1, _, c :: rest => c :: beforeComment mark covered (isBlank c) rest
  | 0, opens, c :: rest =>
    if mark.isPrefixOf (c :: rest) then
      if opens then [] else c :: beforeComment mark (mark.length - 1) (isBlank c) rest
    else c :: beforeComment mark 0 (isBlank c) rest

/-- The line without the comment that an inline mark opens in it. -/
def dropInline (line mark : Text) : Text :=
  if mark.isEmpty then line else beforeComment mark 0 true line

/-- The line without comments and without the blanks around it. -/
def clean (d : Dialect) (line : Text) : Text :=
  if startsComment d.commentMarks line.trim then []
  else (d.inlineMarks.foldl dropInline line).trim

end Ini.Line
