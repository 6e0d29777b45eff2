import Ini.Dialect.Basic
import Ini.Fault

/-!
# References inside values

A value may contain references to other values. Seen so it is a template: a
list of pieces, each a character that stands for itself, a reference, or a flaw
that ends the list. The two ways of interpolation differ in four particulars
only, which make a `Grammar`; cutting a value into pieces is one scan from left
to right for both, and consults no store.
-/

namespace Ini

/-- How references are spelled. -/
structure Grammar where
  /-- Starts a reference, and stands for itself when doubled. -/
  sigil : Char
  opening : Char
  closing : Text
  /-- A reference may name the section before a colon. -/
  qualified : Bool
  deriving DecidableEq, Repr

/-- References in round brackets after a percent sign. -/
def Grammar.basic : Grammar := ⟨'%', '(', ")s".toList, false⟩

/-- References in braces after a dollar sign. -/
def Grammar.extended : Grammar := ⟨'$', '{', ['}'], true⟩

/-- The spelling of references, where values are not taken as they stand. -/
def Interpolation.grammar? : Interpolation → Option Grammar
  | off => none
  | basic => some .basic
  | extended => some .extended

/-- A piece of a value. -/
inductive Piece where
  | literal (c : Char)
  /-- The value of a folded key, in the section named or else in the section of
  the value itself. Section names are not folded. -/
  | reference (target : Option Text) (key : Text)
  /-- Here the value cannot be understood. -/
  | flaw (what : ReferenceFlaw)
  deriving DecidableEq, Repr

namespace Grammar

/-- The reference that stands between the brackets. -/
def reference (g : Grammar) (inner : Text) : Piece :=
  if g.qualified then
    match Text.cut [[':']] inner with
    | some found => .reference (some found.before) found.after.fold
    | none => .reference none inner.fold
  else .reference none inner.fold

/-- Cuts into pieces what is left of a value. `since` is what was left of it
when the last reference or doubled sigil ended, and is what a flaw shows. -/
def piecesSince (g : Grammar) (since : Text) : Text → List Piece
  | [] => []
  | c :: rest =>
    if c ≠ g.sigil then .literal c :: g.piecesSince since rest
    else
      match rest with
      | [] => [.flaw (.dangling g.sigil g.opening since)]
      | next :: body =>
        if next = g.sigil then .literal c :: g.piecesSince body body
        else if next = g.opening then
          match h : Text.cut [g.closing] body with
          | some found =>
            have := Text.length_cut_after_lt h
            g.reference found.before :: g.piecesSince found.after found.after
          | none => [.flaw (.unclosed since)]
        else [.flaw (.dangling g.sigil g.opening since)]
termination_by text => text.length

/-- Cuts a value into pieces. -/
def pieces (g : Grammar) (value : Text) : List Piece := g.piecesSince value value

end Grammar

end Ini
