import Ini.Text.Basic

/-!
# Blank characters

A blank is a character with the Unicode property `White_Space`: twenty-five
characters, no-break spaces and the ideographic space among them. Zero-width
characters and the byte order mark are not blank, and neither are the
information separators U+001C to U+001F.
-/

namespace Ini

/-- The ranges of code points with the property `White_Space`. -/
def blankRanges : List (Nat × Nat) :=
  [(0x09, 0x0d), (0x20, 0x20), (0x85, 0x85), (0xa0, 0xa0), (0x1680, 0x1680),
   (0x2000, 0x200a), (0x2028, 0x2029), (0x202f, 0x202f), (0x205f, 0x205f),
   (0x3000, 0x3000)]

/-- Whether a character is blank. -/
def isBlank (c : Char) : Bool :=
  blankRanges.any fun range => range.1 ≤ c.toNat && c.toNat ≤ range.2

example : (blankRanges.map fun range => range.2 + 1 - range.1).sum = 25 := by decide

namespace Text

/-- The text without the blanks at its start. -/
def trimStart (text : Text) : Text := text.dropWhile isBlank

/-- The text without the blanks at its end. -/
def trimEnd (text : Text) : Text := (text.reverse.dropWhile isBlank).reverse

/-- The text without the blanks at both ends. -/
def trim (text : Text) : Text := text.trimStart.trimEnd

/-- A line is indented when its first character is blank. -/
def indented : Text → Bool
  | [] => false
  | c :: _ => isBlank c

end Text

end Ini
