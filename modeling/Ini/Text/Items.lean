import Ini.Text.Blank

/-!
# Lists in a text

A list is written in one value with a line feed or a comma between its items.
Blanks around an item are not part of it, and an item that is nothing but
blanks is none.
-/

namespace Ini.Text

/-- The parts of a text between line feeds and commas, empty ones included. -/
def parts : Text → List Text
  | [] => [[]]
  | c :: rest => if c = '\n' ∨ c = ',' then [] :: parts rest else consLine c (parts rest)

/-- The items of a list written in one text. -/
def items (text : Text) : List Text :=
  (text.parts.map trim).filter fun item => !item.isEmpty

end Ini.Text
