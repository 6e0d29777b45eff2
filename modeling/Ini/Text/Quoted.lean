import Ini.Text.Basic
import Ini.Text.Unseen

/-!
# Quoted text

A fault that shows a piece of its input shows it between double quotes, so that
blanks and control characters in it can be told apart. The quote itself, the
backslash and the common control characters have short escapes; any other
character that could not be seen is given by its number.
-/

namespace Ini.Text

/-- The number in lower-case hexadecimal digits, without leading zeros. -/
def hexadecimal (n : Nat) : Text := Nat.toDigits 16 n

/-- The form of one character between double quotes. -/
def quoteChar (c : Char) : Text :=
  match c with
  | '\x00' => ['\\', '0']
  | '\t' => ['\\', 't']
  | '\n' => ['\\', 'n']
  | '\r' => ['\\', 'r']
  | '"' => ['\\', '"']
  | '\\' => ['\\', '\\']
  | _ => if isUnseen c then ['\\', 'u', '\x7b'] ++ hexadecimal c.toNat ++ ['\x7d'] else [c]

/-- The text between double quotes. -/
def quoted (text : Text) : Text := '"' :: text.flatMap quoteChar ++ ['"']

end Ini.Text
