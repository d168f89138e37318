import QueryForest.Text.Hex
import QueryForest.Text.Invisible

set_option autoImplicit false

/-!
# Text for inspection

A text in quotation marks in which every character can be told: the marks and the backslash are
escaped, and characters that could not be seen are written by their code points.
-/

namespace QueryForest.Text

/-- The hexadecimal digits of a number without zeros in front. -/
def hexText (n : Nat) : List Char := Nat.toDigits 16 n

/-- The characters that show one character. -/
def inspectedChar (c : Char) : List Char :=
  match c with
  | '\x00' => ['\\', '0']
  | '\t' => ['\\', 't']
  | '\r' => ['\\', 'r']
  | '\n' => ['\\', 'n']
  | '\\' => ['\\', '\\']
  | '"' => ['\\', '"']
  | c => if isInvisible c then '\\' :: 'u' :: '\x7b' :: hexText c.toNat ++ ['\x7d'] else [c]

/-- A text in quotation marks. -/
def inspected (s : String) : String :=
  String.ofList ('"' :: s.toList.flatMap inspectedChar ++ ['"'])

end QueryForest.Text
