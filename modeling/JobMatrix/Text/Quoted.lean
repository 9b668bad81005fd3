import JobMatrix.Text.Hex
import JobMatrix.Text.Printable

/-!
# Texts quoted in messages

A message that shows a text from its input shows it between double quotes, with a backslash in
front of quotes and backslashes and an escape for every character that is not printable.
-/

set_option autoImplicit false

namespace JobMatrix.Text

/-- One character of a quoted text. -/
def quotedChar (c : Char) : List Char :=
  if c = '"' then ['\\', '"']
  else if c = '\\' then ['\\', '\\']
  else if c = '\n' then ['\\', 'n']
  else if c = '\r' then ['\\', 'r']
  else if c = '\t' then ['\\', 't']
  else if c = '\x00' then ['\\', '0']
  else if isPrintable c then [c]
  else '\\' :: 'u' :: '{' :: hexDigits c.toNat ++ ['}']

/-- A text between double quotes. -/
def quoted (s : String) : String :=
  String.ofList ('"' :: s.toList.flatMap quotedChar ++ ['"'])

end JobMatrix.Text
