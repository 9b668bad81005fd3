import JobMatrix.Text.Hex

/-!
# JSON texts

Values of JSON as far as reports need them, and their text with one item per line and two spaces
per level.
-/

set_option autoImplicit false

namespace JobMatrix

inductive Json
  | number (n : Nat)
  | text (s : String)
  | list (items : List Json)
  | object (fields : List (String × Json))

namespace Json

/-- A character of a string: quotes, backslashes and controls are escaped. -/
def escaped (c : Char) : List Char :=
  if c = '"' then ['\\', '"']
  else if c = '\\' then ['\\', '\\']
  else if c = '\n' then ['\\', 'n']
  else if c = '\r' then ['\\', 'r']
  else if c = '\t' then ['\\', 't']
  else if c = '\x08' then ['\\', 'b']
  else if c = '\x0c' then ['\\', 'f']
  else if c.toNat < 0x20 then '\\' :: 'u' :: Text.padded 4 (Text.hexDigits c.toNat)
  else [c]

/-- A string between quotes. -/
def quoted (s : String) : String := String.ofList ('"' :: s.toList.flatMap escaped ++ ['"'])

/-- The start of a line at a level. -/
def newLine (level : Nat) : String := String.ofList ('\n' :: List.replicate (2 * level) ' ')

mutual

/-- The text of a value that starts at a level. -/
def pretty (level : Nat) : Json → String
  | number n => toString n
  | text s => quoted s
  | list [] => "[]"
  | list items => "[" ++ prettyItems (level + 1) items ++ newLine level ++ "]"
  | object [] => "\x7b\x7d"
  | object fields => "\x7b" ++ prettyFields (level + 1) fields ++ newLine level ++ "\x7d"

def prettyItems (level : Nat) : List Json → String
  | [] => ""
  | [item] => newLine level ++ pretty level item
  | item :: items => newLine level ++ pretty level item ++ "," ++ prettyItems level items

def prettyFields (level : Nat) : List (String × Json) → String
  | [] => ""
  | [(name, value)] => newLine level ++ quoted name ++ ": " ++ pretty level value
  | (name, value) :: fields =>
    newLine level ++ quoted name ++ ": " ++ pretty level value ++ "," ++ prettyFields level fields

end

/-- The text of a value. -/
def render (j : Json) : String := j.pretty 0

end Json

end JobMatrix
