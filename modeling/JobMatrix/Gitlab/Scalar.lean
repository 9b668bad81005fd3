import JobMatrix.Text.Hex

/-!
# Texts in a pipeline file

Texts are written between double quotes, so that they are read back as they are.  Keys stay
plain if that is plainly safe.
-/

set_option autoImplicit false

namespace JobMatrix.Gitlab

/-- The controls of the first two blocks. -/
def isControl (c : Char) : Bool := c.toNat < 0x20 || (0x7F ≤ c.toNat && c.toNat < 0xA0)

/-- The characters beyond the controls that a document may not hold raw, or that break lines. -/
def isUnsafe (c : Char) : Bool :=
  let n := c.toNat
  n == 0x2028 || n == 0x2029 || n == 0xFEFF || n == 0xFFFE || n == 0xFFFF

/-- A character inside double quotes. -/
def escaped (c : Char) : List Char :=
  if c = '"' then ['\\', '"']
  else if c = '\\' then ['\\', '\\']
  else if c = '\n' then ['\\', 'n']
  else if c = '\t' then ['\\', 't']
  else if c = '\r' then ['\\', 'r']
  else if isControl c then '\\' :: 'x' :: Text.upperHex 2 c.toNat
  else if isUnsafe c then '\\' :: 'u' :: Text.upperHex 4 c.toNat
  else [c]

/-- A text between double quotes. -/
def quote (s : String) : String := String.ofList ('"' :: s.toList.flatMap escaped ++ ['"'])

/-- The words that are read as null or as a switch, in lower case. -/
def reservedWords : List String :=
  ["true", "false", "null", "yes", "no", "on", "off", "y", "n", "~", ""]

/-- A key may start with this character and stay plain. -/
def startsPlainKey (c : Char) : Bool := c.isAlpha || c == '_' || c == '.'

def isPlainKeyChar (c : Char) : Bool :=
  c.isAlphanum || c == '_' || c == '-' || c == '.' || c == '+'

/-- A key that stays plain. -/
def isPlainKey (name : String) : Bool :=
  name.toList.head?.any startsPlainKey && name.toList.all isPlainKeyChar
    && !reservedWords.contains (String.ofList (name.toList.map Char.toLower))

/-- A mapping key. -/
def key (name : String) : String := if isPlainKey name then name else quote name

end JobMatrix.Gitlab
