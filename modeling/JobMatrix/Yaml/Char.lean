/-!
# Character classes of YAML

The classes that reading and writing YAML 1.1 streams are defined by.  Classes of what may follow
a character (`endsWord`, `endsLine`) take the rest of the stream, whose end counts as a line break.
-/

set_option autoImplicit false

namespace JobMatrix.Yaml

/-- The characters a stream may contain raw. -/
def isStreamChar (c : Char) : Bool :=
  let n := c.toNat
  n == 0x09 || n == 0x0A || n == 0x0D || (0x20 ≤ n && n ≤ 0x7E) || n == 0x85
    || (0xA0 ≤ n && n ≤ 0xFFFD) || 0x10000 ≤ n

/-- Line breaks: line feed, carriage return, next line, and the two Unicode separators. -/
def isBreak (c : Char) : Bool :=
  c == '\n' || c == '\r' || c == '\u0085' || c == '\u2028' || c == '\u2029'

/-- The space and the tab. -/
def isSpace (c : Char) : Bool := c == ' ' || c == '\t'

/-- The byte order mark, which may start a line. -/
def byteOrderMark : Char := '\ufeff'

/-- Letters, digits, `_` and `-`, the characters of anchors and directive names. -/
def isWordChar (c : Char) : Bool := c.isAlphanum || c == '_' || c == '-'

/-- The characters of a tag.  The flow indicators among them belong to a verbatim tag only. -/
def isTagChar (verbatim : Bool) (c : Char) : Bool :=
  isWordChar c || [';', '/', '?', ':', '@', '&', '=', '+', '$', '.', '%', '!', '~', '*', '\x27',
    '(', ')'].contains c || (verbatim && [',', '[', ']'].contains c)

/-- The rest of the stream is empty or starts with a line break. -/
def endsLine : List Char → Bool
  | [] => true
  | c :: _ => isBreak c

/-- The rest of the stream is empty or starts with a space, a tab or a line break. -/
def endsWord : List Char → Bool
  | [] => true
  | c :: _ => isSpace c || isBreak c

/-- `---` or `...` at the start of the rest, as a word of its own. -/
def startsDocumentMark (mark : Char) : List Char → Bool
  | a :: b :: c :: rest => a == mark && b == mark && c == mark && endsWord rest
  | _ => false

/-- The value of a hexadecimal digit. -/
def hexValue? (c : Char) : Option Nat :=
  if c.isDigit then some (c.toNat - '0'.toNat)
  else if 'a' ≤ c ∧ c ≤ 'f' then some (c.toNat - 'a'.toNat + 10)
  else if 'A' ≤ c ∧ c ≤ 'F' then some (c.toNat - 'A'.toNat + 10)
  else none

/-- The number written by exactly `n` hexadecimal digits at the start of the rest. -/
def hexNumber? : Nat → List Char → Nat → Option Nat
  | 0, _, value => some value
  | _ + 1, [], _ => none
  | n + 1, c :: rest, value => (hexValue? c).bind fun d => hexNumber? n rest (16 * value + d)

end JobMatrix.Yaml
