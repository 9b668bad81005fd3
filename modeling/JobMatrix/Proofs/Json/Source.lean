import JobMatrix.Text.Json

/-!
# Texts of JSON

`Json.Source` is a text of JSON the way the grammar of JSON divides it, with every choice that the
grammar leaves: the blanks between two tokens, and for each character of a string whether it is
written as itself or by which escape.  `Source.text` puts the text together, and `Source.value` is
what it means.  Numbers and the words for truth values and for nothing are left out.

`Source.Portable` picks the texts that make no use of what JSON has and YAML does not.
-/

set_option autoImplicit false

namespace JobMatrix.Json

/-! ## Blanks -/

/-- The blanks between two tokens. -/
structure Blanks where
  text : List Char
  blank : ∀ c ∈ text, c = ' ' ∨ c = '\t' ∨ c = '\n' ∨ c = '\r'

/-- Something with blanks in front of it and behind it. -/
structure Padded (α : Type) where
  before : Blanks
  content : α
  after : Blanks

/-! ## Strings -/

/-- A hexadecimal digit; its letters come in two cases. -/
structure HexDigit where
  value : Fin 16
  upper : Bool

def HexDigit.char (d : HexDigit) : Char :=
  (if d.upper then "0123456789ABCDEF" else "0123456789abcdef").toList.getD d.value '0'

/-- Four digits, which are a unit of UTF-16. -/
structure CodeUnit where
  first : HexDigit
  second : HexDigit
  third : HexDigit
  fourth : HexDigit

namespace CodeUnit

def text (u : CodeUnit) : List Char := [u.first.char, u.second.char, u.third.char, u.fourth.char]

def value (u : CodeUnit) : Nat :=
  16 * (16 * (16 * u.first.value + u.second.value) + u.third.value) + u.fourth.value

end CodeUnit

/-- The escapes of one letter. -/
inductive ShortEscape
  | quote
  | backslash
  | slash
  | backspace
  | formFeed
  | lineFeed
  | carriageReturn
  | tab
deriving DecidableEq, Repr

namespace ShortEscape

def letter : ShortEscape → Char
  | quote => '"'
  | backslash => '\\'
  | slash => '/'
  | backspace => 'b'
  | formFeed => 'f'
  | lineFeed => 'n'
  | carriageReturn => 'r'
  | tab => 't'

def char : ShortEscape → Char
  | quote => '"'
  | backslash => '\\'
  | slash => '/'
  | backspace => '\x08'
  | formFeed => '\x0c'
  | lineFeed => '\n'
  | carriageReturn => '\r'
  | tab => '\t'

end ShortEscape

/-- A character that may be written as itself. -/
abbrev IsRaw (c : Char) : Prop := 0x20 ≤ c.toNat ∧ c ≠ '"' ∧ c ≠ '\\'

/-- A character of a string, with the way it is written. -/
inductive Spelling
  /-- The character itself. -/
  | raw (c : Char) (h : IsRaw c)
  | short (e : ShortEscape)
  /-- The number of a character, which is no surrogate. -/
  | unit (u : CodeUnit) (h : u.value.isValidChar)
  /-- A surrogate pair, for a character beyond four digits. -/
  | pair (high low : CodeUnit) (hhigh : 0xD800 ≤ high.value ∧ high.value < 0xDC00)
      (hlow : 0xDC00 ≤ low.value ∧ low.value < 0xE000)

namespace Spelling

def char : Spelling → Char
  | raw c _ => c
  | short e => e.char
  | unit u _ => .ofNat u.value
  | pair high low _ _ =>
    .ofNat (0x10000 + 0x400 * (high.value - 0xD800) + (low.value - 0xDC00))

def text : Spelling → List Char
  | raw c _ => [c]
  | short e => ['\\', e.letter]
  | unit u _ => '\\' :: 'u' :: u.text
  | pair high low _ _ => '\\' :: 'u' :: high.text ++ '\\' :: 'u' :: low.text

end Spelling

/-- What a string means. -/
def spelledValue (s : List Spelling) : String := String.ofList (s.map Spelling.char)

def spelledText (s : List Spelling) : List Char := '"' :: (s.flatMap Spelling.text ++ ['"'])

/-! ## Values -/

/-- A member of an object: a name, blanks and a colon, and a value. -/
structure Member (α : Type) where
  name : List Spelling
  gap : Blanks
  before : Blanks
  value : α
  after : Blanks

/-- A text of JSON without blanks around it.  In an empty array or object there may be blanks. -/
inductive Source
  | string (s : List Spelling)
  | array (blanks : Blanks) (items : List (Padded Source))
  | object (blanks : Blanks) (members : List (Blanks × Member Source))

namespace Source

mutual

def text : Source → List Char
  | string s => spelledText s
  | array blanks items => '[' :: blanks.text ++ itemsText true items ++ [']']
  | object blanks members => '\x7b' :: blanks.text ++ membersText true members ++ ['\x7d']

/-- The items of an array.  All but the `first` have a comma in front. -/
def itemsText (first : Bool) : List (Padded Source) → List Char
  | [] => []
  | ⟨before, item, after⟩ :: items =>
    (if first then [] else [',']) ++ before.text ++ item.text ++ after.text ++ itemsText false items

/-- The members of an object.  All but the `first` have a comma in front. -/
def membersText (first : Bool) : List (Blanks × Member Source) → List Char
  | [] => []
  | (lead, ⟨name, gap, before, value, after⟩) :: members =>
    (if first then [] else [',']) ++ lead.text ++ spelledText name ++ gap.text ++ [':']
      ++ before.text ++ value.text ++ after.text ++ membersText false members

end

mutual

def value : Source → Json
  | string s => .text (spelledValue s)
  | array _ items => .list (itemsValue items)
  | object _ members => .object (membersValue members)

def itemsValue : List (Padded Source) → List Json
  | [] => []
  | ⟨_, item, _⟩ :: items => item.value :: itemsValue items

def membersValue : List (Blanks × Member Source) → List (String × Json)
  | [] => []
  | (_, ⟨name, _, _, value, _⟩) :: members =>
    (spelledValue name, value.value) :: membersValue members

end

end Source

/-- A whole text: a value with blanks around it. -/
abbrev Document := Padded Source

namespace Document

def text (d : Document) : String :=
  String.ofList (d.before.text ++ d.content.text ++ d.after.text)

def value (d : Document) : Json := d.content.value

end Document

/-! ## Portable texts -/

/-- Not written as a surrogate pair, nor as itself if it is a control or no character at all. -/
def Spelling.Portable : Spelling → Prop
  | raw c _ => ¬(0x7F ≤ c.toNat ∧ c.toNat < 0xA0) ∧ c.toNat ∉ [0xFFFE, 0xFFFF]
  | short _ => True
  | unit _ _ => True
  | pair _ _ _ _ => False

/-- A character that JSON has in strings like any other, and YAML takes for the end of a line. -/
abbrev IsSeparator (c : Char) : Prop := c = '\u2028' ∨ c = '\u2029'

/-- What the end of a line changes around it: a space on either side of it is dropped, and a word of
three hyphens or dots behind it is a document mark. -/
inductive IsMisread : List Char → Prop
  | spaceBefore {separator : Char} (h : IsSeparator separator) : IsMisread [' ', separator]
  | spaceBehind {separator : Char} (h : IsSeparator separator) : IsMisread [separator, ' ']
  | mark {separator mark blank : Char} (h : IsSeparator separator) (hmark : mark ∈ ['-', '.'])
      (hblank : blank = ' ' ∨ IsSeparator blank) : IsMisread [separator, mark, mark, mark, blank]

/-- The characters of a string are portable, and none of them together are misread. -/
structure StringPortable (s : List Spelling) : Prop where
  spelling : ∀ x ∈ s, x.Portable
  separators : ∀ cs, IsMisread cs → ¬cs <:+: s.flatMap Spelling.text

/-- A name stands on one line with its colon and no more than 1024 characters in front of it. -/
structure Member.NamePortable {α : Type} (m : Member α) : Prop where
  spelling : ∀ x ∈ m.name, x.Portable
  line : ∀ c ∈ spelledText m.name ++ m.gap.text, c ≠ '\n' ∧ c ≠ '\r' ∧ ¬IsSeparator c
  near : (spelledText m.name).length + m.gap.text.length ≤ 1024

namespace Source

mutual

/-- The strings and names are portable. -/
def Portable : Source → Prop
  | string s => StringPortable s
  | array _ items => itemsPortable items
  | object _ members => membersPortable members

def itemsPortable : List (Padded Source) → Prop
  | [] => True
  | ⟨_, item, _⟩ :: items => item.Portable ∧ itemsPortable items

def membersPortable : List (Blanks × Member Source) → Prop
  | [] => True
  | (_, ⟨name, gap, before, value, after⟩) :: members =>
    (⟨name, gap, before, value, after⟩ : Member Source).NamePortable ∧ value.Portable
      ∧ membersPortable members

end

end Source

/-- A text without tabs in front of the value, and behind it none that follows a line break. -/
structure Document.Portable (d : Document) : Prop where
  before : '\t' ∉ d.before.text
  content : d.content.Portable
  after : d.after.text.Pairwise fun a b => a = '\n' ∨ a = '\r' → b ≠ '\t'

end JobMatrix.Json
