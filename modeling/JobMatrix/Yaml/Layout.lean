import JobMatrix.Text.Hex
import JobMatrix.Yaml.Char
import JobMatrix.Yaml.Outline

/-!
# The layout of a document

`Outline.render` lays a document out in block style with two spaces per level.  Empty collections
are `[]` and `{}`; a sequence in a mapping stays at the mapping's indentation; a key that is long,
has line breaks or is a collection is written behind `? `.

A scalar gets the style it asks for if its text allows it: quotes where plain text would be read
otherwise, and double quotes with escapes where nothing else works.
-/

set_option autoImplicit false

namespace JobMatrix.Yaml

/-! ## What a text allows -/

/-- The characters a scalar can show without an escape. -/
def isShown (c : Char) : Bool :=
  let n := c.toNat
  n == 0x0A || (0x20 ≤ n && n ≤ 0x7E) || (0xA0 ≤ n && n ≤ 0xFFFD && n != 0xFEFF) || 0x10000 ≤ n

/-- The characters no plain scalar starts with. -/
def isIndicator (c : Char) : Bool :=
  ['#', ',', '[', ']', '{', '}', '&', '*', '!', '|', '>', '\x27', '"', '%', '@', '\x60'].contains c

/-- A blank, a line break or the end of the text comes next. -/
def blankNext : List Char → Bool
  | [] => true
  | c :: _ => isSpace c || isBreak c || c == '\x00'

/-- Two characters of which the first satisfies `p` and the second `q` stand side by side. -/
def hasPair (p q : Char → Bool) : List Char → Bool
  | a :: b :: rest => (p a && q b) || hasPair p q (b :: rest)
  | _ => false

/-- Somewhere behind the first character the text has a `:` before a blank or a `#` after one. -/
def hasInnerMark : List Char → Bool
  | a :: b :: rest =>
    (b == ':' && blankNext rest) || (b == '#' && blankNext [a]) || hasInnerMark (b :: rest)
  | _ => false

/-- A plain scalar with this text would be read as something else. -/
def looksMarked : List Char → Bool
  | [] => false
  | cs@(c :: rest) =>
    (['-', '-', '-'].isPrefixOf cs || ['.', '.', '.'].isPrefixOf cs) || isIndicator c
      || ((c == '?' || c == ':' || c == '-') && blankNext rest) || hasInnerMark cs

/-- A space or a line break at either end. -/
def hasLooseEnd (cs : List Char) : Bool :=
  let loose (c : Char) : Bool := c == ' ' || isBreak c
  cs.head?.any loose || cs.getLast?.any loose

def isMultiline (cs : List Char) : Bool := cs.any isBreak

/-- Some characters need an escape, or spaces would be lost before a line break. -/
def needsEscapes (cs : List Char) : Bool := !cs.all isShown || hasPair (· == ' ') isBreak cs

def allowsPlain (cs : List Char) : Bool :=
  !isMultiline cs && !hasLooseEnd cs && !looksMarked cs && !needsEscapes cs

def allowsSingleQuoted (cs : List Char) : Bool :=
  !hasPair isBreak (· == ' ') cs && !needsEscapes cs

def allowsLiteral (cs : List Char) : Bool :=
  !cs.isEmpty && cs.getLast? != some ' ' && !needsEscapes cs

/-- The style a scalar is written in. -/
def ScalarStyle.chosen (wish : ScalarStyle) (simpleKey : Bool) (cs : List Char) : ScalarStyle :=
  let quoted := if allowsSingleQuoted cs then singleQuoted else doubleQuoted
  if simpleKey && isMultiline cs then doubleQuoted
  else
    match wish with
    | plain => if allowsPlain cs && !(simpleKey && cs.isEmpty) then plain else quoted
    | singleQuoted => quoted
    | doubleQuoted => doubleQuoted
    | literal | folded => if allowsLiteral cs && !simpleKey then literal else doubleQuoted

/-! ## The text written so far -/

/-- A text that grows, and what the next piece has to know: the column, whether a space separates
it from what comes next, and whether the line has only indentation and indicators so far. -/
structure Layout where
  text : String := ""
  column : Nat := 0
  spaced : Bool := true
  indenting : Bool := true

namespace Layout

def put (c : Char) (l : Layout) : Layout := { l with text := l.text.push c, column := l.column + 1 }

def putAll (cs : List Char) (l : Layout) : Layout := cs.foldl (fun l c => l.put c) l

/-- Writes a line break. -/
def putBreak (c : Char) (l : Layout) : Layout := { l with text := l.text.push c, column := 0 }

/-- Moves to the given column of a line that has only indentation so far. -/
def indentTo (indent : Nat) (l : Layout) : Layout :=
  let fresh := l.indenting && l.column ≤ indent && (l.column != indent || l.spaced)
  let l := if fresh then l else l.putBreak '\n'
  let l := l.putAll (List.replicate (indent - l.column) ' ')
  { l with spaced := true, indenting := true }

/-- Writes a space unless there is one. -/
def separate (l : Layout) : Layout := if l.spaced then l else l.put ' '

/-- Ends a piece of text that is no indicator. -/
def closed (l : Layout) : Layout := { l with spaced := false, indenting := false }

/-- Writes an indicator behind a space; a `leading` one leaves room for another node in its
line. -/
def indicator (leading : Bool) (c : Char) (l : Layout) : Layout :=
  let l := l.separate.put c
  { l with spaced := false, indenting := l.indenting && leading }

/-! ## Tags -/

/-- The characters of a tag that are written as they are. -/
def isPlainTagChar (c : Char) : Bool := isTagChar true c && c != '!' && c != '%'

def tagContent (name : List Char) : List Char :=
  name.flatMap fun c =>
    if isPlainTagChar c then [c]
    else c.toString.toUTF8.toList.flatMap fun b => '%' :: Text.upperHex 2 b.toNat

/-- Writes a tag: behind its `!`, or in full if that is all of it. -/
def tag (name : Option String) (l : Layout) : Layout :=
  match name with
  | none => l
  | some name =>
    match name.toList with
    | '!' :: first :: rest => (l.separate.putAll ('!' :: tagContent (first :: rest))).closed
    | cs => (l.separate.putAll ('!' :: '<' :: tagContent cs ++ ['>'])).closed

/-! ## Scalars -/

/-- The characters of a single-quoted scalar.  `broken` says that a line break has been written
last. -/
def singleQuotedBody (indent : Nat) : Bool → List Char → Layout → Layout
  | broken, [], l => if broken then l.indentTo indent else l
  | broken, c :: rest, l =>
    if isBreak c then
      let l := if !broken && c == '\n' then l.putBreak '\n' else l
      singleQuotedBody indent true rest { l.putBreak c with indenting := true }
    else
      let l := if broken && c != ' ' then l.indentTo indent else l
      let l := if c == '\x27' then l.put c else l
      let l := l.put c
      singleQuotedBody indent (broken && c == ' ') rest
        { l with indenting := l.indenting && c == ' ' }

/-- The letter of a character that has an escape of its own. -/
def escapeLetter? (c : Char) : Option Char :=
  [('\x00', '0'), ('\x07', 'a'), ('\x08', 'b'), ('\t', 't'), ('\n', 'n'), ('\x0b', 'v'),
    ('\x0c', 'f'), ('\r', 'r'), ('\x1b', 'e'), ('"', '"'), ('\\', '\\'), ('\u0085', 'N'),
    ('\u2028', 'L'), ('\u2029', 'P')].lookup c

/-- A character inside double quotes. -/
def escaped (c : Char) : List Char :=
  if isShown c && !isBreak c && c != '"' && c != '\\' then [c]
  else
    match escapeLetter? c with
    | some letter => ['\\', letter]
    | none =>
      let n := c.toNat
      if n ≤ 0xFF then '\\' :: 'x' :: Text.upperHex 2 n
      else if n ≤ 0xFFFF then '\\' :: 'u' :: Text.upperHex 4 n
      else '\\' :: 'U' :: Text.upperHex 8 n

/-- The hints behind the `|` of a literal block: its indentation if the text starts with a blank,
and what becomes of line breaks at its end. -/
def literalHints (cs : List Char) : List Char :=
  let start := match cs with
    | c :: _ => if c == ' ' || isBreak c then ['2'] else []
    | [] => []
  let finish := match cs.reverse with
    | [] => ['-']
    | [c] => if isBreak c then ['+'] else ['-']
    | c :: d :: _ => if !isBreak c then ['-'] else if isBreak d then ['+'] else []
  start ++ finish

/-- The lines of a literal block.  `broken` says that a line break has been written last. -/
def literalBody (indent : Nat) : Bool → List Char → Layout → Layout
  | _, [], l => l
  | broken, c :: rest, l =>
    if isBreak c then literalBody indent true rest { l.putBreak c with indenting := true }
    else
      let l := if broken then l.indentTo indent else l
      literalBody indent false rest { l.put c with indenting := false }

def scalar (style : ScalarStyle) (indent : Nat) (cs : List Char) (l : Layout) : Layout :=
  match style with
  | .plain => (l.separate.putAll cs).closed
  | .singleQuoted =>
    ((singleQuotedBody indent false cs (l.indicator false '\x27')).put '\x27').closed
  | .doubleQuoted => ((l.separate.putAll ('"' :: cs.flatMap escaped)).put '"').closed
  | .literal | .folded =>
    let l := (l.separate.putAll ('|' :: literalHints cs)).putBreak '\n'
    literalBody indent true cs { l with spaced := true, indenting := true }

end Layout

/-! ## The tree -/

namespace Outline

/-- The length in bytes of a tag as it counts for a key. -/
def tagSize (tag : Option String) : Nat := (tag.map String.utf8ByteSize).getD 0

/-- A key that can stand in front of its `:` on one line. -/
def isSimpleKey : Outline → Bool
  | .scalar tag _ text => !isMultiline text.toList && tagSize tag + text.utf8ByteSize ≤ 128
  | .sequence tag [] => tagSize tag ≤ 128
  | .mapping tag [] => tagSize tag ≤ 128
  | _ => false

/-- The indentation inside a node at the given one; the root has none. -/
def deeper (indent : Option Nat) (root : Nat) : Nat :=
  match indent with
  | none => root
  | some i => i + 2

mutual

/-- Lays out a node.  `inMapping` says that it is a key or a value, and `simpleKey` that it is a
key in front of its `:`. -/
def layout (inMapping simpleKey : Bool) (indent : Option Nat) : Outline → Layout → Layout
  | .scalar tag style text, l =>
    let cs := text.toList
    (l.tag tag).scalar (style.chosen simpleKey cs) (deeper indent 2) cs
  | .sequence tag [], l => ((l.tag tag).indicator false '[').put ']'
  | .sequence tag items, l =>
    let l := l.tag tag
    match indent with
    | some i =>
      layoutItems (if inMapping && !l.indenting then i else i + 2) items l
    | none => layoutItems 0 items l
  | .mapping tag [], l => ((l.tag tag).indicator false '\x7b').put '\x7d'
  | .mapping tag entries, l => layoutEntries (deeper indent 0) entries (l.tag tag)

def layoutItems (indent : Nat) : List Outline → Layout → Layout
  | [], l => l
  | item :: items, l =>
    let l := (l.indentTo indent).indicator true '-'
    layoutItems indent items (layout false false (some indent) item l)

def layoutEntries (indent : Nat) : List (Outline × Outline) → Layout → Layout
  | [], l => l
  | (key, value) :: entries, l =>
    let l := l.indentTo indent
    let l :=
      if key.isSimpleKey then
        let l := (layout true true (some indent) key l).put ':'
        { l with spaced := false, indenting := false }
      else
        let l := layout true false (some indent) key (l.indicator true '?')
        (l.indentTo indent).indicator true ':'
    layoutEntries indent entries (layout true false (some indent) value l)

end

/-- The text of a document. -/
def render (o : Outline) : String := ((o.layout false false none {}).indentTo 0).text

end Outline

/-- The text of a value. -/
def Value.render (v : Value) : Except WriteError String := do
  let outline ← Outline.ofEvents (← v.events)
  .ok outline.render

end JobMatrix.Yaml
