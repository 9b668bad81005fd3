import JobMatrix.Yaml.Token.Basic
import JobMatrix.Yaml.Token.Cursor

/-!
# Scalars

Reading a scalar from a cursor that stands on its first character: plain scalars, the two quoted
styles, and the literal and folded block styles.  The rule they share is line folding (`Gap.text`):
between two words, one line break stands for a space, and each further one for a line feed.
-/

set_option autoImplicit false

namespace JobMatrix.Yaml

/-- The blanks and line breaks between two words of a scalar. -/
structure Gap where
  /-- The blanks, which count as long as no line break follows them. -/
  blanks : List Char := []
  /-- A line break was passed. -/
  broken : Bool := false
  /-- The text of the first line break. -/
  first : List Char := []
  /-- The texts of the other line breaks. -/
  more : List Char := []

/-- What a gap stands for inside a scalar. -/
def Gap.text (g : Gap) : List Char :=
  if !g.broken then g.blanks
  else if g.first.head? == some '\n' then
    if g.more.isEmpty then [' '] else g.more
  else g.first ++ g.more

namespace Cursor

/-- Reads a gap.  After a line break, a tab left of column `limit` is an error. -/
def readGap (limit : Int) : Nat → Gap → Cursor → Except SyntaxError (Gap × Cursor)
  | 0, g, c => .ok (g, c)
  | n + 1, g, c =>
    match c.rest with
    | [] => .ok (g, c)
    | x :: _ =>
      if isSpace x then
        if g.broken && x == '\t' && (c.column : Int) < limit then
          c.fail "found a tab character that violates indentation"
        else if g.broken then readGap limit n g (c.advance 1)
        else readGap limit n { g with blanks := g.blanks ++ [x] } (c.advance 1)
      else if isBreak x then
        if g.broken then readGap limit n { g with more := g.more ++ c.breakText } c.nextLine
        else readGap limit n { g with broken := true, first := c.breakText } c.nextLine
      else .ok (g, c)

/-! ## Plain scalars -/

/-- The word of a plain scalar at the start of the rest.  It ends before a blank, before `:` with
a blank behind it and, in a flow collection, before a flow indicator.  In a flow collection `:` in
front of a flow indicator is refused (`none`). -/
def plainWord? (flow : Bool) : List Char → Option (List Char)
  | [] => some []
  | c :: rest =>
    if isSpace c || isBreak c then some []
    else if flow && c == ':' && rest.head?.any [',', '?', '[', ']', '{', '}'].contains then none
    else if c == ':' && endsWord rest then some []
    else if flow && [',', '[', ']', '{', '}'].contains c then some []
    else (plainWord? flow rest).map (c :: ·)

/-- Reads the words of a plain scalar.  `words` holds what was read, latest first; the flag of the
answer says that a line break follows the last word.  The scalar ends at a document mark, at a
comment and, in block context, at a word left of column `indent`. -/
def readPlainWords (flow : Bool) (indent : Int) :
    Nat → List (List Char) → Gap → Cursor → Except SyntaxError (List (List Char) × Bool × Cursor)
  | 0, words, gap, c => .ok (words, gap.broken, c)
  | n + 1, words, gap, c =>
    if c.atDocumentMark || c.at? '#' then .ok (words, gap.broken, c)
    else
      match plainWord? flow c.rest with
      | none => c.fail "found unexpected ':'"
      | some [] => .ok (words, gap.broken, c)
      | some word => do
        let words := word :: gap.text :: words
        let c := c.advance word.length
        if !c.sees fun x => isSpace x || isBreak x then .ok (words, false, c)
        else
          let (gap, c) ← c.readGap indent (c.size + 1) {}
          if !flow && (c.column : Int) < indent then .ok (words, gap.broken, c)
          else readPlainWords flow indent n words gap c

/-- Reads a plain scalar.  The flag says that a line break follows it. -/
def readPlain (c : Cursor) (flow : Bool) (indent : Int) :
    Except SyntaxError (String × Bool × Cursor) := do
  let (words, broken, c) ← c.readPlainWords flow indent (c.size + 1) [] {}
  .ok (String.ofList words.reverse.flatten, broken, c)

/-! ## Quoted scalars -/

/-- The character a one-letter escape stands for. -/
def escapedChar? : Char → Option Char
  | '0' => some '\x00'
  | 'a' => some '\x07'
  | 'b' => some '\x08'
  | 't' => some '\t'
  | '\t' => some '\t'
  | 'n' => some '\n'
  | 'v' => some '\x0b'
  | 'f' => some '\x0c'
  | 'r' => some '\r'
  | 'e' => some '\x1b'
  | ' ' => some ' '
  | '"' => some '"'
  | '/' => some '/'
  | '\\' => some '\\'
  | 'N' => some '\u0085'
  | '_' => some '\u00a0'
  | 'L' => some '\u2028'
  | 'P' => some '\u2029'
  | _ => none

/-- The number of hexadecimal digits that follow the letter of a numeric escape. -/
def escapeDigits? : Char → Option Nat
  | 'x' => some 2
  | 'u' => some 4
  | 'U' => some 8
  | _ => none

/-- Reads the escape behind a backslash the cursor stands on: the character, and the rest. -/
def readEscape (c : Cursor) : Except SyntaxError (Char × Cursor) :=
  match c.rest with
  | _ :: letter :: rest =>
    match escapedChar? letter, escapeDigits? letter with
    | some x, _ => .ok (x, c.advance 2)
    | none, some digits =>
      match hexNumber? digits rest 0 with
      | none => c.fail "did not find expected hexdecimal number"
      | some n =>
        if n.isValidChar then .ok (Char.ofNat n, c.advance (2 + digits))
        else c.fail "found invalid Unicode character escape code"
    | none, none => c.fail "found unknown escape character"
  | _ => c.fail "found unknown escape character"

/-- Reads the characters of a quoted scalar up to a blank, a line break or the closing quote,
latest first.  The flag says that an escaped line break was passed last. -/
def readQuotedWord (double : Bool) :
    Nat → List Char → Cursor → Except SyntaxError (List Char × Bool × Cursor)
  | 0, word, c => .ok (word, false, c)
  | n + 1, word, c =>
    match c.rest with
    | [] => .ok (word, false, c)
    | x :: rest =>
      if isSpace x || isBreak x then .ok (word, false, c)
      else if !double && x == '\x27' then
        if rest.head? == some '\x27' then readQuotedWord double n ('\x27' :: word) (c.advance 2)
        else .ok (word, false, c)
      else if double && x == '"' then .ok (word, false, c)
      else if double && x == '\\' then
        if rest.head?.any isBreak then .ok (word, true, (c.advance 1).nextLine)
        else do
          let (y, c) ← c.readEscape
          readQuotedWord double n (y :: word) c
      else readQuotedWord double n (x :: word) (c.advance 1)

/-- Reads the words of a quoted scalar and its closing quote. -/
def readQuotedWords (double : Bool) :
    Nat → List (List Char) → Cursor → Except SyntaxError (List (List Char) × Cursor)
  | 0, _, c => c.fail "found unexpected end of stream"
  | n + 1, words, c =>
    if c.atDocumentMark then c.fail "found unexpected document indicator"
    else if c.atEnd then c.fail "found unexpected end of stream"
    else do
      let (word, broken, c) ← c.readQuotedWord double (c.size + 1) []
      let words := word.reverse :: words
      if c.at? (if double then '"' else '\x27') then .ok (words, c.advance 1)
      else
        let (gap, c) ← c.readGap (-1) (c.size + 1) { broken }
        readQuotedWords double n (gap.text :: words) c

/-- Reads a quoted scalar from its opening quote on. -/
def readQuoted (c : Cursor) (double : Bool) : Except SyntaxError (String × Cursor) := do
  let (words, c) ← (c.advance 1).readQuotedWords double (c.size + 1) []
  .ok (String.ofList words.reverse.flatten, c)

/-! ## Block scalars -/

/-- What happens to the line breaks at the end of a block scalar. -/
inductive Chomping
  | strip
  | clip
  | keep
deriving DecidableEq

/-- Reads an indentation indicator. -/
def readIndentation (c : Cursor) : Except SyntaxError (Nat × Cursor) :=
  match c.rest with
  | x :: _ =>
    if x == '0' then c.fail "found an indentation indicator equal to 0"
    else if x.isDigit then .ok (x.toNat - '0'.toNat, c.advance 1)
    else .ok (0, c)
  | [] => .ok (0, c)

/-- Reads a chomping indicator, if there is one. -/
def readChomping (c : Cursor) : Option (Chomping × Cursor) :=
  if c.at? '+' then some (.keep, c.advance 1)
  else if c.at? '-' then some (.strip, c.advance 1)
  else none

/-- Reads the two indicators of a block scalar, in either order. -/
def readBlockHeader (c : Cursor) : Except SyntaxError (Chomping × Nat × Cursor) :=
  match c.readChomping with
  | some (chomping, c) => do
    let (indentation, c) ← c.readIndentation
    .ok (chomping, indentation, c)
  | none => do
    let (indentation, c) ← c.readIndentation
    if indentation = 0 then .ok (.clip, 0, c)
    else
      let (chomping, c) := c.readChomping.getD (.clip, c)
      .ok (chomping, indentation, c)

/-- Reads the empty lines in front of a line of a block scalar: the deepest indentation, and the
texts of the line breaks.  An `indent` of zero means that it is not known yet. -/
def readEmptyLines (indent : Nat) :
    Nat → Nat → List Char → Cursor → Except SyntaxError (Nat × List Char × Cursor)
  | 0, deepest, breaks, c => .ok (deepest, breaks, c)
  | n + 1, deepest, breaks, c =>
    let spaces := (c.span (· == ' ')).length
    let c := c.advance (if indent = 0 then spaces else min spaces (indent - c.column))
    let deepest := max deepest c.column
    if (indent == 0 || c.column < indent) && c.at? '\t' then
      c.fail "found a tab character where an indentation space is expected"
    else if c.sees isBreak then
      readEmptyLines indent n deepest (breaks ++ c.breakText) c.nextLine
    else .ok (deepest, breaks, c)

/-- Reads the lines of a block scalar indented by `indent`.  `first` is the text of the line break
behind the line before, and `more` the texts of the empty lines after it; in a folded scalar a
single line break between two lines that do not start with a blank stands for a space. -/
def readBlockLines (literal : Bool) (indent : Nat) :
    Nat → List (List Char) → List Char → List Char → Bool → Cursor →
      Except SyntaxError (List (List Char) × List Char × List Char × Cursor)
  | 0, lines, first, more, _, c => .ok (lines, first, more, c)
  | n + 1, lines, first, more, afterBlank, c =>
    if c.column ≠ indent ∨ c.atEnd then .ok (lines, first, more, c)
    else do
      let blank := c.sees isSpace
      let joint :=
        if !literal && first.head? == some '\n' && !afterBlank && !blank then
          if more.isEmpty then [' '] else more
        else first ++ more
      let line := c.span (!isBreak ·)
      let c := c.advance line.length
      let first := c.breakText
      let (_, more, c) ← c.skipBreak.readEmptyLines indent (c.size + 1) 0 []
      readBlockLines literal indent n (line :: joint :: lines) first more blank c

/-- Reads a block scalar from its indicator on.  `parent` is the column of the enclosing
collection, or `-1`. -/
def readBlock (c : Cursor) (literal : Bool) (parent : Int) :
    Except SyntaxError (String × Cursor) := do
  let (chomping, indentation, c) ← (c.advance 1).readBlockHeader
  let c := c.skipTrailer
  if !endsLine c.rest then c.fail "did not find expected comment or line break"
  else
    let c := c.skipBreak
    let given := if indentation = 0 then 0 else (max parent 0).toNat + indentation
    let (deepest, more, c) ← c.readEmptyLines given (c.size + 1) 0 []
    let indent := if given = 0 then max deepest (max (parent + 1).toNat 1) else given
    let (lines, first, more, c) ← c.readBlockLines literal indent (c.size + 1) [] [] more false
    let tail := match chomping with
      | .strip => []
      | .clip => first
      | .keep => first ++ more
    .ok (String.ofList (lines.reverse.flatten ++ tail), c)

end Cursor

end JobMatrix.Yaml
