import JobMatrix.Yaml.Char

/-!
# Positions in a YAML stream

`Cursor` is what is left of a stream together with the line and column where it starts; columns
decide the structure of block collections.  `SyntaxError` is the one kind of failure of reading
a stream: what is wrong, and where.
-/

set_option autoImplicit false

namespace JobMatrix.Yaml

/-- A text that is not one well-formed YAML document.  Lines and columns count from zero. -/
structure SyntaxError where
  problem : String
  line : Nat
  column : Nat
deriving DecidableEq, Repr

/-- The message names the position the way an editor does, counting from one. -/
def SyntaxError.message (e : SyntaxError) : String :=
  s!"{e.problem} at line {e.line + 1} column {e.column + 1}"

/-- The rest of a stream and its position.  `size` is the number of characters of the whole stream
and bounds the steps of every loop over it. -/
structure Cursor where
  rest : List Char
  index : Nat
  line : Nat
  column : Nat
  size : Nat

namespace Cursor

def ofText (cs : List Char) : Cursor := ⟨cs, 0, 0, 0, cs.length⟩

def fail {α : Type} (c : Cursor) (problem : String) : Except SyntaxError α :=
  .error ⟨problem, c.line, c.column⟩

/-- The first character is `x`. -/
def at? (c : Cursor) (x : Char) : Bool := c.rest.head? == some x

def atEnd (c : Cursor) : Bool := c.rest.isEmpty

/-- The first character satisfies `p`. -/
def sees (c : Cursor) (p : Char → Bool) : Bool := c.rest.head?.any p

/-- Moves over `n` characters of one line. -/
def advance (n : Nat) (c : Cursor) : Cursor :=
  { c with rest := c.rest.drop n, index := c.index + n, column := c.column + n }

/-- The characters up to the first one that does not satisfy `p`. -/
def span (c : Cursor) (p : Char → Bool) : List Char := c.rest.takeWhile p

/-- Moves to the first character that does not satisfy `p`, within one line. -/
def skip (c : Cursor) (p : Char → Bool) : Cursor :=
  let n := (c.span p).length
  { c with rest := c.rest.dropWhile p, index := c.index + n, column := c.column + n }

/-- Moves over a line break; a carriage return and a line feed are one. -/
def nextLine (c : Cursor) : Cursor :=
  match c.rest with
  | '\r' :: '\n' :: rest =>
    { c with rest, index := c.index + 2, line := c.line + 1, column := 0 }
  | _ :: rest => { c with rest, index := c.index + 1, line := c.line + 1, column := 0 }
  | [] => c

/-- What a line break stands for in a scalar: a line feed, except that the two Unicode separators
stand for themselves. -/
def breakText (c : Cursor) : List Char :=
  match c.rest with
  | x :: _ =>
    if x == '\u2028' || x == '\u2029' then [x]
    else if isBreak x then ['\n']
    else []
  | [] => []

/-- Moves over a line break, if there is one. -/
def skipBreak (c : Cursor) : Cursor := if c.sees isBreak then c.nextLine else c

/-- Moves to the end of the line over spaces, tabs and a comment. -/
def skipTrailer (c : Cursor) : Cursor :=
  let c := c.skip isSpace
  if c.at? '#' then c.skip (!isBreak ·) else c

/-- A document mark starts here, at the start of a line. -/
def atDocumentMark (c : Cursor) : Bool :=
  c.column == 0 && (startsDocumentMark '-' c.rest || startsDocumentMark '.' c.rest)

end Cursor

end JobMatrix.Yaml
