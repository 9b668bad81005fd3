import JobMatrix.Yaml.Token.Scalar
import JobMatrix.Yaml.Token.Tag

/-!
# From characters to tokens

`tokens` divides a stream into tokens.  Two things go beyond one token at a time.

* **Indentation.**  The columns of the open block collections are on a stack; a token further left
  closes them (`Scanner.closeBlocks`), and an entry further right opens one (`openBlock`).
* **Implicit keys.**  That a scalar is a mapping key shows only at the `:` behind it.  A place where
  a key may start is remembered (`ImplicitKey`), one per flow level; when `:` comes, a key token
  is put in at that place.  A key is limited to one line and 1024 characters.
-/

set_option autoImplicit false

namespace JobMatrix.Yaml

/-- A place where an implicit key may have started. -/
structure ImplicitKey where
  /-- The block structure leaves no other reading, so that a missing `:` is an error. -/
  required : Bool
  /-- The number of tokens in front of it. -/
  number : Nat
  index : Nat
  line : Nat
  column : Nat

structure Scanner where
  cursor : Cursor
  /-- The tokens so far, latest first, and their number. -/
  lexemes : List Lexeme := []
  count : Nat := 0
  /-- The column of the innermost block collection, or `-1`, and those of the outer ones. -/
  indent : Int := -1
  indents : List Int := []
  /-- The possible key of the innermost flow level, and those of the outer levels. -/
  key : Option ImplicitKey := none
  outerKeys : List (Option ImplicitKey) := []
  /-- A key may start here. -/
  keyAllowed : Bool := true
  finished : Bool := false

namespace Scanner

/-- Inside a flow collection. -/
def inFlow (s : Scanner) : Bool := !s.outerKeys.isEmpty

def fail {α : Type} (s : Scanner) (problem : String) : Except SyntaxError α :=
  s.cursor.fail problem

/-- Adds a token that starts at the cursor. -/
def push (s : Scanner) (token : Token) : Scanner :=
  { s with
    lexemes := ⟨token, s.cursor.line, s.cursor.column⟩ :: s.lexemes
    count := s.count + 1 }

/-- Puts a token in at the place of a key. -/
def insertAt (s : Scanner) (key : ImplicitKey) (token : Token) : Scanner :=
  { s with
    lexemes := s.lexemes.insertIdx (s.count - key.number) ⟨token, key.line, key.column⟩
    count := s.count + 1 }

/-! ## Implicit keys -/

/-- Gives up the possible key of this level. -/
def dropKey (s : Scanner) : Except SyntaxError Scanner :=
  match s.key with
  | some key =>
    if key.required then s.fail "could not find expected ':'" else .ok { s with key := none }
  | none => .ok s

/-- Remembers the cursor as the start of a possible key. -/
def saveKey (s : Scanner) : Except SyntaxError Scanner :=
  if s.keyAllowed then do
    let c := s.cursor
    let required := !s.inFlow && s.indent == (c.column : Int)
    let s ← s.dropKey
    .ok { s with key := some ⟨required, s.count, c.index, c.line, c.column⟩ }
  else .ok s

/-- A key that started on an earlier line, or more than 1024 characters ago, is none any more. -/
def isStale (s : Scanner) (key : ImplicitKey) : Bool :=
  key.line < s.cursor.line || key.index + 1024 < s.cursor.index

/-- Gives up the possible keys that the cursor has left behind. -/
def dropStaleKeys (s : Scanner) : Except SyntaxError Scanner :=
  let stale (key : Option ImplicitKey) : Bool := key.any s.isStale
  if (s.key :: s.outerKeys).any fun key => key.any fun k => k.required && s.isStale k then
    s.fail "could not find expected ':'"
  else
    let keep (key : Option ImplicitKey) : Option ImplicitKey := if stale key then none else key
    .ok { s with key := keep s.key, outerKeys := s.outerKeys.map keep }

/-! ## Indentation -/

/-- Opens a block collection at `column`, if that is further right than the innermost one.  The
opening token goes to the place of `key`, or to the end. -/
def openBlock (s : Scanner) (column : Nat) (key : Option ImplicitKey) (token : Token) : Scanner :=
  if !s.inFlow && s.indent < column then
    let s := { s with indents := s.indent :: s.indents, indent := column }
    match key with
    | some key => s.insertAt key token
    | none => s.push token
  else s

/-- The number of open blocks right of `column`, and the state of the stack without them. -/
def closeLoop (column : Int) : List Int → Int → Nat → Nat × Int × List Int
  | [], indent, n => (n, indent, [])
  | outer :: more, indent, n =>
    if column < indent then closeLoop column more outer (n + 1) else (n, indent, outer :: more)

/-- Closes the block collections further right than `column`. -/
def closeBlocks (s : Scanner) (column : Int) : Scanner :=
  if s.inFlow then s
  else
    let (n, indent, indents) := closeLoop column s.indents s.indent 0
    n.repeat (·.push .blockEnd) { s with indent, indents }

/-! ## One token -/

/-- Moves over blanks, comments and line breaks to the next token.  Tabs separate tokens only
where no key may start. -/
def toNextToken : Nat → Scanner → Scanner
  | 0, s => s
  | n + 1, s =>
    let c := s.cursor
    let c := if c.column == 0 && c.at? byteOrderMark then c.advance 1 else c
    let tabs := s.inFlow || !s.keyAllowed
    let c := c.skip fun x => x == ' ' || (tabs && x == '\t')
    let c := if c.at? '#' then c.skip (!isBreak ·) else c
    if c.sees isBreak then
      toNextToken n { s with cursor := c.nextLine, keyAllowed := s.keyAllowed || !s.inFlow }
    else { s with cursor := c }

/-- The end of the stream. -/
def scanEnd (s : Scanner) : Except SyntaxError Scanner := do
  let s := s.closeBlocks (-1)
  let s ← s.dropKey
  .ok { s.push .streamEnd with keyAllowed := false, finished := true }

/-- A directive line. -/
def scanDirective (s : Scanner) : Except SyntaxError Scanner := do
  let s ← (s.closeBlocks (-1)).dropKey
  let (token, cursor) ← s.cursor.readDirective
  .ok { s.push token with cursor, keyAllowed := false }

/-- `---` or `...`. -/
def scanDocumentMark (s : Scanner) (token : Token) : Except SyntaxError Scanner := do
  let s ← (s.closeBlocks (-1)).dropKey
  .ok { s.push token with cursor := s.cursor.advance 3, keyAllowed := false }

/-- `[` or `{`, which opens a flow level. -/
def scanFlowStart (s : Scanner) (token : Token) : Except SyntaxError Scanner := do
  let s ← s.saveKey
  .ok { s.push token with
    cursor := s.cursor.advance 1, outerKeys := s.key :: s.outerKeys, key := none,
    keyAllowed := true }

/-- `]` or `}`, which closes a flow level if one is open. -/
def scanFlowEnd (s : Scanner) (token : Token) : Except SyntaxError Scanner := do
  let s ← s.dropKey
  let s := { s.push token with cursor := s.cursor.advance 1, keyAllowed := false }
  match s.outerKeys with
  | key :: outerKeys => .ok { s with key, outerKeys }
  | [] => .ok s

/-- `,`. -/
def scanFlowEntry (s : Scanner) : Except SyntaxError Scanner := do
  let s ← s.dropKey
  .ok { s.push .flowEntry with cursor := s.cursor.advance 1, keyAllowed := true }

/-- `-` in front of a block entry. -/
def scanBlockEntry (s : Scanner) : Except SyntaxError Scanner :=
  if !s.inFlow && !s.keyAllowed then
    s.fail "block sequence entries are not allowed in this context"
  else do
    let s ← (s.openBlock s.cursor.column none .blockSequenceStart).dropKey
    .ok { s.push .blockEntry with cursor := s.cursor.advance 1, keyAllowed := true }

/-- `?` in front of an explicit key. -/
def scanKey (s : Scanner) : Except SyntaxError Scanner :=
  if !s.inFlow && !s.keyAllowed then
    s.fail "mapping keys are not allowed in this context"
  else do
    let s ← (s.openBlock s.cursor.column none .blockMappingStart).dropKey
    .ok { s.push .key with cursor := s.cursor.advance 1, keyAllowed := !s.inFlow }

/-- `:` in front of a value.  It turns the possible key into a key. -/
def scanValue (s : Scanner) : Except SyntaxError Scanner :=
  match s.key with
  | some key =>
    let s := s.insertAt key .key
    let s := s.openBlock key.column (some key) .blockMappingStart
    .ok { s.push .value with cursor := s.cursor.advance 1, key := none, keyAllowed := false }
  | none =>
    if !s.inFlow && !s.keyAllowed then
      s.fail "mapping values are not allowed in this context"
    else
      let s := s.openBlock s.cursor.column none .blockMappingStart
      .ok { s.push .value with cursor := s.cursor.advance 1, keyAllowed := !s.inFlow }

/-- A token that may start a key: an alias, an anchor or a tag. -/
def scanProperty (s : Scanner) (read : Cursor → Except SyntaxError (Token × Cursor)) :
    Except SyntaxError Scanner := do
  let s ← s.saveKey
  let (token, cursor) ← read s.cursor
  .ok { s.push token with cursor, keyAllowed := false }

/-- A literal or folded scalar, which is never a key. -/
def scanBlockScalar (s : Scanner) (style : ScalarStyle) : Except SyntaxError Scanner := do
  let s ← s.dropKey
  let (text, cursor) ← s.cursor.readBlock (style == .literal) s.indent
  .ok { s.push (.scalar style text) with cursor, keyAllowed := true }

/-- A quoted scalar. -/
def scanQuoted (s : Scanner) (style : ScalarStyle) : Except SyntaxError Scanner := do
  let s ← s.saveKey
  let (text, cursor) ← s.cursor.readQuoted (style == .doubleQuoted)
  .ok { s.push (.scalar style text) with cursor, keyAllowed := false }

/-- A plain scalar.  If a line break follows it, a key may start behind it. -/
def scanPlain (s : Scanner) : Except SyntaxError Scanner := do
  let s ← s.saveKey
  let (text, broken, cursor) ← s.cursor.readPlain s.inFlow (s.indent + 1)
  .ok { s.push (.scalar .plain text) with cursor, keyAllowed := broken }

/-- The characters that cannot start a plain scalar, whatever follows them. -/
def isIndicator (c : Char) : Bool :=
  ['-', '?', ':', ',', '[', ']', '{', '}', '#', '&', '*', '!', '|', '>', '\x27', '"', '%', '@',
    '\x60'].contains c

/-- A plain scalar starts with `c` and goes on with `rest`.  No blank starts one, and of the
indicators only three do, in front of a character that is not blank. -/
def startsPlain (flow : Bool) (c : Char) (rest : List Char) : Bool :=
  (!isSpace c && !isIndicator c) || (c == '-' && !rest.head?.any isSpace)
    || (!flow && (c == '?' || c == ':') && !endsWord rest)

/-- Scans the token at the cursor. -/
def scanToken (s : Scanner) : Except SyntaxError Scanner :=
  let flow := s.inFlow
  match s.cursor.rest with
  | [] => s.scanEnd
  | c :: rest =>
    if s.cursor.column = 0 ∧ c = '%' then s.scanDirective
    else if s.cursor.column = 0 ∧ startsDocumentMark '-' s.cursor.rest then
      s.scanDocumentMark .documentStart
    else if s.cursor.column = 0 ∧ startsDocumentMark '.' s.cursor.rest then
      s.scanDocumentMark .documentEnd
    else if c = '[' then s.scanFlowStart .flowSequenceStart
    else if c = '{' then s.scanFlowStart .flowMappingStart
    else if c = ']' then s.scanFlowEnd .flowSequenceEnd
    else if c = '}' then s.scanFlowEnd .flowMappingEnd
    else if c = ',' then s.scanFlowEntry
    else if c = '-' ∧ endsWord rest then s.scanBlockEntry
    else if c = '?' ∧ endsWord rest then s.scanKey
    else if c = ':' ∧ (flow ∨ endsWord rest) then s.scanValue
    else if c = '*' then s.scanProperty fun c => do
      let (name, c) ← c.readAnchor
      .ok (.alias name, c)
    else if c = '&' then s.scanProperty fun c => do
      let (name, c) ← c.readAnchor
      .ok (.anchor name, c)
    else if c = '!' then s.scanProperty (Cursor.readTag flow)
    else if c = '|' ∧ !flow then s.scanBlockScalar .literal
    else if c = '>' ∧ !flow then s.scanBlockScalar .folded
    else if c = '\x27' then s.scanQuoted .singleQuoted
    else if c = '"' then s.scanQuoted .doubleQuoted
    else if startsPlain flow c rest then s.scanPlain
    else s.fail "found character that cannot start any token"

/-- Moves to the next token and scans it. -/
def step (s : Scanner) : Except SyntaxError Scanner := do
  let s := s.toNextToken (s.cursor.size + 1)
  let s ← s.dropStaleKeys
  (s.closeBlocks s.cursor.column).scanToken

/-- Scans up to the end of the stream.  Each token takes at least one character. -/
def run : Nat → Scanner → Except SyntaxError (List Lexeme)
  | 0, s => s.fail "found unexpected end of stream"
  | n + 1, s =>
    if s.finished then .ok s.lexemes.reverse
    else do
      let s ← s.step
      run n s

end Scanner

/-- The tokens of a text, the last one being the end of the stream. -/
def tokens (text : String) : Except SyntaxError (List Lexeme) :=
  let cs := text.toList
  let c := Cursor.ofText cs
  if cs.all isStreamChar then Scanner.run (cs.length + 2) { cursor := c }
  else c.fail "control characters are not allowed"

end JobMatrix.Yaml
