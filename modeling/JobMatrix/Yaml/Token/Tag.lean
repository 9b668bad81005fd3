import JobMatrix.Yaml.Token.Basic
import JobMatrix.Yaml.Token.Cursor

/-!
# Tags, anchors and directives

Reading the tokens that describe a node or a document.  A tag is a handle and a suffix; percent
escapes in the suffix write the octets of UTF-8 characters, and an octet zero ends it.
-/

set_option autoImplicit false

namespace JobMatrix.Yaml.Cursor

/-- The number of octets of the character that starts with the octet `n`. -/
def octetCount? (n : Nat) : Option Nat :=
  if n < 0x80 then some 1
  else if n < 0xC0 then none
  else if n < 0xE0 then some 2
  else if n < 0xF0 then some 3
  else if n < 0xF8 then some 4
  else none

/-- The octet a percent escape at the start of the rest writes. -/
def escapedOctet? : List Char → Option Nat
  | '%' :: a :: b :: _ => hexNumber? 2 [a, b] 0
  | _ => none

/-- Reads the further octets of a character. -/
def readTrailingOctets : Nat → Cursor → Except SyntaxError (List UInt8 × Cursor)
  | 0, c => .ok ([], c)
  | n + 1, c =>
    match escapedOctet? c.rest with
    | none => c.fail "did not find URI escaped octet"
    | some octet =>
      if octet / 64 ≠ 2 then c.fail "found an incorrect trailing UTF-8 octet"
      else do
        let (octets, c) ← readTrailingOctets n (c.advance 3)
        .ok (octet.toUInt8 :: octets, c)

/-- Reads the percent escapes of one character. -/
def readEscapedOctets (c : Cursor) : Except SyntaxError (List UInt8 × Cursor) :=
  match escapedOctet? c.rest with
  | none => c.fail "did not find URI escaped octet"
  | some octet =>
    match octetCount? octet with
    | none => c.fail "found an incorrect leading UTF-8 octet"
    | some count => do
      let (octets, c) ← (c.advance 3).readTrailingOctets (count - 1)
      .ok (octet.toUInt8 :: octets, c)

/-- Reads the characters of a tag as octets, latest first. -/
def readTagOctets (verbatim : Bool) :
    Nat → List UInt8 → Cursor → Except SyntaxError (List UInt8 × Cursor)
  | 0, octets, c => .ok (octets, c)
  | n + 1, octets, c =>
    match c.rest with
    | [] => .ok (octets, c)
    | x :: _ =>
      if !isTagChar verbatim x then .ok (octets, c)
      else if x == '%' then do
        let (more, c) ← c.readEscapedOctets
        readTagOctets verbatim n (more.reverse ++ octets) c
      else readTagOctets verbatim n (x.toNat.toUInt8 :: octets) (c.advance 1)

/-- Reads the suffix of a tag, or of a tag directive.  `head` holds characters already read; with
none of them the suffix must not be empty. -/
def readTagSuffix (c : Cursor) (verbatim : Bool) (head : List Char) :
    Except SyntaxError (List UInt8 × Cursor) := do
  let (octets, next) ← c.readTagOctets verbatim (c.size + 1) []
  if head.isEmpty && octets.isEmpty then c.fail "did not find expected tag URI"
  else
    let all := (head.drop 1).map (·.toNat.toUInt8) ++ octets.reverse
    .ok (all.takeWhile (· != 0), next)

/-- Reads a tag handle: `!`, a word, and another `!`.  Without the second `!` the word is not a
handle; the answer holds the characters read all the same. -/
def readTagHandle (c : Cursor) : Except SyntaxError (List Char × Cursor) :=
  if !c.at? '!' then c.fail "did not find expected '!'"
  else
    let c := c.advance 1
    let word := c.span isWordChar
    let c := c.advance word.length
    if c.at? '!' then .ok ('!' :: word ++ ['!'], c.advance 1)
    else .ok ('!' :: word, c)

/-- A handle has a second `!`. -/
def isHandle (cs : List Char) : Bool := 1 < cs.length && cs.getLast? == some '!'

/-- Reads a tag: verbatim, with a handle, or local. -/
def readTag (flow : Bool) (c : Cursor) : Except SyntaxError (Token × Cursor) := do
  let (token, next) ←
    if c.rest[1]? == some '<' then do
      let (suffix, next) ← (c.advance 2).readTagSuffix true []
      if !next.at? '>' then next.fail "did not find the expected '>'"
      else .ok (Token.tag "" suffix, next.advance 1)
    else do
      let (handle, next) ← c.readTagHandle
      if isHandle handle then
        let (suffix, next) ← next.readTagSuffix false []
        .ok (Token.tag (String.ofList handle) suffix, next)
      else
        let (suffix, next) ← next.readTagSuffix false handle
        if suffix.isEmpty then .ok (Token.tag "" ['!'.toNat.toUInt8], next)
        else .ok (Token.tag "!" suffix, next)
  if (flow && next.at? ',') || endsWord next.rest then .ok (token, next)
  else next.fail "did not find expected whitespace or line break"

/-- Reads the name of an anchor or alias behind its indicator. -/
def readAnchor (c : Cursor) : Except SyntaxError (String × Cursor) :=
  let c := c.advance 1
  let name := c.span isWordChar
  let next := c.advance name.length
  if !name.isEmpty
      && (endsWord next.rest || next.sees ['?', ':', ',', ']', '}', '%', '@', '\x60'].contains) then
    .ok (String.ofList name, next)
  else next.fail "did not find expected alphabetic or numeric character"

/-! ## Directives -/

/-- Reads a number of a version, of at most nine digits. -/
def readVersionNumber (c : Cursor) : Except SyntaxError (Nat × Cursor) :=
  let digits := c.span Char.isDigit
  if digits.isEmpty then c.fail "did not find expected version number"
  else if 9 < digits.length then c.fail "found extremely long version number"
  else .ok (digits.foldl (fun n d => 10 * n + (d.toNat - '0'.toNat)) 0, c.advance digits.length)

/-- Reads the version of a `%YAML` directive. -/
def readVersion (c : Cursor) : Except SyntaxError (Token × Cursor) := do
  let (major, c) ← (c.skip isSpace).readVersionNumber
  if !c.at? '.' then c.fail "did not find expected digit or '.' character"
  else
    let (minor, c) ← (c.advance 1).readVersionNumber
    .ok (.versionDirective major minor, c)

/-- Reads the handle and the stem of a `%TAG` directive. -/
def readTagDirective (c : Cursor) : Except SyntaxError (Token × Cursor) := do
  let (handle, c) ← (c.skip isSpace).readTagHandle
  if handle ≠ ['!'] ∧ !isHandle handle then c.fail "did not find expected '!'"
  else if !c.sees isSpace then c.fail "did not find expected whitespace"
  else
    let (stem, c) ← (c.skip isSpace).readTagSuffix true []
    if endsWord c.rest then .ok (.tagDirective (String.ofList handle) stem, c)
    else c.fail "did not find expected whitespace or line break"

/-- Reads a directive line. -/
def readDirective (c : Cursor) : Except SyntaxError (Token × Cursor) := do
  let c := c.advance 1
  let name := c.span isWordChar
  let next := c.advance name.length
  if name.isEmpty then c.fail "could not find expected directive name"
  else if !endsWord next.rest then next.fail "found unexpected non-alphabetical character"
  else
    let (token, next) ←
      if name = ['Y', 'A', 'M', 'L'] then next.readVersion
      else if name = ['T', 'A', 'G'] then next.readTagDirective
      else next.fail "found unknown directive name"
    let next := next.skipTrailer
    if endsLine next.rest then .ok (token, next.skipBreak)
    else next.fail "did not find expected comment or line break"

end JobMatrix.Yaml.Cursor
