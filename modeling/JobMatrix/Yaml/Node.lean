import JobMatrix.Yaml.Token.Scan

/-!
# Nodes of a YAML document

`Node` is the tree a document describes: scalars with their style, sequences, mappings and
aliases.  The type is parametric in what names an anchor, so that the same tree serves before and
after aliases are resolved.

`Node.ofTokens` reads the tree of the one document of a stream.  The functions that read a node
and the entries of the five kinds of collection are mutually recursive; each takes the tokens that
are left and answers with those behind what it read.
-/

set_option autoImplicit false

namespace JobMatrix.Yaml

/-- A tag.  Percent escapes may write octets that are no text; all that counts of such a tag is
whether it is local, that is, starts with `!`. -/
inductive Tag
  | text (name : String)
  | undecodable (isLocal : Bool)
deriving DecidableEq, Repr

def Tag.ofOctets (octets : List UInt8) : Tag :=
  match String.fromUTF8? ⟨octets.toArray⟩ with
  | some name => .text name
  | none => .undecodable (octets.head? == some '!'.toNat.toUInt8)

/-- A tag that is private to its document. -/
def Tag.isLocal : Tag → Bool
  | text name => name.startsWith "!"
  | undecodable isLocal => isLocal

/-- The name of a local tag, without the `!` in front unless that is all there is. -/
def Tag.localName? : Tag → Option String
  | text name =>
    match name.toList with
    | ['!'] => some "!"
    | '!' :: rest => some (String.ofList rest)
    | _ => none
  | undecodable _ => none

/-- What may stand in front of a node. -/
structure Properties (ρ : Type) where
  anchor : Option ρ := none
  tag : Option Tag := none

inductive Node (ρ : Type)
  | alias (target : ρ)
  | scalar (properties : Properties ρ) (style : ScalarStyle) (text : String)
  | sequence (properties : Properties ρ) (items : List (Node ρ))
  | mapping (properties : Properties ρ) (entries : List (Node ρ × Node ρ))

namespace Node

/-- The node of a place where nothing is written. -/
def empty {ρ : Type} : Node ρ := .scalar {} .plain ""

instance {ρ : Type} : Inhabited (Node ρ) := ⟨empty⟩

/-! ## Reading nodes from tokens -/

/-- Fails at the first of the tokens. -/
def failAt {α : Type} (ls : List Lexeme) (problem : String) : Except SyntaxError α :=
  match ls with
  | l :: _ => .error ⟨problem, l.line, l.column⟩
  | [] => .error ⟨problem, 0, 0⟩

/-- The first of the tokens; a stream that is used up goes on ending. -/
def peek (ls : List Lexeme) : Token :=
  match ls with
  | l :: _ => l.token
  | [] => .streamEnd

/-- Tag handles and the stems they stand for. -/
abbrev Handles := List (String × List UInt8)

/-- The handles every document has. -/
def Handles.standard : Handles :=
  [("!", ['!'.toNat.toUInt8]), ("!!", "tag:yaml.org,2002:".toUTF8.toList)]

def readTagToken (handles : Handles) (handle : String) (suffix : List UInt8) (ls : List Lexeme) :
    Except SyntaxError Tag :=
  if handle = "" then .ok (.ofOctets suffix)
  else
    match handles.lookup handle with
    | some stem => .ok (.ofOctets (stem ++ suffix))
    | none => failAt ls "found undefined tag handle"

/-- Reads an anchor and a tag, in either order. -/
def readProperties (handles : Handles) (ls : List Lexeme) :
    Except SyntaxError (Properties String × List Lexeme) :=
  match peek ls with
  | .anchor name =>
    match peek ls.tail with
    | .tag handle suffix => do
      let tag ← readTagToken handles handle suffix ls.tail
      .ok ({ anchor := some name, tag := some tag }, ls.tail.tail)
    | _ => .ok ({ anchor := some name }, ls.tail)
  | .tag handle suffix => do
    let tag ← readTagToken handles handle suffix ls
    match peek ls.tail with
    | .anchor name => .ok ({ anchor := some name, tag := some tag }, ls.tail.tail)
    | _ => .ok ({ tag := some tag }, ls.tail)
  | _ => .ok ({}, ls)

mutual

/-- Reads a node.  `block` admits block collections, and `indentless` a block sequence at the
indentation of the mapping around it. -/
def read (handles : Handles) (block indentless : Bool) :
    Nat → List Lexeme → Except SyntaxError (Node String × List Lexeme)
  | 0, ls => failAt ls "did not find expected node content"
  | n + 1, ls =>
    match peek ls with
    | .alias name => .ok (.alias name, ls.tail)
    | _ => do
      let (properties, ls) ← readProperties handles ls
      match peek ls with
      | .scalar style text => .ok (.scalar properties style text, ls.tail)
      | .flowSequenceStart => do
        let (items, ls) ← readFlowItems handles true n ls.tail
        .ok (.sequence properties items, ls)
      | .flowMappingStart => do
        let (entries, ls) ← readFlowEntries handles true n ls.tail
        .ok (.mapping properties entries, ls)
      | token =>
        if indentless && token == .blockEntry then do
          let (items, ls) ← readIndentlessItems handles n ls
          .ok (.sequence properties items, ls)
        else if block && token == .blockSequenceStart then do
          let (items, ls) ← readBlockItems handles n ls.tail
          .ok (.sequence properties items, ls)
        else if block && token == .blockMappingStart then do
          let (entries, ls) ← readBlockEntries handles n ls.tail
          .ok (.mapping properties entries, ls)
        else if properties.anchor.isSome || properties.tag.isSome then
          .ok (.scalar properties .plain "", ls)
        else failAt ls "did not find expected node content"

/-- Reads the items of a block sequence and its end. -/
def readBlockItems (handles : Handles) :
    Nat → List Lexeme → Except SyntaxError (List (Node String) × List Lexeme)
  | 0, ls => failAt ls "did not find expected '-' indicator"
  | n + 1, ls =>
    match peek ls with
    | .blockEntry => do
      let ls := ls.tail
      let (item, ls) ←
        match peek ls with
        | .blockEntry | .blockEnd => .ok (empty, ls)
        | _ => read handles true false n ls
      let (items, ls) ← readBlockItems handles n ls
      .ok (item :: items, ls)
    | .blockEnd => .ok ([], ls.tail)
    | _ => failAt ls "did not find expected '-' indicator"

/-- Reads the items of a block sequence that shares its mapping's indentation. -/
def readIndentlessItems (handles : Handles) :
    Nat → List Lexeme → Except SyntaxError (List (Node String) × List Lexeme)
  | 0, ls => .ok ([], ls)
  | n + 1, ls =>
    match peek ls with
    | .blockEntry => do
      let ls := ls.tail
      let (item, ls) ←
        match peek ls with
        | .blockEntry | .key | .value | .blockEnd => .ok (empty, ls)
        | _ => read handles true false n ls
      let (items, ls) ← readIndentlessItems handles n ls
      .ok (item :: items, ls)
    | _ => .ok ([], ls)

/-- Reads the entries of a block mapping and its end. -/
def readBlockEntries (handles : Handles) :
    Nat → List Lexeme → Except SyntaxError (List (Node String × Node String) × List Lexeme)
  | 0, ls => failAt ls "did not find expected key"
  | n + 1, ls =>
    match peek ls with
    | .key => do
      let ls := ls.tail
      let (key, ls) ←
        match peek ls with
        | .key | .value | .blockEnd => .ok (empty, ls)
        | _ => read handles true true n ls
      let (value, ls) ←
        match peek ls with
        | .value =>
          match peek ls.tail with
          | .key | .value | .blockEnd => .ok (empty, ls.tail)
          | _ => read handles true true n ls.tail
        | _ => .ok (empty, ls)
      let (entries, ls) ← readBlockEntries handles n ls
      .ok ((key, value) :: entries, ls)
    | .blockEnd => .ok ([], ls.tail)
    | _ => failAt ls "did not find expected key"

/-- Reads the items of a flow sequence and its end.  All items but the `first` have a comma in
front. -/
def readFlowItems (handles : Handles) (first : Bool) :
    Nat → List Lexeme → Except SyntaxError (List (Node String) × List Lexeme)
  | 0, ls => failAt ls "did not find expected ',' or ']'"
  | n + 1, ls =>
    if peek ls == .flowSequenceEnd then .ok ([], ls.tail)
    else if !first && peek ls != .flowEntry then failAt ls "did not find expected ',' or ']'"
    else
      let ls := if first then ls else ls.tail
      match peek ls with
      | .flowSequenceEnd => .ok ([], ls.tail)
      | .key => do
        let (entry, ls) ← readFlowPair handles n ls.tail
        let (items, ls) ← readFlowItems handles false n ls
        .ok (.mapping {} [entry] :: items, ls)
      | _ => do
        let (item, ls) ← read handles false false n ls
        let (items, ls) ← readFlowItems handles false n ls
        .ok (item :: items, ls)

/-- Reads an entry that stands in a flow sequence, behind its key indicator.  If no key is
written, the token that shows it is passed over. -/
def readFlowPair (handles : Handles) :
    Nat → List Lexeme → Except SyntaxError ((Node String × Node String) × List Lexeme)
  | 0, ls => failAt ls "did not find expected node content"
  | n + 1, ls => do
    let (key, ls) ←
      match peek ls with
      | .value | .flowEntry | .flowSequenceEnd => .ok (empty, ls.tail)
      | _ => read handles false false n ls
    let (value, ls) ←
      match peek ls with
      | .value =>
        match peek ls.tail with
        | .flowEntry | .flowSequenceEnd => .ok (empty, ls.tail)
        | _ => read handles false false n ls.tail
      | _ => .ok (empty, ls)
    .ok ((key, value), ls)

/-- Reads the entries of a flow mapping and its end. -/
def readFlowEntries (handles : Handles) (first : Bool) :
    Nat → List Lexeme → Except SyntaxError (List (Node String × Node String) × List Lexeme)
  | 0, ls => failAt ls "did not find expected ',' or '\x7d'"
  | n + 1, ls =>
    if peek ls == .flowMappingEnd then .ok ([], ls.tail)
    else if !first && peek ls != .flowEntry then failAt ls "did not find expected ',' or '\x7d'"
    else
      let ls := if first then ls else ls.tail
      match peek ls with
      | .flowMappingEnd => .ok ([], ls.tail)
      | .key => do
        let ls := ls.tail
        let (key, ls) ←
          match peek ls with
          | .value | .flowEntry | .flowMappingEnd => .ok (empty, ls)
          | _ => read handles false false n ls
        let (value, ls) ←
          match peek ls with
          | .value =>
            match peek ls.tail with
            | .flowEntry | .flowMappingEnd => .ok (empty, ls.tail)
            | _ => read handles false false n ls.tail
          | _ => .ok (empty, ls)
        let (entries, ls) ← readFlowEntries handles false n ls
        .ok ((key, value) :: entries, ls)
      | _ => do
        let (key, ls) ← read handles false false n ls
        let (entries, ls) ← readFlowEntries handles false n ls
        .ok ((key, empty) :: entries, ls)

end

/-! ## The document of a stream -/

/-- Reads the directives of a document: at most one version, which must be 1.1 or 1.2, and tag
handles, each at most once. -/
def readDirectives : Bool → Handles → List Lexeme →
    Except SyntaxError (Handles × List Lexeme)
  | versioned, handles, ls@(l :: rest) =>
    match l.token with
    | .versionDirective major minor =>
      if versioned then failAt ls "found duplicate %YAML directive"
      else if major ≠ 1 ∨ (minor ≠ 1 ∧ minor ≠ 2) then
        failAt ls "found incompatible YAML document"
      else readDirectives true handles rest
    | .tagDirective handle stem =>
      if (handles.lookup handle).isSome then failAt ls "found duplicate %TAG directive"
      else readDirectives versioned ((handle, stem) :: handles) rest
    | _ => .ok (handles, ls)
  | _, handles, [] => .ok (handles, [])

/-- Nothing but document end marks is left of the stream. -/
def atStreamEnd : List Lexeme → Bool
  | [] => true
  | l :: rest =>
    match l.token with
    | .streamEnd => true
    | .documentEnd => atStreamEnd rest
    | _ => false

/-- Reads the content of a document that starts with directives or `---`. -/
def readExplicit (ls : List Lexeme) : Except SyntaxError (Node String × List Lexeme) := do
  let (handles, ls) ← readDirectives false [] ls
  if peek ls ≠ .documentStart then failAt ls "did not find expected <document start>"
  else
    let ls := ls.tail
    match peek ls with
    | .versionDirective _ _ | .tagDirective _ _ | .documentStart | .documentEnd | .streamEnd =>
      .ok (empty, ls)
    | _ => read (handles ++ Handles.standard) true false (2 * ls.length + 2) ls

/-- The node of the one document of a stream.  A stream without documents has the empty node. -/
def ofTokens (ls : List Lexeme) : Except SyntaxError (Node String) := do
  let (node, ls) ←
    match peek ls with
    | .streamEnd => .ok (empty, ls)
    | .versionDirective _ _ | .tagDirective _ _ | .documentStart => readExplicit ls
    | _ => read Handles.standard true false (2 * ls.length + 2) ls
  if atStreamEnd ls then .ok node
  else failAt ls "expected a single document"

end Node

end JobMatrix.Yaml
