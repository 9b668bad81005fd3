import JobMatrix.Yaml.Decode.Error
import JobMatrix.Yaml.Document

/-!
# Decoders

A `Decoder α` reads the node at a place of a document as an `α`.  Decoders follow aliases, and
count them: a document may be read through at most a hundred times as many aliases as it has
places, so that a short text cannot stand for an endless one.

An error gets its place from the innermost decoder around it that is `located`.
-/

set_option autoImplicit false

namespace JobMatrix.Yaml

/-- Reading inside a document, with the number of aliases followed so far. -/
abbrev Decode (α : Type) := ReaderT Document (StateT Nat (Except DecodeError)) α

abbrev Decoder (α : Type) := Path → Node Nat → Decode α

namespace Decode

variable {α : Type}

/-- Fails without a place. -/
def fail (cause : Cause) : Decode α := throw ⟨none, cause⟩

/-- Gives the errors of `x` that have no place this one. -/
def located (path : Path) (x : Decode α) : Decode α :=
  tryCatch x fun e => throw (e.locate path)

/-- The node itself, or what it is an alias of. -/
def follow : Node Nat → Decode (Node Nat)
  | .alias number => do
    let document ← read
    let followed ← get
    if 100 * document.extent < followed + 1 then fail .repetitionLimit
    else
      set (followed + 1)
      pure (document.target number)
  | node => pure node

end Decode

/-! ## The type of a scalar -/

namespace Tag

/-- A tag of the core schema. -/
def core (name : String) : Tag := .text ("tag:yaml.org,2002:" ++ name)

end Tag

/-- The value of a scalar.  A tag of the core schema asks for its type, and the text must fit it;
under any other tag only a plain scalar with a local tag, or without one, is given a type by its
text.  With `tagTaken` the tag has been read already and does not count. -/
def scalarType (tagTaken : Bool) (tag : Option Tag) (style : ScalarStyle) (text : String) :
    Except Cause Resolved :=
  let byText := if style = .plain then resolvePlain text else .string text
  match tag with
  | none => .ok byText
  | some tag =>
    if tagTaken then .ok byText
    else if tag = .core "bool" then
      match parseBoolean? text with
      | some b => .ok (.boolean b)
      | none => .error (.invalidValue text "a boolean")
    else if tag = .core "int" then
      match (parseInteger? text).bind Resolved.ofInteger? with
      | some r => .ok r
      | none => .error (.invalidValue text "an integer")
    else if tag = .core "float" then
      match parseFloat? text with
      | some x => .ok (.float x)
      | none => .error (.invalidValue text "a float")
    else if tag = .core "null" then
      if isNullText text then .ok .null else .error (.invalidValue text "null")
    else if tag.isLocal then .ok byText
    else .ok (.string text)

/-- Why a node does not fit an expectation. -/
def Cause.mismatch (expected : String) : Node Nat → Cause
  | .scalar p style text =>
    match scalarType false p.tag style text with
    | .ok r => .invalidType (.scalar r) expected
    | .error cause => cause
  | .sequence _ _ => .invalidType .sequence expected
  | .mapping _ _ => .invalidType .mapping expected
  | .alias _ => .invalidType (.scalar .null) expected

namespace Decoder

open Decode

/-! ## Scalars -/

/-- The text of any scalar, whatever its style, type and tag. -/
def textAs (expected : String) : Decoder String := fun path node => located path do
  match ← follow node with
  | .scalar _ _ text => pure text
  | node => fail (.mismatch expected node)

def text : Decoder String := textAs "a string"

/-- The scalar can be read as the type with this tag: it is plain, or a literal block that has
the tag. -/
def isBareOr (tag : Tag) (p : Properties Nat) (style : ScalarStyle) : Bool :=
  style == .plain || (style == .literal && p.tag == some tag)

def boolean : Decoder Bool := fun path node => located path do
  let node ← follow node
  let found := match node with
    | .scalar p style text => if isBareOr (.core "bool") p style then parseBoolean? text else none
    | _ => none
  match found with
  | some b => pure b
  | none => fail (.mismatch "a boolean" node)

/-- A number.  Padding zeros are allowed here. -/
def float : Decoder Binary64 := fun path node => located path do
  let node ← follow node
  let found := match node with
    | .scalar p style text => if isBareOr (.core "float") p style then parseFloat? text else none
    | _ => none
  match found with
  | some x => pure x
  | none => fail (.mismatch "f64" node)

/-- A plain scalar that is empty or null is nothing; anything else is read by `decoder`. -/
def optional {α : Type} (decoder : Decoder α) : Decoder (Option α) := fun path node => do
  let node ← follow node
  match node with
  | .scalar p .plain text =>
    if p.tag = some (.core "null") then
      if isNullText text then pure none else fail (.invalidValue text "null")
    else if text.isEmpty || isNullText text then pure none
    else some <$> decoder path node
  | node => some <$> decoder path node

/-! ## Collections -/

/-- The items of a sequence.  An empty plain scalar is the empty sequence. -/
def items (expected : String) (node : Node Nat) : Decode (List (Node Nat)) := do
  match ← follow node with
  | .sequence _ items => pure items
  | .scalar _ .plain "" => pure []
  | node => fail (.mismatch expected node)

/-- The entries of a mapping.  An empty plain scalar is the empty mapping. -/
def entries (expected : String) (node : Node Nat) : Decode (List (Node Nat × Node Nat)) := do
  match ← follow node with
  | .mapping _ entries => pure entries
  | .scalar _ .plain "" => pure []
  | node => fail (.mismatch expected node)

/-- Reads the items of a sequence, the first of which has the given index. -/
def itemsFrom {α : Type} (item : Decoder α) (path : Path) : Nat → List (Node Nat) → Decode (List α)
  | _, [] => pure []
  | i, node :: nodes => do
    let x ← item (path.index i) node
    let xs ← itemsFrom item path (i + 1) nodes
    pure (x :: xs)

def list {α : Type} (item : Decoder α) : Decoder (List α) := fun path node => located path do
  itemsFrom item path 0 (← items "a sequence" node)

/-- A sequence of two texts. -/
def textPair : Decoder (String × String) := fun path node => located path do
  match ← items "a tuple of size 2" node with
  | [] => fail (.invalidLength 0 "a tuple of size 2")
  | first :: rest =>
    let a ← text (path.index 0) first
    match rest with
    | [] => fail (.invalidLength 1 "a tuple of size 2")
    | second :: more =>
      let b ← text (path.index 1) second
      if more.isEmpty then pure (a, b)
      else fail (.invalidLength (2 + more.length) "sequence of 2 elements")

/-- Reads the entries of a mapping whose keys are texts, and puts each into what has been read
before.  `entry` gets the key, and the place and node of its value. -/
def foldEntries {σ : Type} (keyExpected : String) (entry : σ → String → Decoder σ) (path : Path) :
    σ → List (Node Nat × Node Nat) → Decode σ
  | s, [] => pure s
  | s, (key, value) :: rest => do
    let name ← textAs keyExpected path key
    let s ← entry s name (path.child key) value
    foldEntries keyExpected entry path s rest

/-- A mapping from texts, as its entries in writing order. -/
def textEntries {α : Type} (value : Decoder α) : Decoder (List (String × α)) :=
  fun path node => located path do
    let put (acc : List (String × α)) (name : String) : Decoder (List (String × α)) :=
      fun path node => do pure ((name, ← value path node) :: acc)
    let reversed ← foldEntries "a string" put path [] (← entries "a map" node)
    pure reversed.reverse

/-- A mapping with known fields, read field by field; `finish` sees what all fields gave. -/
def fields {σ α : Type} (expected : String) (start : σ) (field : σ → String → Decoder σ)
    (finish : σ → Decode α) : Decoder α := fun path node => located path do
  finish (← foldEntries "field identifier" field path start (← entries expected node))

/-- Reads a field that has not been read before. -/
def once {α : Type} (name : String) (seen : Option α) (decoder : Decoder α) : Decoder (Option α) :=
  fun path node =>
    if seen.isSome then fail (.duplicateField name) else some <$> decoder path node

/-- The value of a field that must have been read. -/
def required {α : Type} (name : String) (seen : Option α) : Decode α :=
  match seen with
  | some x => pure x
  | none => fail (.missingField name)

end Decoder

end JobMatrix.Yaml
