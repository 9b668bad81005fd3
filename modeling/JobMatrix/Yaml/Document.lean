import JobMatrix.Yaml.Node

/-!
# Documents with resolved aliases

`Document.parse` reads a text.  Aliases are resolved by numbers: the document is walked in writing
order, an anchor gets the number of anchor *names* that precede it, and an alias the number of the
latest anchor of its name.  An anchor that repeats an earlier name does not raise the number of
names, so two anchors may share a number; an alias then stands for the later node.
-/

set_option autoImplicit false

namespace JobMatrix.Yaml

/-- The anchor names met so far, each with the number of its latest anchor. -/
abbrev AnchorNumbers := List (String × Nat)

namespace AnchorNumbers

/-- Binds a name anew.  Its number is the number of names bound before. -/
def define (ns : AnchorNumbers) (name : String) : Nat × AnchorNumbers :=
  (ns.length, (name, ns.length) :: ns.filter (·.1 != name))

end AnchorNumbers

namespace Node

/-- Numbers the anchor in front of a node. -/
def numberProperties (ns : AnchorNumbers) (p : Properties String) :
    Properties Nat × AnchorNumbers :=
  match p.anchor with
  | some name =>
    let (number, ns) := ns.define name
    ({ anchor := some number, tag := p.tag }, ns)
  | none => ({ tag := p.tag }, ns)

mutual

/-- Numbers the anchors and aliases of a node.  Fails on an alias without an anchor before it. -/
def number (ns : AnchorNumbers) : Node String → Option (Node Nat × AnchorNumbers)
  | .alias name => (ns.lookup name).map fun n => (.alias n, ns)
  | .scalar p style text =>
    let (p, ns) := numberProperties ns p
    some (.scalar p style text, ns)
  | .sequence p items =>
    let (p, ns) := numberProperties ns p
    (numberItems ns items).map fun (items, ns) => (.sequence p items, ns)
  | .mapping p entries =>
    let (p, ns) := numberProperties ns p
    (numberEntries ns entries).map fun (entries, ns) => (.mapping p entries, ns)

def numberItems (ns : AnchorNumbers) : List (Node String) → Option (List (Node Nat) × AnchorNumbers)
  | [] => some ([], ns)
  | item :: items =>
    (number ns item).bind fun (item, ns) =>
      (numberItems ns items).map fun (items, ns) => (item :: items, ns)

def numberEntries (ns : AnchorNumbers) :
    List (Node String × Node String) → Option (List (Node Nat × Node Nat) × AnchorNumbers)
  | [] => some ([], ns)
  | (key, value) :: entries =>
    (number ns key).bind fun (key, ns) =>
      (number ns value).bind fun (value, ns) =>
        (numberEntries ns entries).map fun (entries, ns) => ((key, value) :: entries, ns)

end

mutual

/-- The nodes with an anchor inside a node, with their numbers, in writing order. -/
def anchored : Node Nat → List (Nat × Node Nat)
  | .alias _ => []
  | .scalar p style text => (p.anchor.map fun n => (n, .scalar p style text)).toList
  | .sequence p items =>
    (p.anchor.map fun n => (n, .sequence p items)).toList ++ anchoredItems items
  | .mapping p entries =>
    (p.anchor.map fun n => (n, .mapping p entries)).toList ++ anchoredEntries entries

def anchoredItems : List (Node Nat) → List (Nat × Node Nat)
  | [] => []
  | item :: items => anchored item ++ anchoredItems items

def anchoredEntries : List (Node Nat × Node Nat) → List (Nat × Node Nat)
  | [] => []
  | (key, value) :: entries => anchored key ++ anchored value ++ anchoredEntries entries

end

mutual

/-- The number of places in a node where something starts or ends. -/
def extent {ρ : Type} : Node ρ → Nat
  | .alias _ => 1
  | .scalar _ _ _ => 1
  | .sequence _ items => 2 + itemsExtent items
  | .mapping _ entries => 2 + entriesExtent entries

def itemsExtent {ρ : Type} : List (Node ρ) → Nat
  | [] => 0
  | item :: items => extent item + itemsExtent items

def entriesExtent {ρ : Type} : List (Node ρ × Node ρ) → Nat
  | [] => 0
  | (key, value) :: entries => extent key + extent value + entriesExtent entries

end

end Node

/-- A document: its node, and the nodes its aliases stand for. -/
structure Document where
  root : Node Nat
  anchored : List (Nat × Node Nat)
  extent : Nat

namespace Document

/-- The document of a text. -/
def parse (text : String) : Except SyntaxError Document := do
  let node ← Node.ofTokens (← tokens text)
  match node.number [] with
  | some (root, _) => .ok { root, anchored := root.anchored.reverse, extent := root.extent }
  | none => .error ⟨"unknown anchor", 0, 0⟩

/-- The node an alias with this number stands for.  The walk that numbered the alias has met such a
node before it. -/
def target (d : Document) (number : Nat) : Node Nat := (d.anchored.lookup number).getD .empty

end Document

end JobMatrix.Yaml
