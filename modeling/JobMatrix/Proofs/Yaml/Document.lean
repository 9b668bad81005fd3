import JobMatrix.Yaml.Document

/-!
# Numbering the anchors of a node

A node without anchors and aliases is numbered alike wherever it stands, and adds nothing that an
alias could stand for: `Node.Numbers` relates it to itself with numbers for names.  Entries are
numbered one after the other, so what is said of a piece of a mapping holds of it in any mapping.
-/

set_option autoImplicit false

namespace JobMatrix.Yaml

namespace Node

/-- The node has no anchors and no aliases, and is this one with numbers for names. -/
structure Numbers (a : Node String) (b : Node Nat) : Prop where
  number : ∀ ns, a.number ns = some (b, ns)
  anchored : b.anchored = []

/-- The same for the entries of a mapping. -/
structure NumbersEntries (es : List (Node String × Node String)) (es' : List (Node Nat × Node Nat)) :
    Prop where
  number : ∀ ns, numberEntries ns es = some (es', ns)
  anchored : anchoredEntries es' = []

theorem numbers_scalar (style : ScalarStyle) (text : String) :
    Numbers (.scalar {} style text) (.scalar {} style text) where
  number := fun _ => rfl
  anchored := rfl

/-- Items are numbered one after the other, each from the numbers of those in front of it. -/
theorem numberItems_map {α : Type} {l : List α} {f : α → Node String} {g : α → Node Nat}
    (h : ∀ x ∈ l, Numbers (f x) (g x)) (ns : AnchorNumbers) :
    numberItems ns (l.map f) = some (l.map g, ns) := by
  induction l with
  | nil => rfl
  | cons x l ih =>
    have ih := ih fun y hy => h y (List.mem_cons_of_mem _ hy)
    simp only [List.map_cons, numberItems, (h x List.mem_cons_self).number, ih, Option.bind_some,
      Option.map_some]

theorem anchoredItems_map {α : Type} {l : List α} {f : α → Node String} {g : α → Node Nat}
    (h : ∀ x ∈ l, Numbers (f x) (g x)) : anchoredItems (l.map g) = [] := by
  induction l with
  | nil => rfl
  | cons x l ih =>
    have ih := ih fun y hy => h y (List.mem_cons_of_mem _ hy)
    rw [List.map_cons, anchoredItems, (h x List.mem_cons_self).anchored, ih]
    rfl

theorem numbers_sequence {α : Type} {l : List α} {f : α → Node String} {g : α → Node Nat}
    (h : ∀ x ∈ l, Numbers (f x) (g x)) :
    Numbers (.sequence {} (l.map f)) (.sequence {} (l.map g)) where
  number := by
    intro ns
    rw [number]
    dsimp only [numberProperties]
    rw [numberItems_map h]
    rfl
  anchored := by
    rw [anchored, anchoredItems_map h]
    rfl

/-! ## Entries -/

theorem numbersEntries_nil : NumbersEntries [] [] where
  number := fun _ => rfl
  anchored := rfl

theorem NumbersEntries.cons {k v : Node String} {k' v' : Node Nat}
    {es : List (Node String × Node String)} {es' : List (Node Nat × Node Nat)} (hk : Numbers k k')
    (hv : Numbers v v') (h : NumbersEntries es es') :
    NumbersEntries ((k, v) :: es) ((k', v') :: es') where
  number := by
    intro ns
    simp only [numberEntries, hk.number, hv.number, h.number, Option.bind_some, Option.map_some]
  anchored := by
    rw [anchoredEntries, hk.anchored, hv.anchored, h.anchored]
    rfl

/-- Entries that are written for the elements of a list. -/
theorem numbersEntries_map {α : Type} {l : List α} {f : α → Node String × Node String}
    {g : α → Node Nat × Node Nat}
    (h : ∀ x ∈ l, Numbers (f x).1 (g x).1 ∧ Numbers (f x).2 (g x).2) :
    NumbersEntries (l.map f) (l.map g) := by
  induction l with
  | nil => exact numbersEntries_nil
  | cons x l ih =>
    obtain ⟨hk, hv⟩ := h x List.mem_cons_self
    exact .cons hk hv (ih fun y hy => h y (List.mem_cons_of_mem _ hy))

/-- Numbering goes on behind some entries with the numbers that they leave.  Here the entries may have
anchors. -/
theorem numberEntries_append {ns ns' : AnchorNumbers} {es more : List (Node String × Node String)}
    {es' : List (Node Nat × Node Nat)} (h : numberEntries ns es = some (es', ns')) :
    numberEntries ns (es ++ more)
      = (numberEntries ns' more).map fun (more', ns'') => (es' ++ more', ns'') := by
  induction es generalizing ns es' with
  | nil =>
    cases h
    rw [List.nil_append]
    cases numberEntries ns' more <;> rfl
  | cons e es ih =>
    obtain ⟨key, value⟩ := e
    rw [numberEntries] at h
    obtain ⟨⟨key', ns₁⟩, hkey, h⟩ := Option.bind_eq_some_iff.1 h
    obtain ⟨⟨value', ns₂⟩, hvalue, h⟩ := Option.bind_eq_some_iff.1 h
    obtain ⟨⟨rest', ns₃⟩, hrest, h⟩ := Option.map_eq_some_iff.1 h
    cases h
    simp only [List.cons_append, numberEntries, hkey, hvalue, ih hrest, Option.bind_some]
    cases numberEntries ns' more <;> rfl

theorem anchoredEntries_append (es more : List (Node Nat × Node Nat)) :
    anchoredEntries (es ++ more) = anchoredEntries es ++ anchoredEntries more := by
  induction es with
  | nil => rfl
  | cons e es ih => simp only [List.cons_append, anchoredEntries, ih, List.append_assoc]

/-- Pieces of a mapping are put together. -/
theorem NumbersEntries.append {es more : List (Node String × Node String)}
    {es' more' : List (Node Nat × Node Nat)} (h : NumbersEntries es es')
    (hmore : NumbersEntries more more') : NumbersEntries (es ++ more) (es' ++ more') where
  number := by
    intro ns
    rw [numberEntries_append (h.number ns), hmore.number]
    rfl
  anchored := by
    rw [anchoredEntries_append, h.anchored, hmore.anchored]
    rfl

theorem numbers_mapping {es : List (Node String × Node String)} {es' : List (Node Nat × Node Nat)}
    (h : NumbersEntries es es') : Numbers (.mapping {} es) (.mapping {} es') where
  number := by
    intro ns
    rw [number]
    dsimp only [numberProperties]
    rw [h.number]
    rfl
  anchored := by
    rw [anchored, h.anchored]
    rfl

end Node

/-! ## Documents -/

/-- A text is a document when its tokens are those of a node whose aliases can be resolved. -/
theorem Document.parse_eq {text : String} {ls : List Lexeme} {node : Node String} {root : Node Nat}
    {ns : AnchorNumbers} (htokens : tokens text = .ok ls) (hnode : Node.ofTokens ls = .ok node)
    (hroot : node.number [] = some (root, ns)) :
    Document.parse text
      = .ok { root, anchored := root.anchored.reverse, extent := root.extent } := by
  rw [parse, htokens]
  dsimp only [bind, Except.bind]
  rw [hnode]
  dsimp only
  rw [hroot]

end JobMatrix.Yaml
