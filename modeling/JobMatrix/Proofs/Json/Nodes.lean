import JobMatrix.Proofs.Json.Tokens
import JobMatrix.Proofs.Yaml.Document
import JobMatrix.Proofs.Yaml.Node

/-!
# Values of JSON as nodes

The tokens of a value are read as its node (`Json.read_tokens`), in which arrays are sequences,
objects mappings, and strings double-quoted scalars.  So a portable text is a document with that
node (`Document.parse_text`).
-/

set_option autoImplicit false

namespace JobMatrix

namespace Json

open Yaml Yaml.Node

/-! ## The node of a value -/

mutual

/-- The node of a value, without anchors and aliases. -/
def node {ρ : Type} : Json → Node ρ
  | number n => .scalar {} .plain (toString n)
  | text s => .scalar {} .doubleQuoted s
  | list items => .sequence {} (itemNodes items)
  | object fields => .mapping {} (fieldNodes fields)

def itemNodes {ρ : Type} : List Json → List (Node ρ)
  | [] => []
  | item :: items => item.node :: itemNodes items

def fieldNodes {ρ : Type} : List (String × Json) → List (Node ρ × Node ρ)
  | [] => []
  | (name, value) :: fields => (.scalar {} .doubleQuoted name, value.node) :: fieldNodes fields

end

theorem exists_tokens_eq_cons (j : Json) :
    ∃ t ts, j.tokens = t :: ts ∧ startsFlowNode t = true := by
  cases j with
  | number n => exact ⟨_, _, by rw [tokens], rfl⟩
  | text s => exact ⟨_, _, by rw [tokens], rfl⟩
  | list items => exact ⟨_, _, by rw [tokens, List.cons_append], rfl⟩
  | object fields => exact ⟨_, _, by rw [tokens, List.cons_append], rfl⟩

theorem startsFlowNode_peek {j : Json} {xs rest : List Lexeme}
    (hxs : xs.map (·.token) = j.tokens) : startsFlowNode (peek (xs ++ rest)) = true := by
  obtain ⟨t, ts, htokens, ht⟩ := j.exists_tokens_eq_cons
  rw [htokens] at hxs
  obtain ⟨x, xs, rfl, rfl, -⟩ := List.map_eq_cons_iff.1 hxs
  exact ht

mutual

/-- **The tokens of a value are read as its node**, whatever follows them. -/
theorem read_tokens : ∀ (j : Json) {handles : Handles} {block indentless : Bool} {n : Nat}
    {xs rest : List Lexeme}, xs.map (·.token) = j.tokens → j.tokens.length < n →
      read handles block indentless n (xs ++ rest) = .ok (j.node, rest)
  | .number m, handles, block, indentless, n, xs, rest, hxs, hn => by
    rw [tokens] at hxs hn
    obtain ⟨n, rfl⟩ : ∃ k, n = k + 1 := ⟨n - 1, by omega⟩
    obtain ⟨l, _, rfl, hl, htail⟩ := List.map_eq_cons_iff.1 hxs
    obtain rfl := List.map_eq_nil_iff.1 htail
    rw [node]
    exact read_scalar hl
  | .text s, handles, block, indentless, n, xs, rest, hxs, hn => by
    rw [tokens] at hxs hn
    obtain ⟨n, rfl⟩ : ∃ k, n = k + 1 := ⟨n - 1, by omega⟩
    obtain ⟨l, _, rfl, hl, htail⟩ := List.map_eq_cons_iff.1 hxs
    obtain rfl := List.map_eq_nil_iff.1 htail
    rw [node]
    exact read_scalar hl
  | .list items, handles, block, indentless, n, xs, rest, hxs, hn => by
    rw [tokens] at hxs hn
    simp only [List.length_append, List.length_cons, List.length_nil] at hn
    obtain ⟨n, rfl⟩ : ∃ k, n = k + 1 := ⟨n - 1, by omega⟩
    obtain ⟨l, _, rfl, hl, htail⟩ := List.map_eq_cons_iff.1 hxs
    obtain ⟨ys, _, rfl, hys, htail⟩ := List.map_eq_append_iff.1 htail
    obtain ⟨l', _, rfl, hl', htail⟩ := List.map_eq_cons_iff.1 htail
    obtain rfl := List.map_eq_nil_iff.1 htail
    rw [List.cons_append, List.append_assoc, List.singleton_append, read_flowItems hl,
      read_itemsTokens items hys hl' (by omega), node]
    rfl
  | .object fields, handles, block, indentless, n, xs, rest, hxs, hn => by
    rw [tokens] at hxs hn
    simp only [List.length_append, List.length_cons, List.length_nil] at hn
    obtain ⟨n, rfl⟩ : ∃ k, n = k + 1 := ⟨n - 1, by omega⟩
    obtain ⟨l, _, rfl, hl, htail⟩ := List.map_eq_cons_iff.1 hxs
    obtain ⟨ys, _, rfl, hys, htail⟩ := List.map_eq_append_iff.1 htail
    obtain ⟨l', _, rfl, hl', htail⟩ := List.map_eq_cons_iff.1 htail
    obtain rfl := List.map_eq_nil_iff.1 htail
    rw [List.cons_append, List.append_assoc, List.singleton_append, read_flowEntries hl,
      read_fieldsTokens fields hys hl' (by omega), node]
    rfl

theorem read_itemsTokens : ∀ (items : List Json) {handles : Handles} {first : Bool} {n : Nat}
    {xs rest : List Lexeme} {l : Lexeme}, xs.map (·.token) = itemsTokens first items →
      l.token = .flowSequenceEnd → (itemsTokens first items).length + 1 < n →
      readFlowItems handles first n (xs ++ l :: rest) = .ok (itemNodes items, rest)
  | [], handles, first, n, xs, rest, l, hxs, hl, hn => by
    rw [itemsTokens] at hxs
    obtain rfl := List.map_eq_nil_iff.1 hxs
    obtain ⟨n, rfl⟩ : ∃ k, n = k + 1 := ⟨n - 1, by omega⟩
    rw [itemNodes]
    exact readFlowItems_end hl
  | item :: items, handles, first, n, xs, rest, l, hxs, hl, hn => by
    rw [itemsTokens] at hxs hn
    obtain ⟨_, zs, rfl, hfront, hzs⟩ := List.map_eq_append_iff.1 hxs
    obtain ⟨ws, ys, rfl, hws, hys⟩ := List.map_eq_append_iff.1 hfront
    obtain ⟨t, ts, htokens, -⟩ := item.exists_tokens_eq_cons
    have hlength := congrArg List.length htokens
    simp only [List.length_append, List.length_cons] at hn hlength
    obtain ⟨n, rfl⟩ : ∃ k, n = k + 1 := ⟨n - 1, by omega⟩
    rw [List.append_assoc, List.append_assoc,
      readFlowItems_item (separated_of_tokens hws) (startsFlowNode_peek hys)
        (read_tokens item hys (by omega)),
      read_itemsTokens items hzs hl (by omega), itemNodes]
    rfl

theorem read_fieldsTokens : ∀ (fields : List (String × Json)) {handles : Handles} {first : Bool}
    {n : Nat} {xs rest : List Lexeme} {l : Lexeme}, xs.map (·.token) = fieldsTokens first fields →
      l.token = .flowMappingEnd → (fieldsTokens first fields).length + 1 < n →
      readFlowEntries handles first n (xs ++ l :: rest) = .ok (fieldNodes fields, rest)
  | [], handles, first, n, xs, rest, l, hxs, hl, hn => by
    rw [fieldsTokens] at hxs
    obtain rfl := List.map_eq_nil_iff.1 hxs
    obtain ⟨n, rfl⟩ : ∃ k, n = k + 1 := ⟨n - 1, by omega⟩
    rw [fieldNodes]
    exact readFlowEntries_end hl
  | (name, value) :: fields, handles, first, n, xs, rest, l, hxs, hl, hn => by
    rw [fieldsTokens] at hxs hn
    obtain ⟨_, zs, rfl, hfront, hzs⟩ := List.map_eq_append_iff.1 hxs
    obtain ⟨_, ys, rfl, hname, hys⟩ := List.map_eq_append_iff.1 hfront
    obtain ⟨ws, _, rfl, hws, hnamed⟩ := List.map_eq_append_iff.1 hname
    obtain ⟨k, _, rfl, hk, hscalar⟩ := List.map_eq_cons_iff.1 hnamed
    obtain ⟨k', _, rfl, hk', hvalue⟩ := List.map_eq_cons_iff.1 hscalar
    obtain ⟨v, _, rfl, hv, hnil⟩ := List.map_eq_cons_iff.1 hvalue
    obtain rfl := List.map_eq_nil_iff.1 hnil
    simp only [List.length_append, List.length_cons] at hn
    obtain ⟨n, rfl⟩ : ∃ k, n = k + 2 := ⟨n - 2, by omega⟩
    have hkey : startsFlowNode (peek (k' :: v :: (ys ++ (zs ++ l :: rest)))) = true := by
      have hpeek : peek (k' :: v :: (ys ++ (zs ++ l :: rest))) = .scalar .doubleQuoted name := hk'
      rw [hpeek]
      rfl
    rw [List.append_assoc, List.append_assoc, List.append_assoc]
    change readFlowEntries handles first (n + 1 + 1)
      (ws ++ k :: k' :: v :: (ys ++ (zs ++ l :: rest))) = _
    rw [readFlowEntries_entry (separated_of_tokens hws) hk hkey (read_scalar hk') hv
        (startsFlowNode_peek hys) (read_tokens value hys (by omega)),
      read_fieldsTokens fields hzs hl (by omega), fieldNodes]
    rfl

end

/-! ## Numbers for anchors -/

theorem itemNodes_eq_map {ρ : Type} (items : List Json) :
    itemNodes items = items.map (@node ρ) := by
  induction items with
  | nil => rw [itemNodes, List.map_nil]
  | cons item items ih => rw [itemNodes, ih, List.map_cons]

/-- The entry of a field. -/
def fieldNode {ρ : Type} (field : String × Json) : Node ρ × Node ρ :=
  (.scalar {} .doubleQuoted field.1, field.2.node)

theorem fieldNodes_eq_map {ρ : Type} (fields : List (String × Json)) :
    fieldNodes fields = fields.map (@fieldNode ρ) := by
  induction fields with
  | nil => rw [fieldNodes, List.map_nil]
  | cons field fields ih => rw [fieldNodes, ih, List.map_cons]; rfl

mutual

/-- A value has no anchors and no aliases. -/
theorem numbers_node : ∀ j : Json, Numbers j.node j.node
  | .number m => by
    rw [node, node]
    exact numbers_scalar .plain _
  | .text s => by
    rw [node, node]
    exact numbers_scalar .doubleQuoted s
  | .list items => by
    rw [node, node, itemNodes_eq_map, itemNodes_eq_map]
    exact numbers_sequence (numbers_items items)
  | .object fields => by
    rw [node, node, fieldNodes_eq_map, fieldNodes_eq_map]
    exact numbers_mapping (numbersEntries_map (numbers_fields fields))

theorem numbers_items : ∀ (items : List Json), ∀ x ∈ items, Numbers x.node x.node
  | [], _, hx => nomatch hx
  | item :: items, x, hx => by
    rcases List.mem_cons.1 hx with h | hx
    · rw [h]
      exact numbers_node item
    · exact numbers_items items x hx

theorem numbers_fields : ∀ (fields : List (String × Json)), ∀ x ∈ fields,
    Numbers (fieldNode x).1 (fieldNode x).1 ∧ Numbers (fieldNode x).2 (fieldNode x).2
  | [], _, hx => nomatch hx
  | (name, value) :: fields, x, hx => by
    rcases List.mem_cons.1 hx with h | hx
    · rw [h]
      exact ⟨numbers_scalar .doubleQuoted name, numbers_node value⟩
    · exact numbers_fields fields x hx

end

/-! ## Documents -/

theorem ofTokens_tokens (j : Json) {ls : List Lexeme}
    (hls : ls.map (·.token) = j.tokens ++ [.streamEnd]) : ofTokens ls = .ok j.node := by
  obtain ⟨xs, _, rfl, hxs, htail⟩ := List.map_eq_append_iff.1 hls
  obtain ⟨z, _, rfl, hz, hnil⟩ := List.map_eq_cons_iff.1 htail
  obtain rfl := List.map_eq_nil_iff.1 hnil
  have hstart : startsFlowNode (peek (xs ++ [z])) = true := startsFlowNode_peek hxs
  have hlength : (xs ++ [z]).length = j.tokens.length + 1 := by
    rw [List.length_append, ← hxs, List.length_map]
    rfl
  have hread : read Handles.standard true false (2 * (xs ++ [z]).length + 2) (xs ++ [z])
      = .ok (j.node, [z]) := j.read_tokens hxs (by omega)
  have hend : atStreamEnd [z] = true := by rw [atStreamEnd, hz]
  rw [ofTokens]
  split
  iterate 4
    rename_i hpeek
    rw [hpeek] at hstart
    cases hstart
  rw [hread]
  dsimp only [bind, Except.bind]
  rw [if_pos hend]

/-- **A portable text** is a document with the node of its value. -/
theorem Document.parse_text {d : Document} (h : d.Portable) :
    ∃ y, Yaml.Document.parse d.text = .ok y ∧ y.root = d.value.node := by
  obtain ⟨ls, htokens, hls⟩ := h.tokens_text
  exact ⟨_, Yaml.Document.parse_eq htokens (d.value.ofTokens_tokens hls)
    (d.value.numbers_node.number []), rfl⟩

end Json

end JobMatrix
