import JobMatrix.Proofs.Log
import JobMatrix.Yaml.Node

/-!
# Reading nodes off their tokens

What is read does not depend on where the tokens stand, so a piece of a token list is described by
what it is read as: `Node.Reads` for the value of an entry and `Node.ReadsEntries` for entries of a
block mapping.  Entries are put one behind the other by `ReadsEntries.append`; a whole stream is
read by `ofTokens_blockMapping`.  In flow collections an item or entry is read behind the comma in
front of it (`readFlowItems_item`, `readFlowEntries_entry`).
-/

set_option autoImplicit false

namespace JobMatrix.Yaml.Node

variable {handles : Handles} {block indentless : Bool} {n : Nat} {l : Lexeme} {ls rest : List Lexeme}

/-! ## Single nodes -/

theorem read_scalar {style : ScalarStyle} {text : String} (hl : l.token = .scalar style text) :
    read handles block indentless (n + 1) (l :: ls) = .ok (.scalar {} style text, ls) := by
  simp [read, readProperties, peek, hl, bind, Except.bind]

theorem read_flowItems (hl : l.token = .flowSequenceStart) :
    read handles block indentless (n + 1) (l :: ls)
      = (readFlowItems handles true n ls).map fun (items, ls) => (.sequence {} items, ls) := by
  simp only [read, readProperties, peek, hl, bind, Except.bind, List.tail_cons]
  cases readFlowItems handles true n ls <;> rfl

theorem read_flowEntries (hl : l.token = .flowMappingStart) :
    read handles block indentless (n + 1) (l :: ls)
      = (readFlowEntries handles true n ls).map fun (entries, ls) => (.mapping {} entries, ls) := by
  simp only [read, readProperties, peek, hl, bind, Except.bind, List.tail_cons]
  cases readFlowEntries handles true n ls <;> rfl

theorem readFlowItems_end {first : Bool} (hl : l.token = .flowSequenceEnd) :
    readFlowItems handles first (n + 1) (l :: ls) = .ok ([], ls) := by
  simp [readFlowItems, peek, hl]

theorem readFlowEntries_end {first : Bool} (hl : l.token = .flowMappingEnd) :
    readFlowEntries handles first (n + 1) (l :: ls) = .ok ([], ls) := by
  simp [readFlowEntries, peek, hl]

theorem read_flowSequence {l' : Lexeme} (hl : l.token = .flowSequenceStart)
    (hl' : l'.token = .flowSequenceEnd) :
    read handles block indentless (n + 2) (l :: l' :: ls) = .ok (.sequence {} [], ls) := by
  rw [read_flowItems hl, readFlowItems_end hl']
  rfl

theorem read_flowMapping {l' : Lexeme} (hl : l.token = .flowMappingStart)
    (hl' : l'.token = .flowMappingEnd) :
    read handles block indentless (n + 2) (l :: l' :: ls) = .ok (.mapping {} [], ls) := by
  rw [read_flowEntries hl, readFlowEntries_end hl']
  rfl

/-- Where a key has its items at its own column, they are a sequence without a start. -/
theorem read_indentless (hl : peek ls = .blockEntry) :
    read handles block true (n + 1) ls
      = (readIndentlessItems handles n ls).map fun (items, ls) => (.sequence {} items, ls) := by
  simp only [read, readProperties, hl, bind, Except.bind, Bool.true_and, beq_self_eq_true, if_true]
  cases readIndentlessItems handles n ls <;> rfl

theorem read_blockMapping (hl : l.token = .blockMappingStart) :
    read handles true indentless (n + 1) (l :: ls)
      = (readBlockEntries handles n ls).map fun (entries, ls) => (.mapping {} entries, ls) := by
  simp [read, readProperties, peek, hl, bind, Except.bind]
  cases readBlockEntries handles n ls <;> rfl

theorem readBlockEntries_end (hl : l.token = .blockEnd) :
    readBlockEntries handles (n + 1) (l :: ls) = .ok ([], ls) := by
  simp [readBlockEntries, peek, hl]

/-! ## Items and entries of flow collections -/

section

variable {first : Bool} {ls' : List Lexeme}

/-- A token that the nodes of flow collections start with. -/
def startsFlowNode : Token → Bool
  | .scalar _ _ | .flowSequenceStart | .flowMappingStart => true
  | _ => false

/-- In front of all items and entries but the `first` there is a comma. -/
def Separated (first : Bool) (ls ls' : List Lexeme) : Prop :=
  if first then ls = ls' else ∃ comma : Lexeme, comma.token = .flowEntry ∧ ls = comma :: ls'

/-- A comma in front of an item is passed over. -/
theorem readFlowItems_separated (h : Separated first ls ls') (hend : peek ls' ≠ .flowSequenceEnd) :
    readFlowItems handles first (n + 1) ls = readFlowItems handles true (n + 1) ls' := by
  cases first with
  | true =>
    obtain rfl : ls = ls' := h
    rfl
  | false =>
    obtain ⟨comma, hcomma, rfl⟩ := h
    have hpeek : peek (comma :: ls') = .flowEntry := hcomma
    rw [readFlowItems, readFlowItems, hpeek, beq_eq_false_iff_ne.2 hend]
    rfl

theorem readFlowEntries_separated (h : Separated first ls ls') (hend : peek ls' ≠ .flowMappingEnd) :
    readFlowEntries handles first (n + 1) ls = readFlowEntries handles true (n + 1) ls' := by
  cases first with
  | true =>
    obtain rfl : ls = ls' := h
    rfl
  | false =>
    obtain ⟨comma, hcomma, rfl⟩ := h
    have hpeek : peek (comma :: ls') = .flowEntry := hcomma
    rw [readFlowEntries, readFlowEntries, hpeek, beq_eq_false_iff_ne.2 hend]
    rfl

/-- An item is read, and then the items behind it. -/
theorem readFlowItems_item {item : Node String} (h : Separated first ls ls')
    (hstart : startsFlowNode (peek ls') = true)
    (hread : read handles false false n ls' = .ok (item, rest)) :
    readFlowItems handles first (n + 1) ls
      = (readFlowItems handles false n rest).map fun (items, ls) => (item :: items, ls) := by
  have hend : peek ls' ≠ .flowSequenceEnd := fun hpeek => by rw [hpeek] at hstart; cases hstart
  rw [readFlowItems_separated h hend, readFlowItems, beq_eq_false_iff_ne.2 hend]
  simp only [Bool.not_true, Bool.false_and, Bool.false_eq_true, if_false, if_true]
  split
  iterate 2
    rename_i hpeek
    rw [hpeek] at hstart
    cases hstart
  rw [hread]
  dsimp only [bind, Except.bind]
  cases readFlowItems handles false n rest <;> rfl

/-- An entry with a key and a value. -/
theorem readFlowEntries_entry {l l' : Lexeme} {ks vs : List Lexeme} {key value : Node String}
    (h : Separated first ls (l :: ks)) (hl : l.token = .key)
    (hkey : startsFlowNode (peek ks) = true)
    (hread : read handles false false n ks = .ok (key, l' :: vs)) (hl' : l'.token = .value)
    (hvalue : startsFlowNode (peek vs) = true)
    (hread' : read handles false false n vs = .ok (value, rest)) :
    readFlowEntries handles first (n + 1) ls
      = (readFlowEntries handles false n rest).map fun (entries, ls) =>
          ((key, value) :: entries, ls) := by
  have hpeek : peek (l :: ks) = .key := hl
  have hpeek' : peek (l' :: vs) = .value := hl'
  have hend : peek (l :: ks) ≠ .flowMappingEnd := by rw [hpeek]; exact nofun
  rw [readFlowEntries_separated h hend, readFlowEntries, beq_eq_false_iff_ne.2 hend]
  simp only [Bool.not_true, Bool.false_and, Bool.false_eq_true, if_false, if_true]
  rw [hpeek]
  dsimp only [List.tail_cons]
  split
  iterate 3
    rename_i h
    rw [h] at hkey
    cases hkey
  rw [hread]
  dsimp only [bind, Except.bind]
  rw [hpeek']
  dsimp only [List.tail_cons]
  split
  iterate 2
    rename_i h
    rw [h] at hvalue
    cases hvalue
  rw [hread']
  dsimp only
  cases readFlowEntries handles false n rest <;> rfl

theorem separated_of_tokens {xs : List Lexeme}
    (hxs : xs.map (·.token) = if first then [] else [.flowEntry]) :
    Separated first (xs ++ rest) rest := by
  cases first with
  | true =>
    obtain rfl := List.map_eq_nil_iff.1 hxs
    rfl
  | false =>
    obtain ⟨comma, _, rfl, hcomma, htail⟩ := List.map_eq_cons_iff.1 hxs
    obtain rfl := List.map_eq_nil_iff.1 htail
    exact ⟨comma, hcomma, rfl⟩

end

/-! ## Values -/

/-- A token that no value starts with. -/
def startsNoValue (token : Token) : Bool :=
  token == .key || token == .value || token == .blockEnd

/-- The tokens are read as a value of a block mapping. -/
structure Reads (ts : List Token) (node : Node String) : Prop where
  starts : ∃ t ts', ts = t :: ts' ∧ startsNoValue t = false
  reads : ∀ {handles : Handles} {n : Nat} {xs rest : List Lexeme}, xs.map (·.token) = ts →
    ts.length < n → peek rest ≠ .blockEntry → read handles true true n (xs ++ rest) = .ok (node, rest)

theorem reads_scalar (style : ScalarStyle) (text : String) :
    Reads [.scalar style text] (.scalar {} style text) where
  starts := ⟨_, _, rfl, rfl⟩
  reads := by
    intro handles n xs rest hxs hn _
    obtain ⟨x, _, rfl, hx, htail⟩ := List.map_eq_cons_iff.1 hxs
    obtain rfl := List.map_eq_nil_iff.1 htail
    obtain ⟨n, rfl⟩ : ∃ k, n = k + 1 := ⟨n - 1, by omega⟩
    exact read_scalar hx

theorem reads_flowSequence : Reads [.flowSequenceStart, .flowSequenceEnd] (.sequence {} []) where
  starts := ⟨_, _, rfl, rfl⟩
  reads := by
    intro handles n xs rest hxs hn _
    obtain ⟨x, _, rfl, hx, htail⟩ := List.map_eq_cons_iff.1 hxs
    obtain ⟨y, _, rfl, hy, htail⟩ := List.map_eq_cons_iff.1 htail
    obtain rfl := List.map_eq_nil_iff.1 htail
    obtain ⟨n, rfl⟩ : ∃ k, n = k + 2 := ⟨n - 2, by simp at hn; omega⟩
    exact read_flowSequence hx hy

theorem reads_flowMapping : Reads [.flowMappingStart, .flowMappingEnd] (.mapping {} []) where
  starts := ⟨_, _, rfl, rfl⟩
  reads := by
    intro handles n xs rest hxs hn _
    obtain ⟨x, _, rfl, hx, htail⟩ := List.map_eq_cons_iff.1 hxs
    obtain ⟨y, _, rfl, hy, htail⟩ := List.map_eq_cons_iff.1 htail
    obtain rfl := List.map_eq_nil_iff.1 htail
    obtain ⟨n, rfl⟩ : ∃ k, n = k + 2 := ⟨n - 2, by simp at hn; omega⟩
    exact read_flowMapping hx hy

/-! ## Items -/

/-- An item that is not empty. -/
theorem readIndentlessItems_item (hl : l.token = .blockEntry) (hstart : peek ls ≠ .blockEntry ∧
    startsNoValue (peek ls) = false) :
    readIndentlessItems handles (n + 1) (l :: ls) =
      read handles true false n ls >>= fun (item, ls) =>
        (readIndentlessItems handles n ls).map fun (items, ls) => (item :: items, ls) := by
  have hmap : ∀ (x : Node String × List Lexeme),
      (do
        let (items, ls) ← readIndentlessItems handles n x.2
        Except.ok (x.1 :: items, ls))
      = (readIndentlessItems handles n x.2).map fun (items, ls) => (x.1 :: items, ls) := by
    intro x
    cases readIndentlessItems handles n x.2 <;> rfl
  have hpeek : peek (l :: ls) = .blockEntry := hl
  rw [readIndentlessItems, hpeek]
  dsimp only [List.tail_cons]
  split
  · rename_i h
    exact absurd h hstart.1
  · rename_i h
    rw [h] at hstart
    cases hstart.2
  · rename_i h
    rw [h] at hstart
    cases hstart.2
  · rename_i h
    rw [h] at hstart
    cases hstart.2
  · exact congrArg _ (funext hmap)

theorem readIndentlessItems_end (hrest : peek ls ≠ .blockEntry) :
    readIndentlessItems handles (n + 1) ls = .ok ([], ls) := by
  rw [readIndentlessItems]
  split
  · rename_i hpeek
    exact absurd hpeek hrest
  · rfl

/-- The items of a sequence of texts, and what follows it. -/
theorem readIndentlessItems_texts {style : ScalarStyle} (hrest : peek rest ≠ .blockEntry) :
    ∀ {texts : List String} {n : Nat} {xs : List Lexeme}, texts.length < n →
      xs.map (·.token) = texts.flatMap (fun text => [.blockEntry, .scalar style text]) →
      readIndentlessItems handles n (xs ++ rest)
        = .ok (texts.map fun text => .scalar {} style text, rest)
  | [], n + 1, xs, _, hxs => by
    obtain rfl := List.map_eq_nil_iff.1 hxs
    exact readIndentlessItems_end hrest
  | text :: texts, n + 1, xs, hn, hxs => by
    rw [List.flatMap_cons, List.cons_append, List.singleton_append] at hxs
    obtain ⟨x, _, rfl, hx, htail⟩ := List.map_eq_cons_iff.1 hxs
    obtain ⟨y, tail, rfl, hy, htail⟩ := List.map_eq_cons_iff.1 htail
    have hn : texts.length < n := Nat.lt_of_succ_lt_succ hn
    obtain ⟨n, rfl⟩ : ∃ k, n = k + 1 := ⟨n - 1, by omega⟩
    have hitem : read handles true false (n + 1) (y :: (tail ++ rest))
        = .ok (.scalar {} style text, tail ++ rest) := read_scalar hy
    have hpeek : peek (y :: (tail ++ rest)) = .scalar style text := hy
    have hstart : peek (y :: (tail ++ rest)) ≠ .blockEntry ∧
        startsNoValue (peek (y :: (tail ++ rest))) = false := by
      rw [hpeek]
      exact ⟨nofun, rfl⟩
    rw [List.cons_append, List.cons_append, readIndentlessItems_item hx hstart, hitem]
    change (readIndentlessItems handles (n + 1) (tail ++ rest)).map _ = _
    rw [readIndentlessItems_texts hrest hn htail]
    rfl

theorem length_items (style : ScalarStyle) (texts : List String) :
    (texts.flatMap fun text => [Token.blockEntry, .scalar style text]).length
      = 2 * texts.length := by
  induction texts with
  | nil => rfl
  | cons text texts ih =>
    rw [List.flatMap_cons, List.length_append, ih]
    simp only [List.length_cons, List.length_nil]
    omega

/-- A sequence of texts, at least one. -/
theorem reads_texts {style : ScalarStyle} {texts : List String} (htexts : texts ≠ []) :
    Reads (texts.flatMap fun text => [.blockEntry, .scalar style text])
      (.sequence {} (texts.map fun text => .scalar {} style text)) where
  starts := by
    obtain ⟨text, texts, rfl⟩ := List.exists_cons_of_ne_nil htexts
    exact ⟨_, _, rfl, rfl⟩
  reads := by
    intro handles n xs rest hxs hn hrest
    have hlength := List.length_pos_iff.2 htexts
    rw [length_items] at hn
    obtain ⟨n, rfl⟩ : ∃ k, n = k + 1 := ⟨n - 1, by omega⟩
    have hpeek : peek (xs ++ rest) = .blockEntry := by
      obtain ⟨text, texts, rfl⟩ := List.exists_cons_of_ne_nil htexts
      obtain ⟨x, _, rfl, hx, -⟩ := List.map_eq_cons_iff.1 hxs
      exact hx
    rw [read_indentless hpeek, readIndentlessItems_texts hrest (by omega) hxs]
    rfl

/-! ## Entries -/

/-- An entry with a key and a value, neither of them empty. -/
theorem readBlockEntries_key {l' : Lexeme} {ls' : List Lexeme} {k v : Node String}
    (hl : l.token = .key) (hkey : startsNoValue (peek ls) = false)
    (hread : read handles true true n ls = .ok (k, l' :: ls')) (hl' : l'.token = .value)
    (hvalue : startsNoValue (peek ls') = false)
    (hread' : read handles true true n ls' = .ok (v, rest)) :
    readBlockEntries handles (n + 1) (l :: ls)
      = (readBlockEntries handles n rest).map fun (es, ls) => ((k, v) :: es, ls) := by
  have hpeek : peek (l :: ls) = .key := hl
  have hpeek' : peek (l' :: ls') = .value := hl'
  rw [readBlockEntries, hpeek]
  dsimp only [List.tail_cons]
  split
  iterate 3
    rename_i h
    rw [h] at hkey
    cases hkey
  rw [hread]
  dsimp only [bind, Except.bind]
  rw [hpeek']
  dsimp only [List.tail_cons]
  split
  iterate 3
    rename_i h
    rw [h] at hvalue
    cases hvalue
  rw [hread']
  dsimp only
  cases readBlockEntries handles n rest <;> rfl

theorem readBlockEntries_entry {kt vt : List Token} {k v : Node String} (hk : Reads kt k)
    (hv : Reads vt v) {xs : List Lexeme} (hxs : xs.map (·.token) = .key :: kt ++ .value :: vt)
    (hkn : kt.length < n) (hvn : vt.length < n) (hrest : peek rest ≠ .blockEntry) :
    readBlockEntries handles (n + 1) (xs ++ rest)
      = (readBlockEntries handles n rest).map fun (es, ls) => ((k, v) :: es, ls) := by
  obtain ⟨x, _, rfl, hx, htail⟩ := List.map_eq_cons_iff.1 hxs
  obtain ⟨xk, _, rfl, hxk, htail⟩ := List.map_eq_append_iff.1 htail
  obtain ⟨y, xv, rfl, hy, hxv⟩ := List.map_eq_cons_iff.1 htail
  have hstart : ∀ {ts : List Token} {node : Node String} {zs zs' : List Lexeme}, Reads ts node →
      zs.map (·.token) = ts → startsNoValue (peek (zs ++ zs')) = false := by
    intro ts node zs zs' hts hzs
    obtain ⟨t, ts', rfl, ht⟩ := hts.starts
    obtain ⟨z, zs, rfl, hz, -⟩ := List.map_eq_cons_iff.1 hzs
    have hpeek : peek (z :: zs ++ zs') = t := hz
    rw [hpeek, ht]
  have hpeek : peek (y :: (xv ++ rest)) = .value := hy
  rw [List.cons_append, List.append_assoc, List.cons_append]
  exact readBlockEntries_key hx (hstart hk hxk)
    (hk.reads hxk hkn (by rw [hpeek]; exact nofun)) hy (hstart hv hxv) (hv.reads hxv hvn hrest)

/-- The tokens are read as entries of a block mapping, behind which others may follow. -/
structure ReadsEntries (ts : List Token) (es : List (Node String × Node String)) : Prop where
  starts : ∀ t ∈ ts.head?, t = .key
  length_le : es.length ≤ ts.length
  reads : ∀ {handles : Handles} {n : Nat} {xs rest : List Lexeme}, xs.map (·.token) = ts →
    ts.length < n → peek rest = .key ∨ peek rest = .blockEnd →
    readBlockEntries handles n (xs ++ rest)
      = (readBlockEntries handles (n - es.length) rest).map fun (es', ls) => (es ++ es', ls)

theorem readsEntries_nil : ReadsEntries [] [] where
  starts := fun _ ht => (nomatch ht)
  length_le := Nat.le_refl _
  reads := by
    intro handles n xs rest hxs _ _
    obtain rfl := List.map_eq_nil_iff.1 hxs
    rw [List.nil_append, List.length_nil, Nat.sub_zero]
    cases readBlockEntries handles n rest <;> rfl

/-- The tokens of a key and of a value make one entry. -/
theorem readsEntries_entry {kt vt : List Token} {k v : Node String} (hk : Reads kt k)
    (hv : Reads vt v) : ReadsEntries (.key :: kt ++ .value :: vt) [(k, v)] where
  starts := fun _ ht => (Option.some.inj ht).symm
  length_le := Nat.succ_le_succ (Nat.zero_le _)
  reads := by
    intro handles n xs rest hxs hn hrest
    have hne : peek rest ≠ .blockEntry := by
      rcases hrest with h | h <;> rw [h] <;> exact nofun
    simp only [List.length_append, List.length_cons] at hn
    obtain ⟨n, rfl⟩ : ∃ k, n = k + 1 := ⟨n - 1, by omega⟩
    exact readBlockEntries_entry hk hv hxs (by omega) (by omega) hne

/-- **Entries behind entries** are read one list after the other. -/
theorem ReadsEntries.append {ts ts' : List Token} {es es' : List (Node String × Node String)}
    (h : ReadsEntries ts es) (h' : ReadsEntries ts' es') :
    ReadsEntries (ts ++ ts') (es ++ es') where
  starts := by
    intro t ht
    cases ts with
    | nil => exact h'.starts t ht
    | cons u ts => exact h.starts t ht
  length_le := by
    rw [List.length_append, List.length_append]
    exact Nat.add_le_add h.length_le h'.length_le
  reads := by
    intro handles n xs rest hxs hn hrest
    obtain ⟨xs, xs', rfl, hxs, hxs'⟩ := List.map_eq_append_iff.1 hxs
    rw [List.length_append] at hn
    have hle := h.length_le
    have hnext : peek (xs' ++ rest) = .key ∨ peek (xs' ++ rest) = .blockEnd := by
      cases xs' with
      | nil => exact hrest
      | cons x xs' => exact .inl (h'.starts x.token (by rw [← hxs']; rfl))
    rw [List.append_assoc, h.reads hxs (by omega) hnext, h'.reads hxs' (by omega) hrest,
      Nat.sub_sub, List.length_append]
    cases readBlockEntries handles (n - (es.length + es'.length)) rest with
    | error e => rfl
    | ok r => exact congrArg Except.ok (Prod.ext (List.append_assoc es es' r.1).symm rfl)

theorem readsEntries_flatMap {α : Type} {tokensOf : α → List Token}
    {entryOf : α → Node String × Node String} :
    ∀ {l : List α}, (∀ a ∈ l, ReadsEntries (tokensOf a) [entryOf a]) →
      ReadsEntries (l.flatMap tokensOf) (l.map entryOf)
  | [], _ => readsEntries_nil
  | a :: _, h => (h a List.mem_cons_self).append
      (readsEntries_flatMap fun b hb => h b (List.mem_cons_of_mem _ hb))

theorem read_blockMapping_entries {ts : List Token} {es : List (Node String × Node String)}
    (h : ReadsEntries ts es) {xs : List Lexeme}
    (hxs : xs.map (·.token) = .blockMappingStart :: ts ++ [.blockEnd]) (hn : ts.length + 2 < n) :
    read handles true indentless n (xs ++ rest) = .ok (.mapping {} es, rest) := by
  obtain ⟨x, _, rfl, hx, htail⟩ := List.map_eq_cons_iff.1 hxs
  obtain ⟨zs, _, rfl, hzs, htail⟩ := List.map_eq_append_iff.1 htail
  obtain ⟨y, _, rfl, hy, htail⟩ := List.map_eq_cons_iff.1 htail
  obtain rfl := List.map_eq_nil_iff.1 htail
  have hle := h.length_le
  obtain ⟨k, rfl⟩ : ∃ k, n = k + es.length + 2 := ⟨n - (es.length + 2), by omega⟩
  have hend : peek (y :: rest) = .blockEnd := hy
  have hfuel : k + es.length + 1 - es.length = k + 1 := by omega
  rw [List.cons_append, List.append_assoc, List.singleton_append, read_blockMapping hx,
    h.reads hzs (by omega) (.inr hend), hfuel, readBlockEntries_end hy]
  change Except.ok (mapping {} (es ++ []), rest) = _
  rw [List.append_nil]

theorem reads_blockMapping {ts : List Token} {es : List (Node String × Node String)}
    (h : ReadsEntries ts es) : Reads (.blockMappingStart :: ts ++ [.blockEnd]) (.mapping {} es) where
  starts := ⟨_, _, rfl, rfl⟩
  reads := by
    intro handles n xs rest hxs hn _
    simp only [List.length_append, List.length_cons, List.length_nil] at hn
    exact read_blockMapping_entries h hxs (by omega)

/-! ## The whole stream -/

/-- **The document of a stream** that is one block mapping. -/
theorem ofTokens_blockMapping {ts : List Token} {es : List (Node String × Node String)}
    (h : ReadsEntries ts es)
    (hls : ls.map (·.token) = .blockMappingStart :: ts ++ [.blockEnd, .streamEnd]) :
    ofTokens ls = .ok (.mapping {} es) := by
  have hsplit : ls.map (·.token) = (.blockMappingStart :: ts ++ [.blockEnd]) ++ [.streamEnd] := by
    rw [hls, List.append_assoc]
    rfl
  have hlength : ls.length = ts.length + 3 := by
    rw [← List.length_map (fun l : Lexeme => l.token), hls]
    simp
  obtain ⟨xs, _, rfl, hxs, htail⟩ := List.map_eq_append_iff.1 hsplit
  obtain ⟨z, _, rfl, hz, htail⟩ := List.map_eq_cons_iff.1 htail
  obtain rfl := List.map_eq_nil_iff.1 htail
  have hpeek : peek (xs ++ [z]) = .blockMappingStart := by
    obtain ⟨x, _, rfl, hx, -⟩ := List.map_eq_cons_iff.1 hxs
    exact hx
  have hend : atStreamEnd [z] = true := by rw [atStreamEnd, hz]
  rw [ofTokens, hpeek]
  dsimp only
  rw [read_blockMapping_entries h hxs (by omega)]
  dsimp only [bind, Except.bind]
  rw [if_pos hend]

end JobMatrix.Yaml.Node
