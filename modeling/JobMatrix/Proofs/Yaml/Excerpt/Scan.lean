import JobMatrix.Proofs.Yaml.Excerpt.Tag
import JobMatrix.Proofs.Yaml.Token.Step

/-!
# Scanning among the entries of a block mapping

A scanner is `InEntries` behind the start of a block mapping in column zero and in front of the end
of it.  `Scanner.Inside` relates such a scanner of a text to a scanner of a stream that the text is
a part of.  The second one has read more before, so its tokens lie above others and all its numbers
are higher; the open blocks are the same.

Every edit keeps the two in this relation.
-/

set_option autoImplicit false

namespace JobMatrix.Yaml

/-- A token that neither ends a block nor stands outside of all blocks. -/
def Token.isInner : Token → Bool
  | .streamEnd | .versionDirective _ _ | .tagDirective _ _ | .documentStart | .documentEnd
  | .blockEnd => false
  | _ => true

theorem Token.ne_blockEnd_of_isInner {token : Token} (h : token.isInner = true) :
    token ≠ .blockEnd := by
  rintro rfl
  cases h

namespace Scanner

variable {s s' : Scanner} {k : ImplicitKey} {token : Token}

/-! ## Among entries -/

/-- Among the entries of a block mapping in column zero. -/
structure InEntries (s : Scanner) : Prop where
  unfinished : s.finished = false
  counted : s.Counted
  started : 0 < s.count
  levels_eq : ∃ inner : List Nat, (∀ i ∈ inner, 0 < i) ∧
    (s.indent, s.indents) = levels (inner ++ [0])
  /-- A key starts behind the first token, and on no later line. -/
  keys : ∀ k, some k ∈ s.key :: s.outerKeys → 0 < k.number ∧ k.line ≤ s.cursor.line
  /-- Inside a flow collection no block ends. -/
  flow : s.inFlow = true → ∀ l ∈ s.lexemes.head?, l.token ≠ .blockEnd
  inner : ∀ l ∈ s.lexemes, l.token ≠ .blockEnd → l.token.isInner = true

namespace InEntries

theorem move {c : Cursor} (h : InEntries s) (hc : s.cursor.line ≤ c.line) :
    InEntries { s with cursor := c } :=
  { h with keys := fun k hk => ⟨(h.keys k hk).1, Nat.le_trans (h.keys k hk).2 hc⟩ }

theorem push (h : InEntries s) (htoken : token.isInner = true) : InEntries (s.push token) :=
  { h with
    counted := stable_counted.push token h.counted
    started := Nat.succ_pos _
    flow := fun _ l hl => by
      cases hl
      exact Token.ne_blockEnd_of_isInner htoken
    inner := fun l hl => by
      rcases List.mem_cons.1 hl with rfl | hl
      · exact fun _ => htoken
      · exact h.inner l hl }

theorem insertAt (h : InEntries s) (k : ImplicitKey) (htoken : token.isInner = true) :
    InEntries (s.insertAt k token) :=
  { h with
    counted := h.counted.insertAt k token
    started := Nat.succ_pos _
    inner := fun l hl => by
      rcases List.eq_or_mem_of_mem_insertIdx hl with rfl | hl
      · exact fun _ => htoken
      · exact h.inner l hl
    flow := fun hflow l hl => by
      rw [Scanner.insertAt] at hl
      cases hi : s.count - k.number with
      | zero =>
        rw [hi] at hl
        cases hl
        exact Token.ne_blockEnd_of_isInner htoken
      | succ i =>
        rw [hi] at hl
        refine h.flow hflow l ?_
        cases hlexemes : s.lexemes with
        | nil =>
          rw [hlexemes] at hl
          cases hl
        | cons l' ls =>
          rw [hlexemes] at hl
          exact hl }

theorem forget (h : InEntries s) : InEntries { s with key := none } :=
  { h with keys := fun k hk => h.keys k (List.mem_cons_of_mem _ (by simpa using hk)) }

theorem save (h : InEntries s) (hnumber : k.number = s.count) (hline : k.line = s.cursor.line) :
    InEntries { s with key := some k } :=
  { h with
    keys := fun k' hk' => by
      rcases List.mem_cons.1 hk' with hk' | hk'
      · cases hk'
        exact ⟨hnumber ▸ h.started, Nat.le_of_eq hline⟩
      · exact h.keys k' (List.mem_cons_of_mem _ hk') }

theorem dropStaleKeys (h : InEntries s) (hdrop : s.dropStaleKeys = .ok s') : InEntries s' := by
  rw [dropStaleKeys_eq hdrop]
  refine { h with keys := fun k hk => h.keys k ?_, flow := fun hflow => h.flow ?_ }
  · change some k ∈ (s.key :: s.outerKeys).map s.freshKey at hk
    exact mem_freshKeys hk
  · rw [inFlow] at hflow ⊢
    rwa [List.isEmpty_map] at hflow

/-- An entry further right opens a block. -/
theorem opened {column : Nat} (h : InEntries s) (hlt : s.indent < column) :
    InEntries { s with indents := s.indent :: s.indents, indent := column } := by
  obtain ⟨inner, hinner, hlevels⟩ := h.levels_eq
  obtain ⟨hindent, hindents⟩ := Prod.mk.inj hlevels
  refine { h with levels_eq := ⟨column :: inner, fun i hi => ?_, ?_⟩ }
  · rcases List.mem_cons.1 hi with rfl | hi
    · rw [hindent] at hlt
      cases inner with
      | nil => exact Int.ofNat_lt.1 hlt
      | cons j inner => exact Nat.lt_trans (hinner j List.mem_cons_self) (Int.ofNat_lt.1 hlt)
    · exact hinner i hi
  · rw [List.cons_append, levels, ← hlevels]

theorem closeBlocks (h : InEntries s) (column : Nat) : InEntries (s.closeBlocks column) := by
  cases hflow : s.outerKeys with
  | cons key outer =>
    rwa [closeBlocks_flow (by rw [hflow]; exact List.cons_ne_nil _ _)]
  | nil =>
    obtain ⟨inner, hinner, hlevels⟩ := h.levels_eq
    have hsplit := List.takeWhile_append_dropWhile (p := (decide <| column < ·)) (l := inner)
    rw [← hsplit, List.append_assoc] at hlevels
    have hleft : ∀ i ∈ inner.takeWhile (column < ·), (column : Int) < i := fun i hi =>
      Int.ofNat_lt.2 (by simpa using List.mem_takeWhile_imp hi)
    have hright : ∀ o : Nat, o ∈ (inner.dropWhile (column < ·) ++ [0]).head? → (o : Int) ≤ column := by
      intro o ho
      have hhead := List.head?_dropWhile_not (decide <| column < ·) inner
      cases hdrop : inner.dropWhile (column < ·) with
      | nil =>
        rw [hdrop] at ho
        cases ho
        exact Int.natCast_nonneg column
      | cons j js =>
        rw [hdrop] at ho hhead
        cases ho
        exact Int.ofNat_le.2 (by simpa using hhead)
    rw [closeBlocks_eq column hflow hlevels hleft hright]
    refine { h with
      counted := ?_
      started := Nat.lt_of_lt_of_le h.started (Nat.le_add_right _ _)
      levels_eq := ?_
      flow := fun hin => ?_
      inner := fun l hl => ?_ }
    · change (_ ++ _ : List Lexeme).length = s.count + _
      rw [List.length_append, List.length_replicate, Nat.add_comm, h.counted]
    · exact ⟨inner.dropWhile (column < ·),
        fun i hi => hinner i ((List.dropWhile_suffix _).subset hi), rfl⟩
    · rw [inFlow] at hin
      change (!s.outerKeys.isEmpty) = true at hin
      rw [hflow] at hin
      cases hin
    · rcases List.mem_append.1 hl with hl | hl
      · rw [List.eq_of_mem_replicate hl]
        exact fun hne => absurd rfl hne
      · exact h.inner l hl

end InEntries

end Scanner

/-! ## Inside a stream -/

/-- A key of a text as it is numbered in the stream, where `n` tokens stand in the place of the
first one. -/
def ImplicitKey.shift (e : Excerpt) (n : Nat) (k : ImplicitKey) : ImplicitKey :=
  { k with number := k.number - 1 + n, index := k.index + e.chars, line := k.line + e.lines }

namespace Scanner

/-- The second scanner is in the stream where the first one is in the text.  In place of the start
of the block mapping it has the tokens `below`, latest first. -/
structure Inside (e : Excerpt) (below : List Token) (n : Nat) (s s' : Scanner) : Prop where
  cursor : Cursor.Inside e s.cursor s'.cursor
  entries : s.InEntries
  lexemes : ∃ ts, s.lexemes.map (·.token) = ts ++ [.blockMappingStart] ∧
    s'.lexemes.map (·.token) = ts ++ below
  count : s'.count = s.count - 1 + n
  indent : s'.indent = s.indent
  indents : s'.indents = s.indents
  key : s'.key = s.key.map (·.shift e n)
  outerKeys : s'.outerKeys = s.outerKeys.map (Option.map (·.shift e n))
  keyAllowed : s'.keyAllowed = s.keyAllowed
  finished : s'.finished = s.finished

namespace Inside

variable {e : Excerpt} {below : List Token} {n : Nat} {s s' : Scanner} {k : ImplicitKey}

theorem inFlow (h : Inside e below n s s') : s'.inFlow = s.inFlow := by
  rw [Scanner.inFlow, Scanner.inFlow, h.outerKeys, List.isEmpty_map]

/-- Both cursors move, and then a key may start, or not. -/
theorem move {c c' : Cursor} (h : Inside e below n s s') (hc : Cursor.Within e s.cursor c c')
    (allowed : Bool) :
    Inside e below n { s with cursor := c, keyAllowed := allowed }
      { s' with cursor := c', keyAllowed := allowed } :=
  { h with
    cursor := hc.toInside
    entries := { h.entries.move hc.behind.line with }
    keyAllowed := rfl }

/-! ## Tokens and keys -/

/-- In the text at least one token has been counted. -/
theorem count_succ (h : Inside e below n s s') : s'.count + 1 = s.count + 1 - 1 + n := by
  have hcount := h.count
  have hstarted := h.entries.started
  omega

theorem push (h : Inside e below n s s') (token : Token) (htoken : token.isInner = true) :
    Inside e below n (s.push token) (s'.push token) :=
  { h with
    entries := h.entries.push htoken
    lexemes := by
      obtain ⟨ts, hs, hs'⟩ := h.lexemes
      exact ⟨token :: ts, congrArg (token :: ·) hs, congrArg (token :: ·) hs'⟩
    count := h.count_succ }

/-- An insertion into the first part leaves the second one as it is. -/
theorem insertIdx_append {α : Type} {x : α} {ys : List α} :
    ∀ {i : Nat} {xs : List α}, i ≤ xs.length → (xs ++ ys).insertIdx i x = xs.insertIdx i x ++ ys
  | 0, xs, _ => by rw [List.insertIdx_zero, List.insertIdx_zero, List.cons_append]
  | i + 1, [], h => absurd h (Nat.not_succ_le_zero i)
  | i + 1, y :: xs, h => by
    rw [List.cons_append, List.insertIdx_succ_cons, List.insertIdx_succ_cons,
      insertIdx_append (Nat.le_of_succ_le_succ h), List.cons_append]

theorem insertAt (h : Inside e below n s s') (hkey : s.key = some k) (token : Token)
    (htoken : token.isInner = true) :
    Inside e below n (s.insertAt k token) (s'.insertAt (k.shift e n) token) :=
  { h with
    entries := h.entries.insertAt k htoken
    lexemes := by
      obtain ⟨ts, hs, hs'⟩ := h.lexemes
      have hnumber := (h.entries.keys k (by rw [← hkey]; exact List.mem_cons_self)).1
      have hstarted := h.entries.started
      have hle : s.count - k.number ≤ ts.length := by
        have hlength := congrArg List.length hs
        rw [List.length_map, h.entries.counted, List.length_append, List.length_singleton] at hlength
        omega
      have hsub : s'.count - (k.shift e n).number = s.count - k.number := by
        rw [h.count]
        change s.count - 1 + n - (k.number - 1 + n) = _
        omega
      refine ⟨ts.insertIdx (s.count - k.number) token, ?_, ?_⟩
      · rw [Scanner.insertAt, List.map_insertIdx, hs, insertIdx_append hle]
      · rw [Scanner.insertAt, List.map_insertIdx, hsub, hs', insertIdx_append hle]
    count := h.count_succ }

theorem forget (h : Inside e below n s s') :
    Inside e below n { s with key := none } { s' with key := none } :=
  { h with entries := h.entries.forget, key := rfl }

theorem dropKey (h : Inside e below n s s') :
    Agrees (fun t t' => Inside e below n t t' ∧ t.cursor = s.cursor) s.dropKey s'.dropKey := by
  rw [Scanner.dropKey, Scanner.dropKey, h.key]
  cases s.key with
  | none => exact .ok ⟨h, rfl⟩
  | some k => exact .ite rfl (fun _ => .error) fun _ => .ok ⟨h.forget, rfl⟩

theorem saveKey (h : Inside e below n s s') :
    Agrees (fun t t' => Inside e below n t t' ∧ t.cursor = s.cursor) s.saveKey s'.saveKey := by
  rw [Scanner.saveKey, Scanner.saveKey, h.keyAllowed]
  refine .ite rfl (fun _ => ?_) fun _ => .ok ⟨h, rfl⟩
  refine h.dropKey.bind ?_
  rintro t t' ⟨ht, hcursor⟩
  refine .ok ⟨{ ht with entries := ht.entries.save rfl (by rw [hcursor]), key := ?_ }, hcursor⟩
  rw [h.inFlow, h.indent, h.cursor.column, ht.count, h.cursor.index, h.cursor.line]
  rfl

/-- The distance to the cursor is the same in the text and in the stream. -/
theorem isStale (h : Inside e below n s s') (k : ImplicitKey) :
    s'.isStale (k.shift e n) = s.isStale k := by
  have hline : k.line + e.lines < s.cursor.line + e.lines ↔ k.line < s.cursor.line :=
    Nat.add_lt_add_iff_right
  have hindex : k.index + e.chars + 1024 < s.cursor.index + e.chars
      ↔ k.index + 1024 < s.cursor.index := by
    rw [Nat.add_right_comm]
    exact Nat.add_lt_add_iff_right
  rw [Scanner.isStale, Scanner.isStale, h.cursor.line, h.cursor.index]
  exact congr (congrArg or (decide_eq_decide.2 hline)) (decide_eq_decide.2 hindex)

theorem dropStaleKeys (h : Inside e below n s s') :
    Agrees (Inside e below n) s.dropStaleKeys s'.dropStaleKeys := by
  have hstale : ∀ key : Option ImplicitKey,
      (key.map (·.shift e n)).any s'.isStale = key.any s.isStale := by
    intro key
    cases key with
    | none => rfl
    | some k => exact h.isStale k
  have hrequired : ∀ key : Option ImplicitKey,
      ((key.map (·.shift e n)).any fun k => k.required && s'.isStale k)
        = key.any fun k => k.required && s.isStale k := by
    intro key
    cases key with
    | none => rfl
    | some k => exact congrArg (k.required && ·) (h.isStale k)
  have hkeep : ∀ key : Option ImplicitKey,
      (if (key.map (·.shift e n)).any s'.isStale then none else key.map (·.shift e n))
        = (if key.any s.isStale then none else key).map (·.shift e n) := by
    intro key
    rw [hstale]
    split <;> rfl
  rw [Scanner.dropStaleKeys, Scanner.dropStaleKeys, h.key, h.outerKeys]
  refine .ite ?_ (fun _ => .error) fun hfresh => .ok { h with
    entries := h.entries.dropStaleKeys (by rw [Scanner.dropStaleKeys, hfresh]; rfl)
    key := hkeep s.key
    outerKeys := ?_ }
  · rw [List.any_cons, List.any_cons, List.any_map, hrequired]
    exact congrArg (_ || ·) (congrArg s.outerKeys.any (funext hrequired))
  · rw [List.map_map, List.map_map]
    exact List.map_congr_left fun key _ => hkeep key

/-! ## Blocks -/

theorem opened (h : Inside e below n s s') {column : Nat} (hlt : s.indent < column) :
    Inside e below n { s with indents := s.indent :: s.indents, indent := column }
      { s' with indents := s'.indent :: s'.indents, indent := column } :=
  { h with
    entries := h.entries.opened hlt
    indent := rfl
    indents := by rw [h.indent, h.indents] }

theorem openBlock (h : Inside e below n s s') (column : Nat) (token : Token)
    (htoken : token.isInner = true) :
    Inside e below n (s.openBlock column none token) (s'.openBlock column none token) := by
  rw [Scanner.openBlock, Scanner.openBlock, h.inFlow]
  by_cases hopen : (!s.inFlow && s.indent < column) = true
  · have hlt : s.indent < column := by simpa using (Bool.and_eq_true_iff.1 hopen).2
    rw [if_pos hopen, if_pos (by rw [h.indent]; exact hopen)]
    exact (h.opened hlt).push token htoken
  · rw [if_neg hopen, if_neg (by rw [h.indent]; exact hopen)]
    exact h

theorem openBlock_some (h : Inside e below n s s') (hkey : s.key = some k) (column : Nat)
    (token : Token) (htoken : token.isInner = true) :
    Inside e below n (s.openBlock column (some k) token)
      (s'.openBlock column (some (k.shift e n)) token) := by
  rw [Scanner.openBlock, Scanner.openBlock, h.inFlow]
  by_cases hopen : (!s.inFlow && s.indent < column) = true
  · have hlt : s.indent < column := by simpa using (Bool.and_eq_true_iff.1 hopen).2
    rw [if_pos hopen, if_pos (by rw [h.indent]; exact hopen)]
    exact (h.opened hlt).insertAt hkey token htoken
  · rw [if_neg hopen, if_neg (by rw [h.indent]; exact hopen)]
    exact h

theorem closeBlocks (h : Inside e below n s s') (column : Nat) :
    Inside e below n (s.closeBlocks column) (s'.closeBlocks column) := by
  have hentries := h.entries.closeBlocks column
  cases hflow : s.outerKeys with
  | cons key outer =>
    have hflow' : s'.outerKeys ≠ [] := by
      rw [h.outerKeys, hflow]
      exact List.cons_ne_nil _ _
    rwa [closeBlocks_flow (by rw [hflow]; exact List.cons_ne_nil _ _), closeBlocks_flow hflow']
  | nil =>
    have hflow' : s'.outerKeys = [] := by rw [h.outerKeys, hflow]; rfl
    rw [closeBlocks_block column hflow] at hentries ⊢
    rw [closeBlocks_block column hflow', h.indent, h.indents]
    refine { h with
      entries := hentries
      indent := rfl
      indents := rfl
      lexemes := ?_
      count := ?_ }
    · obtain ⟨ts, hs, hs'⟩ := h.lexemes
      refine ⟨List.replicate (closeLoop column s.indents s.indent 0).1 .blockEnd ++ ts, ?_, ?_⟩
      · simp only [List.map_append, List.map_replicate, hs, List.append_assoc]
      · simp only [List.map_append, List.map_replicate, hs', List.append_assoc]
    · have hcount := h.count
      have hstarted := h.entries.started
      change s'.count + _ = s.count + _ - 1 + n
      omega

end Inside

end Scanner

end JobMatrix.Yaml
