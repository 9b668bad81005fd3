import JobMatrix.Proofs.Yaml.Excerpt.Run

/-!
# The end of an excerpt

Where a text ends, a scanner of the text closes all blocks, and a scanner inside a stream goes on.
If the tokens of the text end with the end of a block, then no flow collection is open there, and
the scanner inside the stream stands at the start of a line among the entries of its block mapping.
-/

set_option autoImplicit false

namespace JobMatrix.Yaml.Scanner

variable {e : Excerpt} {below : List Token} {n : Nat} {s s' t : Scanner} {toks : List Token}

/-! ## The end of the text -/

theorem dropStaleKeys_block (houter : s.outerKeys = []) (h : s.dropStaleKeys = .ok s') :
    s' = { s with key := s'.key } ∧
      ∀ k, s.key = some k → s'.key = some k ∨ k.required = false := by
  rw [dropStaleKeys] at h
  split at h
  · cases h
  · rename_i hfresh
    cases h
    refine ⟨?_, fun k hk => ?_⟩
    · rw [houter]
      cases s
      cases houter
      rfl
    · rw [hk, houter, List.any_cons, Option.any_some, List.any_nil, Bool.or_false,
        Bool.and_eq_true, not_and] at hfresh
      dsimp only
      rw [hk]
      split
      · rename_i hstale
        exact .inr (Bool.eq_false_iff.2 fun hrequired => hfresh hrequired hstale)
      · exact .inl rfl

/-- At the end of the text the blocks inside the mapping are closed, and then the mapping. -/
theorem EndsWith.tokens_eq {inner : List Nat} (h : EndsWith s t) (hcolumn : s.cursor.column = 0)
    (houter : s.outerKeys = []) (hinner : ∀ i ∈ inner, 0 < i)
    (hlevels : (s.indent, s.indents) = levels (inner ++ [0])) :
    t.tokens = s.tokens ++ List.replicate inner.length .blockEnd ++ [.blockEnd, .streamEnd] ∧
      ∀ k, s.key = some k → k.required = false := by
  obtain ⟨-, u, hu, hend⟩ := h
  obtain ⟨hueq, hukey⟩ := dropStaleKeys_block houter hu
  have hucolumn : u.cursor.column = 0 := by rw [hueq, hcolumn]
  have hulevels : (u.indent, u.indents) = levels (inner ++ [0]) := by rw [hueq, hlevels]
  have hclose := closeBlocks_eq ((0 : Nat) : Int) (by rw [hueq, houter]) hulevels
    (fun i hi => Int.ofNat_lt.2 (hinner i hi)) (fun o ho => by cases ho; exact Int.le_refl _)
  rw [hucolumn, hclose] at hend
  obtain ⟨v, hv, hend⟩ := bind_eq_ok_iff.1 hend
  have hcloseAll := closeBlocks_eq (-1)
    (s := { u with
      indent := (levels [0]).1
      indents := (levels [0]).2
      lexemes := List.replicate inner.length ⟨.blockEnd, u.cursor.line, u.cursor.column⟩ ++ u.lexemes
      count := u.count + inner.length })
    (by rw [hueq, houter]) (show _ = levels ([0] ++ []) from rfl)
    (fun i hi => by rw [List.mem_singleton.1 hi]; decide) (fun o ho => by cases ho)
  rw [hcloseAll] at hv
  refine ⟨?_, fun k hk => ?_⟩
  · cases hend
    rw [dropKey_eq hv, hueq]
    simp [tokens, push]
  · refine (hukey k hk).elim (fun hkept => ?_) id
    rw [dropKey, hkept] at hv
    dsimp only at hv
    split at hv
    · cases hv
    · exact Bool.eq_false_iff.2 ‹_›

/-- No flow collection is open in front of the end of a block. -/
theorem EndsWith.outerKeys_eq (h : EndsWith s t) (hs : s.InEntries)
    (htokens : t.tokens = toks ++ [.blockEnd, .streamEnd]) : s.outerKeys = [] := by
  by_contra houter
  obtain ⟨-, u, hu, hend⟩ := h
  have hstays : u.outerKeys ≠ [] ∧ u.lexemes = s.lexemes := by
    rw [dropStaleKeys] at hu
    split at hu
    · cases hu
    · cases hu
      exact ⟨fun hnil => houter (List.map_eq_nil_iff.1 hnil), rfl⟩
  obtain ⟨v, hv, hend⟩ := bind_eq_ok_iff.1 hend
  rw [closeBlocks_flow hstays.1, closeBlocks_flow hstays.1] at hv
  cases hend
  rw [dropKey_eq hv] at htokens
  have hlast : s.tokens ++ [.streamEnd] = (toks ++ [.blockEnd]) ++ [.streamEnd] := by
    rw [List.append_assoc]
    rw [tokens, ← hstays.2, ← List.reverse_cons]
    exact htokens
  have hreverse := congrArg List.reverse (List.append_cancel_right hlast)
  rw [tokens, List.reverse_reverse, List.reverse_append, List.reverse_singleton] at hreverse
  cases hlexemes : s.lexemes with
  | nil =>
    rw [hlexemes] at hreverse
    cases hreverse
  | cons l ls =>
    rw [hlexemes] at hreverse
    refine hs.flow ?_ l (by rw [hlexemes]; rfl) (List.cons.inj hreverse).1
    rw [inFlow, List.isEmpty_eq_false_iff.2 houter]
    rfl

/-- Closing blocks adds ends of blocks only. -/
theorem mem_closeBlocks {column : Int} {l : Lexeme} (hl : l ∈ (s.closeBlocks column).lexemes) :
    l.token = .blockEnd ∨ l ∈ s.lexemes := by
  cases houter : s.outerKeys with
  | cons key outer =>
    rw [closeBlocks_flow (by rw [houter]; exact List.cons_ne_nil _ _)] at hl
    exact .inr hl
  | nil =>
    rw [closeBlocks_block column houter] at hl
    rcases List.mem_append.1 hl with hl | hl
    · exact .inl (by rw [List.eq_of_mem_replicate hl])
    · exact .inr hl

/-- The stream ends once, at its end. -/
theorem EndsWith.lexemes_eq (h : EndsWith s t) (hs : s.InEntries) :
    ∃ z ls, t.lexemes = z :: ls ∧ z.token = .streamEnd ∧
      ∀ l ∈ ls, l.token ≠ .streamEnd ∧ l.token ≠ .documentEnd := by
  obtain ⟨-, u, hu, hend⟩ := h
  obtain ⟨v, hv, hend⟩ := bind_eq_ok_iff.1 hend
  cases hend
  refine ⟨_, v.lexemes, rfl, rfl, fun l hl => ?_⟩
  rw [dropKey_eq hv] at hl
  have hblock : l.token = .blockEnd ∨ l ∈ s.lexemes := by
    have hmem := (mem_closeBlocks hl).elim .inl fun hl => mem_closeBlocks hl
    rwa [dropStaleKeys_eq hu] at hmem
  by_cases hne : l.token = .blockEnd
  · rw [hne]
    exact ⟨by simp, by simp⟩
  · have hinner := hs.inner l (hblock.resolve_left hne) hne
    constructor <;>
    · intro htoken
      rw [htoken] at hinner
      cases hinner

/-! ## Behind the text -/

namespace Inside

theorem tokens_eq (h : Inside e below n s s') :
    ∃ ts, s.tokens = .blockMappingStart :: ts ∧ s'.tokens = below.reverse ++ ts := by
  obtain ⟨ts, hs, hs'⟩ := h.lexemes
  refine ⟨ts.reverse, ?_, ?_⟩
  · rw [Scanner.tokens, hs, List.reverse_append]
    rfl
  · rw [Scanner.tokens, hs', List.reverse_append]

/-- Where a comment follows the text, the scanner inside the stream comes behind its line. -/
theorem exists_atLine {cs rest : List Char} (h : Inside e below n s s') (hend : EndsWith s t)
    (htokens : t.tokens = .blockMappingStart :: toks ++ [.blockEnd, .streamEnd])
    (hafter : e.after = '#' :: cs ++ '\n' :: rest) (hcs : ∀ x ∈ cs, isBreak x = false) :
    ∃ (inner : List Nat) (toks' : List Token) (u : Scanner), Leads s' u ∧
      u.AtLine (inner ++ [0]) toks' rest ∧ (∀ i ∈ inner, 0 < i) ∧
      below.reverse ++ toks = toks' ++ List.replicate inner.length .blockEnd := by
  obtain ⟨inner, hinner, hlevels⟩ := h.entries.levels_eq
  have houter := hend.outerKeys_eq h.entries htokens
  have hcolumn := h.cursor.ends hend.1
  obtain ⟨htokens', hkey⟩ := hend.tokens_eq hcolumn houter hinner hlevels
  have hrest : s'.cursor.rest = '#' :: cs ++ '\n' :: rest := by
    rw [h.cursor.rest, hend.1, hafter, List.nil_append]
  have houter' : s'.outerKeys = [] := by rw [h.outerKeys, houter]; rfl
  have hunfinished : s'.finished = false := by rw [h.finished, h.entries.unfinished]
  have hroom := h.cursor.room'
  have hlength : rest.length ≤ s'.cursor.rest.length := by
    rw [hrest, List.length_append, List.length_cons, List.length_cons]
    omega
  have htrimmed : s'.trimmed = s'.cursor.advance ('#' :: cs).length := trimmed_comment hcs hrest
  obtain ⟨hbroken, hnext⟩ := broken_eq houter' htrimmed hrest
  refine ⟨inner, s'.tokens, s'.broken, leads_of_next hunfinished ?_ hnext hroom ?_ ?_ ?_, ?_,
    hinner, ?_⟩
  · rw [hbroken]; exact hunfinished
  · rw [hbroken]; exact Nat.le_trans hlength hroom
  · rw [hbroken]; exact hlength
  · rw [hbroken]; exact id
  · rw [hbroken]
    exact
      { unfinished := hunfinished
        rest_eq := rfl
        column := rfl
        room := Nat.le_trans hlength hroom
        levels_eq := by rw [← hlevels, ← h.indent, ← h.indents]
        key := fun k hk => by
          change s'.key = some k at hk
          rw [h.key] at hk
          obtain ⟨j, hj, rfl⟩ := Option.map_eq_some_iff.1 hk
          refine ⟨hkey j hj, ?_⟩
          change j.line + e.lines < s'.cursor.line + 1
          have hline := (h.entries.keys j (by rw [← hj]; exact List.mem_cons_self)).2
          rw [h.cursor.line]
          omega
        outer := houter'
        keyAllowed := rfl
        tokens_eq := rfl }
  · obtain ⟨ts, hs, hs'⟩ := h.tokens_eq
    rw [htokens', List.append_cancel_right_eq, hs, List.cons_append] at htokens
    rw [hs', ← (List.cons.inj htokens).2, List.append_assoc]

theorem closeBlocks_all (h : Inside e below n s s') :
    (s'.closeBlocks (-1)).key = (s.closeBlocks (-1)).key.map (·.shift e n) ∧
      ∃ ts, (s.closeBlocks (-1)).lexemes.map (·.token) = ts ++ [.blockMappingStart] ∧
        (s'.closeBlocks (-1)).lexemes.map (·.token) = ts ++ below := by
  cases houter : s.outerKeys with
  | cons key outer =>
    have houter' : s'.outerKeys ≠ [] := by
      rw [h.outerKeys, houter]
      exact List.cons_ne_nil _ _
    rw [closeBlocks_flow houter', closeBlocks_flow (by rw [houter]; exact List.cons_ne_nil _ _)]
    exact ⟨h.key, h.lexemes⟩
  | nil =>
    have houter' : s'.outerKeys = [] := by rw [h.outerKeys, houter]; rfl
    rw [closeBlocks_block _ houter, closeBlocks_block _ houter', h.indent, h.indents]
    obtain ⟨ts, hs, hs'⟩ := h.lexemes
    refine ⟨h.key, List.replicate (closeLoop (-1) s.indents s.indent 0).1 .blockEnd ++ ts, ?_, ?_⟩
    · simp only [List.map_append, List.map_replicate, hs, List.append_assoc]
    · simp only [List.map_append, List.map_replicate, hs', List.append_assoc]

theorem scanEnd (h : Inside e below n s s') :
    Agrees (fun t t' => t'.finished = true ∧ ∃ ts, t.tokens = .blockMappingStart :: ts ∧
      t'.tokens = below.reverse ++ ts) s.scanEnd s'.scanEnd := by
  obtain ⟨hkey, hlexemes⟩ := h.closeBlocks_all
  refine .bind (R := fun t t' => ∃ ts, t.lexemes.map (·.token) = ts ++ [.blockMappingStart] ∧
    t'.lexemes.map (·.token) = ts ++ below) ?_ ?_
  · rw [Scanner.dropKey, Scanner.dropKey, hkey]
    cases (s.closeBlocks (-1)).key with
    | none => exact .ok hlexemes
    | some k => exact .ite rfl (fun _ => .error) fun _ => .ok hlexemes
  · rintro t t' ⟨ts, ht, ht'⟩
    refine .ok ⟨rfl, ts.reverse ++ [.streamEnd], ?_, ?_⟩
    · change ((⟨.streamEnd, _, _⟩ :: t.lexemes : List Lexeme).map (·.token)).reverse = _
      rw [List.map_cons, ht, ← List.cons_append, List.reverse_append]
      exact congrArg (Token.blockMappingStart :: ·) List.reverse_cons
    · change ((⟨.streamEnd, _, _⟩ :: t'.lexemes : List Lexeme).map (·.token)).reverse = _
      rw [List.map_cons, ht', ← List.cons_append, List.reverse_append, List.reverse_cons]

/-- Where nothing follows the text, the scanner inside the stream comes to the end with it. -/
theorem run_end (h : Inside e below n s s') (hend : EndsWith s t)
    (htokens : t.tokens = .blockMappingStart :: toks) (hafter : e.after = []) {m : Nat}
    (hm : 2 ≤ m) :
    ∃ ls, Scanner.run m s' = .ok ls ∧ ls.map (·.token) = below.reverse ++ toks := by
  obtain ⟨m, rfl⟩ : ∃ k, m = k + 2 := ⟨m - 2, by omega⟩
  obtain ⟨hrest, u, hu, hscan⟩ := hend
  have hrest' : s'.cursor.rest = [] := by rw [h.cursor.rest, hrest, hafter, List.nil_append]
  have hnext : s'.next = s' := by
    rw [next_eq, trimmed_nil hrest', Cursor.sees_eq hrest']
    rfl
  obtain ⟨u', hu', hinside⟩ := h.dropStaleKeys u hu
  obtain ⟨t', ht', hfinished, ts, hts, hts'⟩ :=
    (hinside.closeBlocks u.cursor.column).scanEnd t hscan
  have hstep : s'.step = .ok t' := by
    have hnil : (u'.closeBlocks u.cursor.column).cursor.rest = [] := by
      rw [closeBlocks_cursor, dropStaleKeys_cursor hu', hrest']
    rw [step_eq h.cursor.room', hnext, hu']
    change (u'.closeBlocks u'.cursor.column).scanToken = _
    rw [hinside.cursor.column, Scanner.scanToken, hnil]
    exact ht'
  refine ⟨t'.lexemes.reverse, ?_, ?_⟩
  · rw [run_succ _ (by rw [h.finished, h.entries.unfinished]), hstep]
    change Scanner.run (m + 1) t' = _
    rw [Scanner.run, hfinished]
    rfl
  · rw [htokens] at hts
    rw [List.map_reverse, (List.cons.inj hts).2]
    exact hts'

end Inside

end JobMatrix.Yaml.Scanner
