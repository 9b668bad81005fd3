import JobMatrix.Proofs.Yaml.Token.Step
import Mathlib.Data.List.TakeWhile

/-!
# Scanning line by line

Between two lines a scanner is in a simple state (`Scanner.AtLine`): it stands in column zero, a
key may start, and no key is waited for.  Inside a line, behind a token, `Scanner.InLine` holds.
Both carry the columns of the open blocks and the tokens so far.

* `AtLine.blank`, `AtLine.comment` and `InLine.line` pass over what stands between two tokens.
* `AtLine.exists_start` comes to the first token of a line, closing blocks on the way.
* `AtLine.run_end` reaches the end of the stream.
-/

set_option autoImplicit false

namespace JobMatrix.Yaml.Scanner

variable {s s' : Scanner} {stack : List Nat} {toks : List Token} {rest : List Char}

/-- At the start of a line. -/
structure AtLine (s : Scanner) (stack : List Nat) (toks : List Token) (rest : List Char) :
    Prop where
  unfinished : s.finished = false
  rest_eq : s.cursor.rest = rest
  column : s.cursor.column = 0
  room : s.cursor.rest.length ≤ s.cursor.size
  levels_eq : (s.indent, s.indents) = levels stack
  key : ∀ k, s.key = some k → k.required = false ∧ k.line < s.cursor.line
  outer : s.outerKeys = []
  keyAllowed : s.keyAllowed = true
  tokens_eq : s.tokens = toks

/-- Behind a token, on the same line. -/
structure InLine (s : Scanner) (stack : List Nat) (toks : List Token) (rest : List Char) :
    Prop where
  unfinished : s.finished = false
  rest_eq : s.cursor.rest = rest
  column : s.cursor.column ≠ 0
  room : s.cursor.rest.length ≤ s.cursor.size
  levels_eq : (s.indent, s.indents) = levels stack
  open_left : ∀ o ∈ stack.head?, o ≤ s.cursor.column
  key : ∀ k, s.key = some k → k.required = false ∧ k.line ≤ s.cursor.line
  outer : s.outerKeys = []
  tokens_eq : s.tokens = toks

/-- On the first character of a token that may be a key. -/
structure AtToken (s : Scanner) (stack : List Nat) (toks : List Token) (rest : List Char)
    (column : Nat) : Prop where
  unfinished : s.finished = false
  rest_eq : s.cursor.rest = rest
  column_eq : s.cursor.column = column
  room : s.cursor.rest.length ≤ s.cursor.size
  levels_eq : (s.indent, s.indents) = levels stack
  key : s.key = none
  outer : s.outerKeys = []
  keyAllowed : s.keyAllowed = true
  tokens_eq : s.tokens = toks

/-! ## Between two tokens -/

/-- The next line starts behind a line break. -/
theorem InLine.line (h : s.InLine stack toks ('\n' :: rest)) :
    ∃ s', Leads s s' ∧ s'.AtLine stack toks rest := by
  have htrimmed : s.trimmed = s.cursor.advance ([] : List Char).length := trimmed_break h.rest_eq
  obtain ⟨hbroken, hnext⟩ := broken_eq h.outer htrimmed h.rest_eq
  have hroom := h.room
  rw [h.rest_eq, List.length_cons] at hroom
  refine ⟨s.broken, leads_of_next h.unfinished ?_ hnext h.room ?_ ?_ ?_, ?_⟩
  · rw [hbroken]; exact h.unfinished
  · rw [hbroken]; exact Nat.le_of_succ_le hroom
  · rw [hbroken, h.rest_eq]; exact Nat.le_succ _
  · rw [hbroken]; exact id
  · rw [hbroken]
    exact
      { unfinished := h.unfinished
        rest_eq := rfl
        column := rfl
        room := Nat.le_of_succ_le hroom
        levels_eq := h.levels_eq
        key := fun k hk => ⟨(h.key k hk).1, Nat.lt_succ_of_le (h.key k hk).2⟩
        outer := h.outer
        keyAllowed := rfl
        tokens_eq := h.tokens_eq }

/-- A line without tokens is passed over. -/
theorem AtLine.skip {w : List Char} (h : s.AtLine stack toks (w ++ '\n' :: rest))
    (htrimmed : s.trimmed = s.cursor.advance w.length) :
    ∃ s', Leads s s' ∧ s'.AtLine stack toks rest := by
  obtain ⟨hbroken, hnext⟩ := broken_eq h.outer htrimmed h.rest_eq
  have hlength : rest.length ≤ s.cursor.rest.length := by
    rw [h.rest_eq, List.length_append, List.length_cons]
    omega
  have hroom : rest.length ≤ s.cursor.size := Nat.le_trans hlength h.room
  refine ⟨s.broken, leads_of_next h.unfinished ?_ hnext h.room ?_ ?_ ?_, ?_⟩
  · rw [hbroken]; exact h.unfinished
  · rw [hbroken]; exact hroom
  · rw [hbroken]; exact hlength
  · rw [hbroken]; exact id
  · rw [hbroken]
    exact
      { h with
        rest_eq := rfl
        column := rfl
        room := hroom
        key := fun k hk => ⟨(h.key k hk).1, Nat.lt_succ_of_lt (h.key k hk).2⟩
        keyAllowed := rfl }

theorem AtLine.blank (h : s.AtLine stack toks ('\n' :: rest)) :
    ∃ s', Leads s s' ∧ s'.AtLine stack toks rest :=
  AtLine.skip (w := []) h (trimmed_break h.rest_eq)

theorem AtLine.comment {cs : List Char} (hcs : ∀ x ∈ cs, isBreak x = false)
    (h : s.AtLine stack toks ('#' :: cs ++ '\n' :: rest)) :
    ∃ s', Leads s s' ∧ s'.AtLine stack toks rest :=
  h.skip (trimmed_comment hcs h.rest_eq)

/-- **The first token of a line.**  It closes the blocks further right. -/
theorem AtLine.exists_start {column : Nat} {inner outer : List Nat} {x : Char}
    (h : s.AtLine (inner ++ outer) toks (List.replicate column ' ' ++ x :: rest))
    (hx : startsToken x = true) (hinner : ∀ i ∈ inner, column < i)
    (houter : ∀ o ∈ outer.head?, o ≤ column) :
    ∃ t : Scanner, s.step = t.scanToken ∧ t.cursor.rest.length ≤ s.cursor.rest.length ∧
      t.AtToken outer (toks ++ List.replicate inner.length .blockEnd) (x :: rest) column := by
  have hdrop := dropStaleKeys_stale (s := { s with cursor := s.cursor.advance column })
    h.key h.outer
  have hclose := closeBlocks_eq (s := { s with cursor := s.cursor.advance column, key := none })
    ((s.cursor.advance column).column : Nat) h.outer h.levels_eq
    (by simpa [h.column] using hinner) (by simpa [h.column] using houter)
  have hnext := Cursor.rest_advance h.rest_eq
  have hlength := (Cursor.behind_advance s.cursor column).le
  rw [List.length_replicate] at hnext
  refine ⟨{ s with
    cursor := s.cursor.advance column
    key := none
    indent := (levels outer).1
    indents := (levels outer).2
    lexemes := List.replicate inner.length
      ⟨.blockEnd, s.cursor.line, (s.cursor.advance column).column⟩ ++ s.lexemes
    count := s.count + inner.length }, ?_, hlength, ?_⟩
  · rw [step_eq h.room, next_spaces hx h.rest_eq, hdrop]
    exact congrArg scanToken hclose
  · exact
      { h with
        rest_eq := hnext
        column_eq := by rw [Cursor.advance_column, h.column, Nat.zero_add]
        room := Nat.le_trans hlength h.room
        levels_eq := rfl
        key := rfl
        tokens_eq := by
          rw [← h.tokens_eq]
          simp [tokens] }

/-! ## The end of the stream -/

theorem trimmed_nil (hrest : s.cursor.rest = []) : s.trimmed = s.cursor := by
  have hstart : s.cursor.at? byteOrderMark = false := by
    rw [Cursor.at?_eq hrest]
    rfl
  have hskip : s.cursor.skip (fun x => x == ' ' || ((s.inFlow || !s.keyAllowed) && x == '\t'))
      = s.cursor :=
    Cursor.skip_eq (w := []) hrest (fun y hy => (nomatch hy)) rfl
  rw [trimmed, hstart, Bool.and_false]
  simp only [Bool.false_eq_true, if_false]
  rw [hskip, Cursor.at?_eq hrest]
  rfl

/-- At the end of the stream all blocks are closed: first those right of the margin, as in front of
any token, and then the others. -/
theorem AtLine.run_end (h : s.AtLine stack toks []) {n : Nat} (hn : 2 ≤ n) :
    ∃ ls, run n s = .ok ls ∧
      ls.map (·.token) = toks ++ List.replicate stack.length .blockEnd ++ [.streamEnd] := by
  obtain ⟨n, rfl⟩ : ∃ k, n = k + 2 := ⟨n - 2, by omega⟩
  have hnext : s.next = s := by
    rw [next_eq, trimmed_nil h.rest_eq, Cursor.sees_eq h.rest_eq]
    rfl
  have hdrop := dropStaleKeys_stale h.key h.outer
  have hinner : ∀ i ∈ stack.takeWhile (0 < ·), ((s.cursor.column : Nat) : Int) < i := by
    intro i hi
    have := List.mem_takeWhile_imp hi
    rw [h.column]
    simpa using this
  have houter : ∀ o ∈ (stack.dropWhile (0 < ·)).head?, (o : Int) ≤ (s.cursor.column : Nat) := by
    intro o ho
    have := List.head?_dropWhile_not (decide <| 0 < ·) stack
    rw [Option.mem_def.1 ho] at this
    rw [h.column]
    simpa using this
  have hsplit := List.takeWhile_append_dropWhile (p := (decide <| 0 < ·)) (l := stack)
  have hlevels := h.levels_eq
  rw [← hsplit] at hlevels
  have hclose := closeBlocks_eq (s := { s with key := none }) _ h.outer hlevels hinner houter
  set t : Scanner := closeBlocks { s with key := none } (s.cursor.column : Nat) with ht
  have hlevelsAll : (t.indent, t.indents) = levels (stack.dropWhile (0 < ·) ++ []) := by
    rw [hclose, List.append_nil]
  have hcloseAll := closeBlocks_eq (-1) (by rw [hclose]; exact h.outer) hlevelsAll
    (fun i _ => by omega) (fun o ho => (nomatch ho))
  have hend : s.step = .ok { (t.closeBlocks (-1)).push .streamEnd with
      keyAllowed := false, finished := true } := by
    have hscan : t.scanToken = t.scanEnd := by
      have hrest : t.cursor.rest = [] := by rw [hclose]; exact h.rest_eq
      rw [scanToken, hrest]
    have hkey : (t.closeBlocks (-1)).dropKey = .ok (t.closeBlocks (-1)) := by
      have hnone : (t.closeBlocks (-1)).key = none := by rw [hcloseAll, hclose]
      rw [dropKey, hnone]
    rw [step_eq h.room, hnext, hdrop]
    change t.scanToken = _
    rw [hscan, scanEnd, hkey]
    rfl
  have htokens : (t.closeBlocks (-1)).tokens = toks ++ List.replicate stack.length .blockEnd := by
    have hlength := congrArg List.length hsplit
    rw [List.length_append] at hlength
    rw [hcloseAll, hclose, ← h.tokens_eq, ← hlength, ← List.replicate_append_replicate]
    simp [tokens]
  refine ⟨((t.closeBlocks (-1)).push .streamEnd).lexemes.reverse, ?_, ?_⟩
  · rw [run_succ _ h.unfinished, hend]
    rfl
  · rw [List.map_reverse, ← htokens, ← tokens_push]
    rfl

end JobMatrix.Yaml.Scanner
