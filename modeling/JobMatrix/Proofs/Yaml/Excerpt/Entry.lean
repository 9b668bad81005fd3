import JobMatrix.Proofs.Yaml.Excerpt.First

/-!
# Entering a block mapping

Each step of a scanner that waits for its first key is a step of the scanner that has entered the
block mapping, or gives the key up, or opens the block mapping (`Scanner.Comes`).  So a run whose
tokens start with a block mapping is a run of the scanner that has entered it
(`Scanner.run_entered`).
-/

set_option autoImplicit false

namespace JobMatrix.Yaml

/-! ## Plain scalars

The one thing that reads the indentation is a plain scalar that goes on in another line. -/

namespace Cursor

variable {c : Cursor} {limit : Int}

theorem readGap_line :
    ∀ {n : Nat} {g : Gap} {c : Cursor} {r : Gap × Cursor}, c.readGap limit n g = .ok r →
      c.line ≤ r.2.line
  | 0, g, c, r, h => by cases h; exact Nat.le_refl _
  | n + 1, g, c, r, h => by
    rw [readGap] at h
    cases hrest : c.rest with
    | nil => rw [hrest] at h; cases h; exact Nat.le_refl _
    | cons x rest =>
      rw [hrest] at h
      dsimp only at h
      split at h
      · split at h
        · cases h
        · split at h
          · exact readGap_line (c := c.advance 1) h
          · exact readGap_line (c := c.advance 1) h
      · split at h
        · rename_i hbreak
          have hline := (behind_nextLine (c := c) (by rw [sees_eq hrest]; exact hbreak)).line
          split at h
          · exact Nat.le_trans hline (readGap_line h)
          · exact Nat.le_trans hline (readGap_line h)
        · cases h
          exact Nat.le_refl _

theorem line_nextLine (h : c.sees isBreak = true) : c.nextLine.line = c.line + 1 := by
  rw [nextLine]
  split
  · rfl
  · rfl
  · rename_i heq
    rw [sees_eq heq] at h
    cases h

theorem readGap_limit (limit' : Int) :
    ∀ {n : Nat} {g : Gap} {c : Cursor} {r : Gap × Cursor}, c.readGap limit n g = .ok r →
      g.broken = false →
      c.line < r.2.line ∨ (c.readGap limit' n g = .ok r ∧ c.column ≤ r.2.column)
  | 0, g, c, r, h, _ => by
    cases h
    exact .inr ⟨rfl, Nat.le_refl _⟩
  | n + 1, g, c, r, h, hg => by
    rw [readGap] at h ⊢
    cases hrest : c.rest with
    | nil =>
      rw [hrest] at h
      cases h
      exact .inr ⟨rfl, Nat.le_refl _⟩
    | cons x rest =>
      rw [hrest] at h
      simp only [hg, Bool.false_and, Bool.false_eq_true, if_false] at h ⊢
      split at h
      · rename_i hspace
        rw [if_pos hspace]
        obtain hline | ⟨hread, hcolumn⟩ := readGap_limit limit' h rfl
        · exact .inl hline
        · exact .inr ⟨hread, Nat.le_trans (Nat.le_succ _) hcolumn⟩
      · rename_i hspace
        rw [if_neg hspace]
        split at h
        · rename_i hbreak
          have hline := line_nextLine (c := c) (by rw [sees_eq hrest]; exact hbreak)
          have hle := readGap_line h
          exact .inl (by omega)
        · rename_i hbreak
          cases h
          rw [if_neg hbreak]
          exact .inr ⟨rfl, Nat.le_refl _⟩

theorem readPlainWords_line {flow : Bool} {indent : Int} :
    ∀ {n : Nat} {words : List (List Char)} {gap : Gap} {c : Cursor}
      {r : List (List Char) × Bool × Cursor}, c.readPlainWords flow indent n words gap = .ok r →
      c.line ≤ r.2.2.line
  | 0, words, gap, c, r, h => by cases h; exact Nat.le_refl _
  | n + 1, words, gap, c, r, h => by
    rw [readPlainWords] at h
    split at h
    · cases h
      exact Nat.le_refl _
    split at h
    · cases h
    · cases h
      exact Nat.le_refl _
    dsimp only at h
    split at h
    · cases h
      exact Nat.le_refl _
    obtain ⟨⟨g, d⟩, hgap, h⟩ := bind_eq_ok_iff.1 h
    have hline : c.line ≤ d.line := readGap_line hgap
    dsimp only at h
    split at h
    · cases h
      exact hline
    · exact Nat.le_trans hline (readPlainWords_line h)

/-- A word is right of the margin, unless it is the first one of its line. -/
theorem readPlainWords_margin {flow : Bool} :
    ∀ {n : Nat} {words : List (List Char)} {gap : Gap} {c : Cursor}
      {r : List (List Char) × Bool × Cursor}, c.readPlainWords flow 0 n words gap = .ok r →
      c.line < r.2.2.line ∨ c.readPlainWords flow 1 n words gap = .ok r
  | 0, words, gap, c, r, h => .inr h
  | n + 1, words, gap, c, r, h => by
    rw [readPlainWords] at h ⊢
    split at h
    · rename_i hstop
      rw [if_pos hstop]
      exact .inr h
    rename_i hstop
    rw [if_neg hstop]
    split at h
    · cases h
    · exact .inr h
    rename_i word hne hword
    dsimp only at h ⊢
    split at h
    · rename_i hsees
      rw [if_pos hsees]
      exact .inr h
    rename_i hsees
    rw [if_neg hsees]
    obtain ⟨⟨g, d⟩, hgap, h⟩ := bind_eq_ok_iff.1 h
    have hzero : ¬(!flow && (d.column : Int) < (0 : Int)) = true := by
      have hcolumn := Int.not_lt.2 (Int.natCast_nonneg d.column)
      rw [Bool.and_eq_true, decide_eq_true_eq]
      exact fun hand => hcolumn hand.2
    dsimp only at h
    rw [if_neg hzero] at h
    obtain hline | ⟨hgap', hcolumn⟩ := readGap_limit 1 hgap rfl
    · exact .inl (Nat.lt_of_lt_of_le hline (readPlainWords_line h))
    have hone : ¬(!flow && (d.column : Int) < (1 : Int)) = true := by
      have hpos : 0 < word.length := List.length_pos_iff.2 hne
      have hle : (c.advance word.length).column ≤ d.column := hcolumn
      rw [advance_column] at hle
      rw [Bool.and_eq_true, decide_eq_true_eq]
      intro hand
      omega
    rw [hgap']
    change _ ∨ (if (!flow && (d.column : Int) < (1 : Int)) = true then _ else _) = _
    rw [if_neg hone]
    obtain hline | hwords := readPlainWords_margin h
    · have hle : c.line ≤ d.line := readGap_line hgap
      exact .inl (Nat.lt_of_le_of_lt hle hline)
    · exact .inr hwords

theorem readPlain_margin {flow : Bool} {r : String × Bool × Cursor}
    (h : c.readPlain flow 0 = .ok r) : c.line < r.2.2.line ∨ c.readPlain flow 1 = .ok r := by
  obtain ⟨⟨words, broken, d⟩, hwords, h⟩ := bind_eq_ok_iff.1 h
  cases h
  refine (readPlainWords_margin hwords).imp_right fun hwords' => ?_
  rw [readPlain, hwords']
  rfl

end Cursor

namespace Scanner

variable {s t : Scanner} {k : ImplicitKey} {token : Token}

/-! ## To the next token -/

/-- On the way to a token only the place changes, and whether a key may start. -/
theorem toNextToken_eq : ∀ (n : Nat) (s : Scanner), ∃ (c : Cursor) (allowed : Bool),
    s.cursor.line ≤ c.line ∧ toNextToken n s = { s with cursor := c, keyAllowed := allowed } ∧
      ∀ l, toNextToken n (s.entered l) = (toNextToken n s).entered l
  | 0, s => ⟨s.cursor, s.keyAllowed, Nat.le_refl _, rfl, fun _ => rfl⟩
  | n + 1, s => by
    have htrimmed : ∀ l, (s.entered l).trimmed = s.trimmed := fun l => by
      rw [trimmed, entered_inFlow]
      rfl
    by_cases hbreak : s.trimmed.sees isBreak = true
    · obtain ⟨c, allowed, hline, hnext, hentered⟩ := toNextToken_eq n s.broken
      refine ⟨c, allowed, ?_, ?_, fun l => ?_⟩
      · exact Nat.le_trans (s.behind_trimmed.trans (Cursor.behind_nextLine hbreak)).line hline
      · rw [toNextToken_succ, if_pos hbreak, hnext]
        rfl
      · have hbroken : (s.entered l).broken = s.broken.entered l := by
          rw [broken, htrimmed, entered_inFlow]
          rfl
        rw [toNextToken_succ, toNextToken_succ, htrimmed, if_pos hbreak, if_pos hbreak, hbroken,
          hentered]
    · refine ⟨s.trimmed, s.keyAllowed, s.behind_trimmed.line, ?_, fun l => ?_⟩
      · rw [toNextToken_succ, if_neg hbreak]
      · rw [toNextToken_succ, toNextToken_succ, htrimmed, if_neg hbreak, if_neg hbreak]
        rfl

/-- The start of a line closes no block but those inside the block mapping. -/
theorem closeBlocks_entered (s : Scanner) (l : Lexeme) (column : Nat) :
    (s.entered l).closeBlocks column = s.entered l := by
  cases houter : s.outerKeys with
  | cons key outer =>
    refine closeBlocks_flow ?_
    rw [entered, houter]
    exact List.cons_ne_nil _ _
  | nil =>
    have houterl : (s.entered l).outerKeys = [] := by rw [entered, houter]; rfl
    have hlevels : ((s.entered l).indent, (s.entered l).indents) = levels ([] ++ [0]) := rfl
    rw [closeBlocks_eq column houterl hlevels (by simp) fun o ho => by
      cases ho
      exact Int.natCast_nonneg column]
    rfl

namespace Waiting

/-- No block is open, so none is closed. -/
theorem closeBlocks_self (h : Waiting k s) (column : Int) : s.closeBlocks column = s := by
  cases houter : s.outerKeys with
  | cons key outer => exact closeBlocks_flow (by rw [houter]; exact List.cons_ne_nil _ _)
  | nil =>
    have hlevels : (s.indent, s.indents) = levels ([] ++ []) := by rw [h.indent, h.indents]; rfl
    have hindent := h.indent
    have hindents := h.indents
    rw [closeBlocks_eq column houter hlevels (by simp) (by simp)]
    cases s
    cases hindent
    cases hindents
    rfl

/-- A key on an earlier line is given up in front of the next token. -/
theorem lost (h : Waiting k s) (hcount : 0 < s.count) (hline : k.line < s.cursor.line) : Lost s := by
  intro m l ls hrun
  cases m with
  | zero => cases hrun
  | succ m =>
    rw [run_succ m h.unfinished] at hrun
    obtain ⟨t, hstep, hrun⟩ := bind_eq_ok_iff.1 hrun
    obtain ⟨u, hdrop, hscan⟩ := bind_eq_ok_iff.1 hstep
    obtain ⟨c, allowed, hle, hnext, -⟩ := toNextToken_eq (s.cursor.size + 1) s
    rw [hnext] at hdrop
    have hstale : { s with cursor := c, keyAllowed := allowed }.isStale k = true := by
      rw [isStale, Bool.or_eq_true, decide_eq_true_eq]
      exact .inl (Nat.lt_of_lt_of_le hline hle)
    have hgiven := (h.move c allowed).dropStaleKeys_stale hcount hstale hdrop
    exact (stable_givenUp.scanToken (stable_givenUp.closeBlocks hgiven _) hscan).lost m l ls hrun

end Waiting

/-! ## Tokens -/

/-- What a step from a scanner that waits for its first key comes to, where `y` is the same step of
the scanner that has entered the block mapping. -/
inductive Comes (k : ImplicitKey) (t : Scanner) (y : Lexeme → Except SyntaxError Scanner) : Prop
  | lost (h : Lost t)
  | waiting (h : Waiting k t) (hcount : 0 < t.count) (hy : ∀ l, y l = .ok (t.entered l))
  /-- The block mapping has been opened. -/
  | opened {l : Lexeme} (h : Started (· = l) t) (hy : y l = .ok t)

theorem Comes.congr {y y' : Lexeme → Except SyntaxError Scanner} (hy : ∀ l, y l = y' l)
    (h : Comes k t y') : Comes k t y := by
  rwa [funext hy]

theorem Comes.ite {p : Prop} [Decidable p] {a b : Except SyntaxError Scanner}
    {a' b' : Lexeme → Except SyntaxError Scanner} (ha : p → a = .ok t → Comes k t a')
    (hb : b = .ok t → Comes k t b') (h : (if p then a else b) = .ok t) :
    Comes k t fun l => if p then a' l else b' l := by
  split at h
  · rename_i hp
    exact .congr (fun l => if_pos hp) (ha hp h)
  · rename_i hp
    exact .congr (fun l => if_neg hp) (hb h)

theorem comes_givenUp {y : Lexeme → Except SyntaxError Scanner} (h : GivenUp t) : Comes k t y :=
  .lost h.lost

/-- What remembering a key comes to. -/
def Saves (k : ImplicitKey) (s : Scanner) : Prop :=
  ∀ t, s.saveKey = .ok t →
    GivenUp t ∨ Waiting k t ∧ t.cursor = s.cursor ∧ ∀ l, (s.entered l).saveKey = .ok (t.entered l)

namespace Saves

theorem scanFlowStart (hsave : Saves k s) (token : Token) (htoken : token ≠ .blockMappingStart)
    (hscan : s.scanFlowStart token = .ok t) :
    Comes k t fun l => (s.entered l).scanFlowStart token := by
  obtain ⟨u, hu, hscan⟩ := bind_eq_ok_iff.1 hscan
  cases hscan
  rcases hsave u hu with hgiven | ⟨hu, -, hentered⟩
  · exact comes_givenUp (stable_givenUp.frame (stable_givenUp.push token hgiven)
      ⟨rfl, rfl, fun j hj => by simpa [push] using hj⟩)
  · obtain ⟨upper, hkeys, hupper⟩ := hu.keys
    have hpush := (hu.push token htoken).move (u.cursor.advance 1) true
    refine .waiting { hpush with keys := ⟨none :: upper, ?_, fun j hj => hupper j ?_⟩ }
      (Nat.succ_pos _) fun l => ?_
    · exact congrArg (none :: ·) hkeys
    · simpa using hj
    · rw [Scanner.scanFlowStart, hentered]
      rfl

theorem scanProperty {read : Cursor → Except SyntaxError (Token × Cursor)} (hsave : Saves k s)
    (hread : ∀ {c d : Cursor} {token : Token}, read c = .ok (token, d) → token ≠ .blockMappingStart)
    (hscan : s.scanProperty read = .ok t) : Comes k t fun l => (s.entered l).scanProperty read := by
  obtain ⟨u, hu, hscan⟩ := bind_eq_ok_iff.1 hscan
  obtain ⟨⟨token, c⟩, htoken, hscan⟩ := bind_eq_ok_iff.1 hscan
  cases hscan
  rcases hsave u hu with hgiven | ⟨hu, -, hentered⟩
  · exact comes_givenUp (stable_givenUp.move (stable_givenUp.push token hgiven) rfl rfl rfl rfl)
  · refine .waiting ((hu.push token (hread htoken)).move c false) (Nat.succ_pos _) fun l => ?_
    rw [Scanner.scanProperty, hentered]
    change (read u.cursor >>= _) = _
    rw [htoken]
    rfl

theorem scanQuoted {style : ScalarStyle} (hsave : Saves k s) (hscan : s.scanQuoted style = .ok t) :
    Comes k t fun l => (s.entered l).scanQuoted style := by
  obtain ⟨u, hu, hscan⟩ := bind_eq_ok_iff.1 hscan
  obtain ⟨⟨text, c⟩, hread, hscan⟩ := bind_eq_ok_iff.1 hscan
  cases hscan
  rcases hsave u hu with hgiven | ⟨hu, -, hentered⟩
  · exact comes_givenUp
      (stable_givenUp.move (stable_givenUp.push (.scalar style text) hgiven) rfl rfl rfl rfl)
  · refine .waiting ((hu.push (.scalar style text) (by simp)).move c false) (Nat.succ_pos _)
      fun l => ?_
    rw [Scanner.scanQuoted, hentered]
    change (u.cursor.readQuoted _ >>= _) = _
    rw [hread]
    rfl

/-- A plain scalar that goes on in another line is no key. -/
theorem scanPlain (hsave : Saves k s) (hline : k.line ≤ s.cursor.line)
    (hscan : s.scanPlain = .ok t) : Comes k t fun l => (s.entered l).scanPlain := by
  obtain ⟨u, hu, hscan⟩ := bind_eq_ok_iff.1 hscan
  obtain ⟨⟨text, broken, c⟩, hread, hscan⟩ := bind_eq_ok_iff.1 hscan
  cases hscan
  rcases hsave u hu with hgiven | ⟨hu, hcursor, hentered⟩
  · exact comes_givenUp
      (stable_givenUp.move (stable_givenUp.push (.scalar .plain text) hgiven) rfl rfl rfl rfl)
  have hpush := (hu.push (.scalar .plain text) (by simp)).move c broken
  rw [hu.indent] at hread
  obtain hpassed | hread := Cursor.readPlain_margin hread
  · refine .lost (hpush.lost (Nat.succ_pos _) ?_)
    rw [← hcursor] at hline
    exact Nat.lt_of_le_of_lt hline hpassed
  · refine .waiting hpush (Nat.succ_pos _) fun l => ?_
    rw [Scanner.scanPlain, hentered]
    change (u.cursor.readPlain (u.entered l).inFlow 1 >>= _) = _
    rw [entered_inFlow, hread]
    rfl

end Saves

theorem openBlock_forget (s : Scanner) (column : Nat) (token : Token) :
    { s.openBlock column none token with key := none }
      = openBlock { s with key := none } column none token := by
  rw [openBlock, openBlock]
  change _ = if !s.inFlow && s.indent < column then _ else _
  split <;> rfl

theorem openBlock_flow (hflow : s.inFlow = true) (column : Nat) (key : Option ImplicitKey)
    (token : Token) : s.openBlock column key token = s := by
  rw [openBlock, hflow]
  rfl

theorem inFlow_eq_true (houter : s.outerKeys ≠ []) : s.inFlow = true := by
  rw [inFlow, List.isEmpty_eq_false_iff.2 houter]
  rfl

namespace Waiting

theorem saves (h : Waiting k s) (hcount : 0 < s.count) : Saves k s :=
  fun _ => h.saveKey hcount

theorem scanFlowEntry (h : Waiting k s) (hcount : 0 < s.count) (hscan : s.scanFlowEntry = .ok t) :
    Comes k t fun l => (s.entered l).scanFlowEntry := by
  obtain ⟨u, hu, hscan⟩ := bind_eq_ok_iff.1 hscan
  cases hscan
  rcases h.dropKey hcount hu with hgiven | ⟨-, hu, hentered⟩
  · exact comes_givenUp
      (stable_givenUp.move (stable_givenUp.push .flowEntry hgiven) rfl rfl rfl rfl)
  · refine .waiting ((hu.push .flowEntry (by simp)).move _ true) (Nat.succ_pos _) fun l => ?_
    rw [Scanner.scanFlowEntry, hentered]
    rfl

theorem scanFlowEnd (h : Waiting k s) (hcount : 0 < s.count) (token : Token)
    (htoken : token ≠ .blockMappingStart) (hscan : s.scanFlowEnd token = .ok t) :
    Comes k t fun l => (s.entered l).scanFlowEnd token := by
  obtain ⟨u, hu, hscan⟩ := bind_eq_ok_iff.1 hscan
  rcases h.dropKey hcount hu with hgiven | ⟨houter, hw, hentered⟩
  · have hpush := stable_givenUp.push token hgiven
    dsimp only at hscan
    split at hscan
    · rename_i key outer houter
      cases hscan
      refine comes_givenUp (stable_givenUp.frame hpush ⟨rfl, rfl, fun j hj => ?_⟩)
      refine List.mem_cons_of_mem _ ?_
      rw [houter]
      exact hj
    · cases hscan
      exact comes_givenUp (stable_givenUp.move hpush rfl rfl rfl rfl)
  · obtain ⟨key, outer, houteru⟩ : ∃ key outer, u.outerKeys = key :: outer := by
      rw [dropKey_eq hu]
      exact List.exists_cons_of_ne_nil houter
    obtain ⟨upper, hkeys, hupper⟩ := hw.keys
    have hpush := (hw.push token htoken).move (u.cursor.advance 1) false
    have houterp : (u.push token).outerKeys = key :: outer := houteru
    dsimp only at hscan
    rw [houterp] at hscan
    cases hscan
    refine .waiting { hpush with keys := ?_ } (Nat.succ_pos _) fun l => ?_
    · cases upper with
      | nil =>
        rw [houteru] at hkeys
        cases (List.cons.inj hkeys).2
      | cons j upper =>
        refine ⟨upper, ?_, fun j hj => hupper j (List.mem_cons_of_mem _ hj)⟩
        rw [houteru] at hkeys
        exact (List.cons.inj hkeys).2
    · have houterl : ((u.entered l).push token).outerKeys
          = key.map .entered :: outer.map (Option.map .entered) := by
        change u.outerKeys.map _ = _
        rw [houteru]
        rfl
      rw [Scanner.scanFlowEnd, hentered]
      change Except.bind (.ok (u.entered l)) _ = _
      dsimp only [Except.bind]
      rw [houterl]
      rfl

/-- In block context another block would come before the block mapping. -/
theorem openBlock (h : Waiting k s) (hcount : 0 < s.count) {u : Scanner} {column : Nat}
    (hu : (s.openBlock column none token).dropKey = .ok u) :
    GivenUp u ∨ s.inFlow = true ∧ Waiting k u ∧
      ∀ l, ((s.entered l).openBlock column none token).dropKey = .ok (u.entered l) := by
  rcases h.cases_level with ⟨-, houter⟩ | ⟨houter, -⟩
  · rw [dropKey_eq hu, openBlock_forget]
    exact .inl (stable_givenUp.openBlock (h.givenUp hcount houter) column token)
  · have hflow := inFlow_eq_true houter
    rw [openBlock_flow hflow] at hu
    refine (h.dropKey hcount hu).imp_right fun ⟨_, hu, hentered⟩ => ⟨hflow, hu, fun l => ?_⟩
    rw [openBlock_flow (by rw [entered_inFlow, hflow]), hentered]

theorem scanBlockEntry (h : Waiting k s) (hcount : 0 < s.count) (hscan : s.scanBlockEntry = .ok t) :
    Comes k t fun l => (s.entered l).scanBlockEntry := by
  rw [Scanner.scanBlockEntry] at hscan
  split at hscan
  · cases hscan
  obtain ⟨u, hu, hscan⟩ := bind_eq_ok_iff.1 hscan
  cases hscan
  rcases h.openBlock hcount hu with hgiven | ⟨hflow, hu, hentered⟩
  · exact comes_givenUp
      (stable_givenUp.move (stable_givenUp.push .blockEntry hgiven) rfl rfl rfl rfl)
  · refine .waiting ((hu.push .blockEntry (by simp)).move _ true) (Nat.succ_pos _) fun l => ?_
    rw [Scanner.scanBlockEntry, entered_cursor, hentered, entered_inFlow, hflow]
    rfl

theorem scanKey (h : Waiting k s) (hcount : 0 < s.count) (hscan : s.scanKey = .ok t) :
    Comes k t fun l => (s.entered l).scanKey := by
  rw [Scanner.scanKey] at hscan
  split at hscan
  · cases hscan
  obtain ⟨u, hu, hscan⟩ := bind_eq_ok_iff.1 hscan
  cases hscan
  rcases h.openBlock hcount hu with hgiven | ⟨hflow, hu, hentered⟩
  · exact comes_givenUp (stable_givenUp.move (stable_givenUp.push .key hgiven) rfl rfl rfl rfl)
  · refine .waiting ((hu.push .key (by simp)).move _ _) (Nat.succ_pos _) fun l => ?_
    rw [Scanner.scanKey, entered_cursor, hentered, entered_inFlow, hflow]
    change Except.ok { (u.entered l).push .key with
      cursor := u.cursor.advance 1, keyAllowed := !(u.entered l).inFlow } = _
    rw [entered_inFlow]
    rfl

theorem scanBlockScalar {style : ScalarStyle} (h : Waiting k s) (hcount : 0 < s.count)
    (hflow : s.inFlow = false) (hscan : s.scanBlockScalar style = .ok t) : GivenUp t := by
  obtain ⟨u, hu, hscan⟩ := bind_eq_ok_iff.1 hscan
  obtain ⟨⟨text, c⟩, -, hscan⟩ := bind_eq_ok_iff.1 hscan
  cases hscan
  rcases h.dropKey hcount hu with hgiven | ⟨houter, -⟩
  · exact stable_givenUp.move (stable_givenUp.push (.scalar style text) hgiven) rfl rfl rfl rfl
  · rw [inFlow_eq_true houter] at hflow
    cases hflow

theorem entered_insertAt (h : Waiting k s) (j : ImplicitKey) (token : Token) (l : Lexeme) :
    (s.entered l).insertAt j.entered token = (s.insertAt j token).entered l := by
  have hcounted : s.lexemes.length = s.count := h.counted
  have hindex : (s.entered l).count - j.entered.number = s.count - j.number :=
    Nat.succ_sub_succ _ _
  have hlexemes : (s.lexemes ++ [l]).insertIdx (s.count - j.number) ⟨token, j.line, j.column⟩
      = s.lexemes.insertIdx (s.count - j.number) ⟨token, j.line, j.column⟩ ++ [l] :=
    Inside.insertIdx_append (by omega)
  rw [insertAt, hindex]
  change { s.entered l with
    lexemes := (s.lexemes ++ [l]).insertIdx (s.count - j.number) ⟨token, j.line, j.column⟩
    count := s.count + 1 + 1 } = _
  rw [hlexemes]
  rfl

/-- A `:` behind the first token opens the block mapping in front of it. -/
theorem scanValue_opens (h : Waiting k s) (hkey : s.key = some k) (houter : s.outerKeys = [])
    (hscan : s.scanValue = .ok t) : Comes k t fun l => (s.entered l).scanValue := by
  have hcounted : s.lexemes.length = s.count := h.counted
  have hindex : s.count - k.number = s.lexemes.length := by rw [h.number, hcounted, Nat.sub_zero]
  have hinserted : s.insertAt k .key = { s with
      lexemes := s.lexemes ++ [⟨.key, k.line, k.column⟩]
      count := s.count + 1 } := by
    rw [insertAt, hindex, List.insertIdx_length_self]
  have hindex' : s.count + 1 - k.number
      = (s.lexemes ++ [(⟨.key, k.line, k.column⟩ : Lexeme)]).length := by
    rw [h.number, List.length_append, hcounted]
    rfl
  have hopen : (!s.inFlow && s.indent < (k.column : Int)) = true := by
    rw [inFlow, houter, h.indent, h.column]
    rfl
  have hopened : (s.insertAt k .key).openBlock k.column (some k) .blockMappingStart = { s with
      lexemes := s.lexemes ++ [⟨.key, k.line, k.column⟩] ++ [⟨.blockMappingStart, k.line, k.column⟩]
      count := s.count + 1 + 1
      indent := 0
      indents := [-1] } := by
    rw [hinserted, Scanner.openBlock]
    change (if (!s.inFlow && s.indent < (k.column : Int)) = true then _ else _) = _
    rw [if_pos hopen]
    change Scanner.mk _ ((s.lexemes ++ [_]).insertIdx (s.count + 1 - k.number) _) _ _ _ _ _ _ _ = _
    rw [hindex', List.insertIdx_length_self, h.column, h.indent, h.indents]
    rfl
  have hentered : ∀ l, ((s.entered l).insertAt k.entered .key).openBlock k.entered.column
      (some k.entered) .blockMappingStart = { s.entered l with
        lexemes := s.lexemes ++ [⟨.key, k.line, k.column⟩] ++ [l]
        count := s.count + 1 + 1 } := by
    intro l
    have hstays : ¬(!(s.entered l).inFlow && (0 : Int) < (k.column : Int)) = true := by
      rw [h.column, entered_inFlow, Bool.and_eq_true]
      exact fun hand => absurd hand.2 (by decide)
    rw [h.entered_insertAt, hinserted, Scanner.openBlock]
    change (if (!(s.entered l).inFlow && (0 : Int) < (k.column : Int)) = true then _ else _) = _
    rw [if_neg hstays]
    rfl
  have hkeyl : ∀ l, (s.entered l).key = some k.entered := fun l => by rw [entered, hkey]; rfl
  rw [scanValue, hkey] at hscan
  dsimp only at hscan
  rw [hopened] at hscan
  cases hscan
  refine .opened (l := ⟨.blockMappingStart, k.line, k.column⟩) ⟨?_, ⟨_, ?_, rfl⟩, fun j hj => ?_⟩ ?_
  · change (_ :: (s.lexemes ++ [_] ++ [_]) : List Lexeme).length = s.count + 1 + 1 + 1
    rw [List.length_cons, List.length_append, List.length_append, hcounted]
    rfl
  · change _ ∈ (_ :: (s.lexemes ++ [_] ++ [_]) : List Lexeme).getLast?
    rw [← List.cons_append, List.getLast?_concat]
    rfl
  · change some j ∈ none :: s.outerKeys at hj
    rw [houter] at hj
    simp at hj
  · rw [scanValue, hkeyl]
    dsimp only
    rw [hentered]
    simp only [entered, houter]
    rfl

theorem insertAt {j : ImplicitKey} (h : Waiting k s) (hcount : 0 < s.count)
    (hnumber : 0 < j.number) (token : Token) : Waiting k (s.insertAt j token) :=
  { h with
    counted := h.counted.insertAt j token
    first := fun x hx => by
      have hcounted : s.lexemes.length = s.count := h.counted
      rw [Scanner.insertAt, getLast?_insertIdx (by omega)] at hx
      exact h.first x hx }

theorem scanValue (h : Waiting k s) (hcount : 0 < s.count) (hscan : s.scanValue = .ok t) :
    Comes k t fun l => (s.entered l).scanValue := by
  rcases h.cases_level with ⟨hkey, houter⟩ | ⟨houter, hkeys⟩
  · exact h.scanValue_opens hkey houter hscan
  have hflow := inFlow_eq_true houter
  rw [Scanner.scanValue] at hscan
  cases hkey : s.key with
  | some j =>
    have hinserted := h.insertAt hcount (hkeys j hkey).1 .key
    have hkeyl : ∀ l, (s.entered l).key = some j.entered := fun l => by rw [entered, hkey]; rfl
    have hflow' : (s.insertAt j .key).inFlow = true := hflow
    rw [hkey] at hscan
    dsimp only at hscan
    rw [openBlock_flow hflow'] at hscan
    cases hscan
    refine .waiting (((hinserted.push .value (by simp)).forget houter).move _ false)
      (Nat.succ_pos _) fun l => ?_
    have hflowl : ((s.entered l).insertAt j.entered .key).inFlow = true := by
      rw [h.entered_insertAt, entered_inFlow]
      exact hflow
    rw [Scanner.scanValue, hkeyl]
    dsimp only
    rw [openBlock_flow hflowl, h.entered_insertAt]
    rfl
  | none =>
    have hkeyl : ∀ l, (s.entered l).key = none := fun l => by rw [entered, hkey]; rfl
    rw [hkey, openBlock_flow hflow] at hscan
    dsimp only at hscan
    rw [hflow] at hscan
    cases hscan
    refine .waiting ((h.push .value (by simp)).move _ false) (Nat.succ_pos _) fun l => ?_
    have hflowl : (s.entered l).inFlow = true := by rw [entered_inFlow, hflow]
    rw [Scanner.scanValue, hkeyl, openBlock_flow hflowl]
    dsimp only
    rw [hflowl]
    rfl

theorem scanEnd (h : Waiting k s) (hscan : s.scanEnd = .ok t) : Lost t := by
  obtain ⟨u, hu, hscan⟩ := bind_eq_ok_iff.1 hscan
  rw [h.closeBlocks_self] at hu
  cases hscan
  cases dropKey_eq hu
  exact lost_of_finished rfl (h.push .streamEnd (by simp)).first

end Waiting

/-! ## The first token -/

/-- The scanner at the start of a text. -/
def start (c : Cursor) : Scanner := { cursor := c }

/-- The possible key that a text starts with. -/
def startKey (c : Cursor) : ImplicitKey := ⟨false, 0, c.index, c.line, c.column⟩

variable {c : Cursor}

theorem saves_start (hcolumn : c.column = 0) : Saves (startKey c) (start c) := by
  intro t hsave
  cases hsave
  refine .inr ⟨?_, rfl, fun l => ?_⟩
  · exact
      { unfinished := rfl
        counted := rfl
        indent := rfl
        indents := rfl
        first := fun x hx => by cases hx
        number := rfl
        column := hcolumn
        required := rfl
        keys := ⟨[], rfl, by simp⟩ }
  · have hzero : ((0 : Int) == (c.column : Int)) = true := by rw [hcolumn]; rfl
    change Except.ok { (start c).entered l with
      key := some ⟨(0 : Int) == (c.column : Int), 1, c.index, c.line, c.column⟩ } = _
    rw [hzero]
    rfl

/-- Another token comes first. -/
theorem givenUp_start (token : Token) (htoken : token ≠ .blockMappingStart) :
    GivenUp ((start c).push token) :=
  ⟨rfl, ⟨_, rfl, htoken⟩, fun _ hj => by simp [start, push] at hj⟩

theorem scanFlowEntry_start (hscan : (start c).scanFlowEntry = .ok t) : GivenUp t := by
  cases hscan
  exact stable_givenUp.move (givenUp_start .flowEntry (by simp)) rfl rfl rfl rfl

theorem scanFlowEnd_start (token : Token) (htoken : token ≠ .blockMappingStart)
    (hscan : (start c).scanFlowEnd token = .ok t) : GivenUp t := by
  cases hscan
  exact stable_givenUp.move (givenUp_start token htoken) rfl rfl rfl rfl

theorem scanBlockScalar_start {style : ScalarStyle}
    (hscan : (start c).scanBlockScalar style = .ok t) : GivenUp t := by
  obtain ⟨u, hu, hscan⟩ := bind_eq_ok_iff.1 hscan
  obtain ⟨⟨text, d⟩, -, hscan⟩ := bind_eq_ok_iff.1 hscan
  cases hu
  cases hscan
  exact stable_givenUp.move (givenUp_start (.scalar style text) (by simp)) rfl rfl rfl rfl

/-- A block that the first token opens. -/
theorem openBlock_start (hcolumn : c.column = 0) (token : Token) :
    (start c).openBlock c.column none token = (start c).entered ⟨token, c.line, c.column⟩ := by
  cases c
  cases hcolumn
  rfl

theorem openBlock_entered (hcolumn : c.column = 0) (token : Token) (l : Lexeme) :
    ((start c).entered l).openBlock c.column none token = (start c).entered l := by
  cases c
  cases hcolumn
  rfl

theorem started_entered (l : Lexeme) : Started (· = l) ((start c).entered l) :=
  ⟨rfl, ⟨l, rfl, rfl⟩, fun _ hj => by simp [entered, start] at hj⟩

theorem scanBlockEntry_start (hcolumn : c.column = 0) (hscan : (start c).scanBlockEntry = .ok t) :
    GivenUp t := by
  change ((start c).openBlock c.column none .blockSequenceStart).dropKey >>= _ = .ok t at hscan
  rw [openBlock_start hcolumn] at hscan
  cases hscan
  have hstarted := started_entered (c := c) ⟨.blockSequenceStart, c.line, c.column⟩
  obtain ⟨x, hx, rfl⟩ := hstarted.first
  have hgiven : GivenUp ((start c).entered ⟨.blockSequenceStart, c.line, c.column⟩) :=
    ⟨hstarted.counted, ⟨_, hx, by simp⟩, hstarted.keys⟩
  exact stable_givenUp.move (stable_givenUp.push .blockEntry hgiven) rfl rfl rfl rfl

/-- The block mapping that an explicit key opens may be opened in advance. -/
theorem scanKey_entered (hcolumn : c.column = 0) : (start c).scanKey
    = ((start c).entered ⟨.blockMappingStart, c.line, c.column⟩).scanKey := by
  rw [scanKey, scanKey]
  change (((start c).openBlock c.column none .blockMappingStart).dropKey >>= _)
    = (((start c).entered _).openBlock c.column none .blockMappingStart).dropKey >>= _
  rw [openBlock_start hcolumn, openBlock_entered hcolumn]

/-- The block mapping that an empty key opens may be opened in advance. -/
theorem scanValue_entered (hcolumn : c.column = 0) : (start c).scanValue
    = ((start c).entered ⟨.blockMappingStart, c.line, c.column⟩).scanValue := by
  have hvalue : ∀ s : Scanner, s.key = none → s.keyAllowed = true → s.scanValue = .ok
      { (s.openBlock s.cursor.column none .blockMappingStart).push .value with
        cursor := (s.openBlock s.cursor.column none .blockMappingStart).cursor.advance 1
        keyAllowed := !(s.openBlock s.cursor.column none .blockMappingStart).inFlow } := by
    intro s hkey hallowed
    rw [scanValue, hkey, hallowed, Bool.not_true, Bool.and_false]
    rfl
  have hopened : (start c).openBlock (start c).cursor.column none .blockMappingStart
      = ((start c).entered ⟨.blockMappingStart, c.line, c.column⟩).openBlock c.column none
        .blockMappingStart := by
    rw [openBlock_entered hcolumn]
    exact openBlock_start hcolumn _
  rw [hvalue _ rfl rfl, hvalue _ rfl rfl, hopened]
  rfl

theorem scanKey_start {k : ImplicitKey} (hcolumn : c.column = 0) (hscan : (start c).scanKey = .ok t) :
    Comes k t fun l => ((start c).entered l).scanKey := by
  rw [scanKey_entered hcolumn] at hscan
  exact .opened ((stable_started _).scanKey (started_entered _) hscan) hscan

theorem scanValue_start {k : ImplicitKey} (hcolumn : c.column = 0)
    (hscan : (start c).scanValue = .ok t) : Comes k t fun l => ((start c).entered l).scanValue := by
  rw [scanValue_entered hcolumn] at hscan
  exact .opened ((stable_started _).scanValue (started_entered _) hscan) hscan

/-! ## Steps and runs -/

/-- A step that scans no mark, put together from the tokens. -/
theorem comes_scanToken {x : Char} {r : List Char} (hrest : s.cursor.rest = x :: r)
    (hdirective : ¬(s.cursor.column = 0 ∧ x = '%')) (hmark : s.cursor.atDocumentMark = false)
    (hsave : Saves k s) (hline : k.line ≤ s.cursor.line)
    (hflowEnd : ∀ token, token ≠ .blockMappingStart → s.scanFlowEnd token = .ok t →
      Comes k t fun l => (s.entered l).scanFlowEnd token)
    (hflowEntry : s.scanFlowEntry = .ok t → Comes k t fun l => (s.entered l).scanFlowEntry)
    (hblockEntry : s.scanBlockEntry = .ok t → Comes k t fun l => (s.entered l).scanBlockEntry)
    (hkey : s.scanKey = .ok t → Comes k t fun l => (s.entered l).scanKey)
    (hvalue : s.scanValue = .ok t → Comes k t fun l => (s.entered l).scanValue)
    (hblockScalar : ∀ {style}, s.inFlow = false → s.scanBlockScalar style = .ok t → GivenUp t)
    (hscan : s.scanToken = .ok t) : Comes k t fun l => (s.entered l).scanToken := by
  have hdash : ¬(s.cursor.column = 0 ∧ startsDocumentMark '-' (x :: r) = true) := by
    rintro ⟨hc, hd⟩
    rw [Cursor.atDocumentMark, hc, hrest, hd] at hmark
    cases hmark
  have hdot : ¬(s.cursor.column = 0 ∧ startsDocumentMark '.' (x :: r) = true) := by
    rintro ⟨hc, hd⟩
    rw [Cursor.atDocumentMark, hc, hrest, hd, Bool.or_true] at hmark
    cases hmark
  rw [scanToken, hrest] at hscan
  dsimp only at hscan
  rw [if_neg hdirective, if_neg hdash, if_neg hdot] at hscan
  conv =>
    arg 3
    ext l
    rw [scanToken, entered_cursor, hrest]
    dsimp only
    rw [if_neg hdirective, if_neg hdash, if_neg hdot, entered_inFlow]
  revert hscan
  refine Comes.ite (fun _ => hsave.scanFlowStart .flowSequenceStart (by simp)) ?_
  refine Comes.ite (fun _ => hsave.scanFlowStart .flowMappingStart (by simp)) ?_
  refine Comes.ite (fun _ => hflowEnd .flowSequenceEnd (by simp)) ?_
  refine Comes.ite (fun _ => hflowEnd .flowMappingEnd (by simp)) ?_
  refine Comes.ite (fun _ => hflowEntry) ?_
  refine Comes.ite (fun _ => hblockEntry) ?_
  refine Comes.ite (fun _ => hkey) ?_
  refine Comes.ite (fun _ => hvalue) ?_
  refine Comes.ite (fun _ => hsave.scanProperty fun hread => ?_) ?_
  · obtain ⟨name, rfl⟩ := Cursor.readName_eq hread
    simp
  refine Comes.ite (fun _ => hsave.scanProperty fun hread => ?_) ?_
  · obtain ⟨name, rfl⟩ := Cursor.readName_eq hread
    simp
  refine Comes.ite (fun _ => hsave.scanProperty fun hread => ?_) ?_
  · obtain ⟨handle, suffix, rfl⟩ := Cursor.readTag_eq hread
    simp
  refine Comes.ite (fun hflow hscan => comes_givenUp (hblockScalar (by simpa using hflow.2) hscan)) ?_
  refine Comes.ite (fun hflow hscan => comes_givenUp (hblockScalar (by simpa using hflow.2) hscan)) ?_
  refine Comes.ite (fun _ => hsave.scanQuoted) ?_
  refine Comes.ite (fun _ => hsave.scanQuoted) ?_
  refine Comes.ite (fun _ => hsave.scanPlain hline) ?_
  exact fun h => by cases h

variable {e : Excerpt}

theorem Waiting.step {c' : Cursor} (h : Waiting k s) (hcount : 0 < s.count)
    (hline : k.line ≤ s.cursor.line) (hroom : s.cursor.rest.length ≤ s.cursor.size)
    (hin : Cursor.Inside e s.next.cursor c') (hstep : s.step = .ok t) :
    Comes k t fun l => (s.entered l).step := by
  obtain ⟨c, allowed, hle, hnext, hnextl⟩ := toNextToken_eq (s.cursor.rest.length + 1) s
  change s.next = _ at hnext
  rw [step_eq hroom] at hstep
  obtain ⟨u, hdrop, hscan⟩ := bind_eq_ok_iff.1 hstep
  rw [hnext] at hdrop hin
  cases hstale : { s with cursor := c, keyAllowed := allowed }.isStale k with
  | true =>
    have hgiven := (h.move c allowed).dropStaleKeys_stale hcount hstale hdrop
    exact comes_givenUp (stable_givenUp.scanToken (stable_givenUp.closeBlocks hgiven _) hscan)
  | false =>
    obtain ⟨hu, hdropl⟩ := (h.move c allowed).dropStaleKeys_fresh hstale hdrop
    have hcursor : u.cursor = c := dropStaleKeys_cursor hdrop
    have hcountu : 0 < u.count := by rw [dropStaleKeys_eq hdrop]; exact hcount
    rw [hu.closeBlocks_self] at hscan
    cases hrest : u.cursor.rest with
    | nil =>
      rw [scanToken, hrest] at hscan
      exact .lost (hu.scanEnd hscan)
    | cons x r =>
      have hmark := hin.not_mark (hcursor ▸ hrest)
      rw [← hcursor] at hmark
      refine .congr (fun l => ?_) (comes_scanToken hrest hmark.1 hmark.2 (hu.saves hcountu)
        (by rw [hcursor]; exact Nat.le_trans hline hle) (fun token => hu.scanFlowEnd hcountu token)
        (hu.scanFlowEntry hcountu) (hu.scanBlockEntry hcountu) (hu.scanKey hcountu)
        (hu.scanValue hcountu) (hu.scanBlockScalar hcountu) hscan)
      have hnextl : (s.entered l).next = s.next.entered l := hnextl l
      rw [step_eq (s := s.entered l) hroom, hnextl, hnext, hdropl]
      exact congrArg scanToken (closeBlocks_entered u l _)

/-- A scanner on a token, with no key to give up and no block to close, scans the token. -/
theorem step_eq_scanToken {x : Char} {r : List Char} (hrest : s.cursor.rest = x :: r)
    (hx : startsToken x = true) (hroom : s.cursor.rest.length ≤ s.cursor.size)
    (hkey : s.key = none) (houter : s.outerKeys = [])
    (hclose : s.closeBlocks s.cursor.column = s) : s.step = s.scanToken := by
  have hdrop := dropStaleKeys_none hkey (by rw [houter]; simp)
  rw [step_eq hroom, next_spaces (k := 0) hx hrest]
  change s.dropStaleKeys >>= _ = _
  rw [hdrop]
  change (s.closeBlocks s.cursor.column).scanToken = _
  rw [hclose]

theorem step_start {x : Char} {r : List Char} (hrest : c.rest = x :: r) (hx : startsToken x = true)
    (hroom : c.rest.length ≤ c.size) : (start c).step = (start c).scanToken :=
  step_eq_scanToken (s := start c) hrest hx hroom rfl rfl
    (closeBlocks_eq (s := start c) c.column rfl (show _ = levels ([] ++ []) from rfl) (by simp)
      (by simp))

theorem start_step {c' : Cursor} {x : Char} {r : List Char} (hcolumn : c.column = 0)
    (hrest : c.rest = x :: r) (hx : startsToken x = true) (hin : Cursor.Inside e c c')
    (hstep : (start c).step = .ok t) :
    Comes (startKey c) t fun l => ((start c).entered l).step := by
  rw [step_start hrest hx hin.room] at hstep
  obtain ⟨hdirective, hmark⟩ := hin.not_mark hrest
  refine .congr (fun l => step_eq_scanToken (s := (start c).entered l) hrest hx hin.room rfl rfl
    (closeBlocks_entered (start c) l c.column)) ?_
  exact comes_scanToken hrest hdirective hmark (saves_start hcolumn) (Nat.le_refl _)
    (fun token htoken hscan => comes_givenUp (scanFlowEnd_start token htoken hscan))
    (fun hscan => comes_givenUp (scanFlowEntry_start hscan))
    (fun hscan => comes_givenUp (scanBlockEntry_start hcolumn hscan))
    (scanKey_start hcolumn) (scanValue_start hcolumn) (fun _ => scanBlockScalar_start) hstep

variable {below : List Token} {n : Nat} {l : Lexeme} {ls : List Lexeme}

/-- Where a step of the scanner that has entered the block mapping leads. -/
theorem Comes.run {s' : Scanner} {m : Nat} (h : Comes k t fun l => (s.entered l).step)
    (hl : l.token = .blockMappingStart) (hfinished : s.finished = false)
    (hnext : ∀ t', Waiting k t → 0 < t.count → Inside e below n (t.entered l) t' →
      Scanner.run m (t.entered l) = .ok (l :: ls))
    (hin : Inside e below n (s.entered l) s') (hrun : Scanner.run m t = .ok (l :: ls)) :
    Scanner.run (m + 1) (s.entered l) = .ok (l :: ls) := by
  have hunfinished : (s.entered l).finished = false := hfinished
  rw [run_succ m hunfinished]
  cases h with
  | lost hlost => exact absurd hl (hlost m l ls hrun)
  | opened hstarted hstep =>
    cases hstarted.run hrun
    rw [hstep]
    exact hrun
  | waiting ht hcount hstep =>
    rw [hstep]
    obtain ⟨t', -, hin'⟩ | ⟨u, u', -, hend, -⟩ := hin.step (hstep l)
    · exact hnext t' ht hcount hin'
    · have hcontra : t.finished = true := hend.finished
      rw [ht.unfinished] at hcontra
      cases hcontra

theorem Waiting.run_entered (hl : l.token = .blockMappingStart) :
    ∀ {m : Nat} {s s' : Scanner}, Waiting k s → 0 < s.count → Inside e below n (s.entered l) s' →
      run m s = .ok (l :: ls) → run m (s.entered l) = .ok (l :: ls)
  | 0, s, s', _, _, _, hrun => by cases hrun
  | m + 1, s, s', h, hcount, hin, hrun => by
    obtain ⟨upper, hkeys, -⟩ := h.keys
    have hmem : some k.entered ∈ (s.entered l).key :: (s.entered l).outerKeys := by
      change _ ∈ (s.key :: s.outerKeys).map (Option.map ImplicitKey.entered)
      rw [hkeys, List.map_append]
      exact List.mem_append_right _ List.mem_cons_self
    have hline : k.line ≤ s.cursor.line := (hin.entries.keys _ hmem).2
    rw [run_succ m h.unfinished] at hrun
    obtain ⟨t, hstep, hrun⟩ := bind_eq_ok_iff.1 hrun
    obtain ⟨c', hplace⟩ : ∃ c', Cursor.Inside e (s.entered l).next.cursor c' :=
      hin.next.elim (fun h => ⟨_, h.1.cursor⟩) fun ⟨t', h, _⟩ => ⟨_, h.cursor⟩
    have hnext : (s.entered l).next = s.next.entered l :=
      (toNextToken_eq (s.cursor.rest.length + 1) s).elim fun _ ⟨_, _, _, h⟩ => h l
    rw [hnext, entered_cursor] at hplace
    exact (h.step hcount hline hin.cursor.room hplace hstep).run hl h.unfinished
      (fun t' ht hcount hin => run_entered hl ht hcount hin hrun) hin hrun

/-- **A text whose tokens start with a block mapping** is read by the scanner that has entered the
block mapping. -/
theorem run_entered {m : Nat} {s' : Scanner} {x : Char} {r : List Char} (hcolumn : c.column = 0)
    (hrest : c.rest = x :: r) (hx : startsToken x = true) (hl : l.token = .blockMappingStart)
    (hin : Inside e below n ((start c).entered l) s') (hrun : run m (start c) = .ok (l :: ls)) :
    run m ((start c).entered l) = .ok (l :: ls) := by
  cases m with
  | zero => cases hrun
  | succ m =>
    rw [run_succ (s := start c) m rfl] at hrun
    obtain ⟨t, hstep, hrun⟩ := bind_eq_ok_iff.1 hrun
    exact (start_step hcolumn hrest hx hin.cursor hstep).run hl rfl
      (fun t' ht hcount hin => ht.run_entered hl hcount hin hrun) hin hrun

end Scanner

end JobMatrix.Yaml
