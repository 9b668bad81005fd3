import JobMatrix.Proofs.Yaml.Excerpt.Token
import JobMatrix.Proofs.Yaml.Token.Line

/-!
# Runs over an excerpt

A scanner inside a stream follows a scanner of the text step by step, until the text ends
(`Scanner.Inside.run`).
-/

set_option autoImplicit false

namespace JobMatrix.Yaml

namespace Scanner

variable {e : Excerpt} {below : List Token} {n : Nat} {s s' : Scanner} {x : Char} {r : List Char}

/-- The step that scans the end of the text. -/
def EndsWith (s s' : Scanner) : Prop :=
  s.cursor.rest = [] ∧
    ∃ t, s.dropStaleKeys = .ok t ∧ (t.closeBlocks t.cursor.column).scanEnd = .ok s'

theorem EndsWith.finished (h : EndsWith s s') : s'.finished = true := by
  obtain ⟨-, t, -, hscan⟩ := h
  obtain ⟨u, -, hscan⟩ := bind_eq_ok_iff.1 hscan
  cases hscan
  rfl

/-! ## To the next token -/

namespace Inside

theorem trimmed (h : Inside e below n s s') (hne : s.cursor.rest ≠ []) :
    Cursor.Inside e s.trimmed s'.trimmed ∧ s.trimmed.rest ≠ [] := by
  have hmark : ∀ {c c' : Cursor}, Cursor.Inside e c c' → c.rest ≠ [] →
      Cursor.Inside e (if c.column == 0 && c.at? byteOrderMark then c.advance 1 else c)
        (if c'.column == 0 && c'.at? byteOrderMark then c'.advance 1 else c') ∧
      (if c.column == 0 && c.at? byteOrderMark then c.advance 1 else c).rest ≠ [] := by
    intro c c' hc hne
    rw [hc.column, hc.at? (by decide)]
    split
    · rename_i hat
      have hamid := hc.within.amid_at (Bool.and_eq_true_iff.1 hat).2 (by decide)
      exact ⟨hamid.toInside, hamid.rest_ne_nil hamid.column_ne⟩
    · exact ⟨hc, hne⟩
  have hskip : ∀ {c c' : Cursor} {p : Char → Bool}, Cursor.Inside e c c' → c.rest ≠ [] →
      (∀ x, isBreak x = true → p x = false) →
      Cursor.Inside e (c.skip p) (c'.skip p) ∧ (c.skip p).rest ≠ [] :=
    fun hc hne hbreak => ⟨hc.skip hbreak (.inr hne), hc.skip_ne_nil hne hbreak⟩
  have hcomment : ∀ {c c' : Cursor}, Cursor.Inside e c c' → c.rest ≠ [] →
      Cursor.Inside e (if c.at? '#' then c.skip (!isBreak ·) else c)
        (if c'.at? '#' then c'.skip (!isBreak ·) else c') ∧
      (if c.at? '#' then c.skip (!isBreak ·) else c).rest ≠ [] := by
    intro c c' hc hne
    rw [hc.at?_comment hne]
    split
    · exact hskip hc hne fun x hx => by rw [hx]; rfl
    · exact ⟨hc, hne⟩
  obtain ⟨hc, hne⟩ := hmark h.cursor hne
  rw [Scanner.trimmed, Scanner.trimmed, h.inFlow, h.keyAllowed]
  obtain ⟨hc, hne⟩ := hskip (p := fun x => x == ' ' || ((s.inFlow || !s.keyAllowed) && x == '\t'))
    hc hne fun x hx => by
      have hspace := Cursor.isSpace_of_isBreak hx
      rw [isSpace, Bool.or_eq_false_iff] at hspace
      rw [hspace.1, hspace.2, Bool.and_false, Bool.or_false]
  exact hcomment hc hne

theorem broken (h : Inside e below n s s') (hne : s.cursor.rest ≠ [])
    (hbreak : s.trimmed.sees isBreak = true) : Inside e below n s.broken s'.broken := by
  obtain ⟨hc, -⟩ := h.trimmed hne
  have hbehind := s.behind_trimmed.trans (Cursor.behind_nextLine hbreak)
  have hmoved := h.move ⟨hc.nextLine hbreak, hbehind⟩ (s.keyAllowed || !s.inFlow)
  exact { hmoved with keyAllowed := by rw [Scanner.broken, h.keyAllowed, h.inFlow]; rfl }

/-- The scanner inside the stream comes to the same token, or, where the text has no more token,
to the end of the text. -/
theorem next {s s' : Scanner} (h : Inside e below n s s') :
    (Inside e below n s.next s'.next ∧ s.next.cursor.rest ≠ [] ∧
        s.next.cursor.sees isBreak = false) ∨
      ∃ t', Inside e below n s.next t' ∧ s.next.cursor.rest = [] ∧ s'.next = t'.next := by
  by_cases hne : s.cursor.rest = []
  · have hself : s.next = s := by
      rw [next_eq, trimmed_nil hne, Cursor.sees_eq hne]
      rfl
    rw [hself]
    exact .inr ⟨s', h, hne, rfl⟩
  · obtain ⟨hc, hne'⟩ := h.trimmed hne
    have hsees : s'.trimmed.sees isBreak = s.trimmed.sees isBreak := hc.sees rfl
    rw [next_eq s, next_eq s', hsees]
    cases hbreak : s.trimmed.sees isBreak with
    | true =>
      have hlt := length_rest_broken hbreak
      exact (h.broken hne hbreak).next
    | false =>
      have hmoved := h.move ⟨hc, s.behind_trimmed⟩ s.keyAllowed
      exact .inl ⟨{ hmoved with keyAllowed := h.keyAllowed }, hne', hbreak⟩
termination_by s.cursor.rest.length

/-! ## Steps -/

/-- **A step inside a stream** is a step of the text, unless the text ends. -/
theorem step {t : Scanner} (h : Inside e below n s s') (hstep : s.step = .ok t) :
    (∃ t', s'.step = .ok t' ∧ Inside e below n t t') ∨
      ∃ u u', Inside e below n u u' ∧ EndsWith u t ∧ s'.step = u'.step := by
  rw [step_eq h.cursor.room] at hstep
  obtain ⟨u, hu, hscan⟩ := bind_eq_ok_iff.1 hstep
  have hcursor := dropStaleKeys_cursor hu
  obtain ⟨hnext, hne, hsees⟩ | ⟨u', hinside, hrest, hnext⟩ := h.next
  · obtain ⟨x, r, hrest⟩ := List.exists_cons_of_ne_nil hne
    have hx : isBreak x = false := by
      rw [Cursor.sees_eq hrest] at hsees
      exact hsees
    obtain ⟨u', hu', hinside⟩ := hnext.dropStaleKeys u hu
    have hclosed := hinside.closeBlocks u.cursor.column
    have hrest' : (u.closeBlocks u.cursor.column).cursor.rest = x :: r := by
      rw [closeBlocks_cursor, hcursor, hrest]
    obtain ⟨t', ht', hscanned⟩ := hclosed.scanToken hrest' hx t hscan
    refine .inl ⟨t', ?_, hscanned⟩
    rw [step_eq h.cursor.room', hu']
    rw [← hinside.cursor.column] at ht'
    exact ht'
  · have hend : (u.closeBlocks u.cursor.column).cursor.rest = [] := by
      rw [closeBlocks_cursor, hcursor, hrest]
    rw [Scanner.scanToken, hend] at hscan
    refine .inr ⟨s.next, u', hinside, ⟨hrest, u, hu, hscan⟩, ?_⟩
    rw [step_eq h.cursor.room', step_eq hinside.cursor.room', hnext]

/-- **A run inside a stream** comes to the end of the text, and has used up no more steps than the
run over the text alone. -/
theorem run {ls : List Lexeme} :
    ∀ {m : Nat} {s s' : Scanner}, Inside e below n s s' → run m s = .ok ls →
      ∃ k u u' t, k + 2 ≤ m ∧ Inside e below n u u' ∧ EndsWith u t ∧ ls = t.lexemes.reverse ∧
        ∀ m', Scanner.run (m' + 1 + k) s' = Scanner.run (m' + 1) u'
  | 0, s, s', h, hrun => by cases hrun
  | m + 1, s, s', h, hrun => by
    have hfinished' : s'.finished = false := by rw [h.finished, h.entries.unfinished]
    rw [run_succ m h.entries.unfinished] at hrun
    obtain ⟨t, ht, hrun⟩ := bind_eq_ok_iff.1 hrun
    obtain ⟨t', ht', hinside⟩ | ⟨u, u', hinside, hend, hstep⟩ := h.step ht
    · obtain ⟨k, u, u', v, hk, hu, hend, hls, hrest⟩ := Inside.run hinside hrun
      refine ⟨k + 1, u, u', v, Nat.succ_le_succ hk, hu, hend, hls, fun m' => ?_⟩
      rw [← Nat.add_assoc, run_succ _ hfinished', ht', ← hrest m']
      rfl
    · cases m with
      | zero => cases hrun
      | succ m =>
        rw [Scanner.run, hend.finished] at hrun
        cases hrun
        refine ⟨0, u, u', t, Nat.le_add_left _ _, hinside, hend, rfl, fun m' => ?_⟩
        have hunfinished : u'.finished = false := by
          rw [hinside.finished, hinside.entries.unfinished]
        rw [Nat.add_zero, run_succ _ hfinished', run_succ _ hunfinished, hstep]

end Inside

end Scanner

end JobMatrix.Yaml
