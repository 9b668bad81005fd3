import JobMatrix.Proofs.Yaml.Excerpt.Cursor
import JobMatrix.Yaml.Token.Scalar

/-!
# Scalars of an excerpt

Each reader of scalars does the same in a text and in a stream that the text is a part of.  The
loops have more steps to spare in the stream, and none of them uses them up.
-/

set_option autoImplicit false

namespace JobMatrix.Yaml.Cursor.Inside

variable {e : Excerpt} {b c c' : Cursor}

/-! ## Gaps -/

/-- What follows the text starts a comment, and no gap goes on over that. -/
theorem readGap (limit : Int) :
    ∀ {n n' : Nat} {g : Gap} {b c c' : Cursor}, Inside e c c' → Behind b c →
      c.rest.length < n → c'.rest.length < n' →
      Agrees (Alike (Within e b)) (c.readGap limit n g) (c'.readGap limit n' g)
  | n + 1, n' + 1, g, b, c, c', h, hb, hn, hn' => by
    -- The loop goes on with any gap from a place behind.
    have hnext : ∀ {d d' : Cursor}, Inside e d d' → Behind c d → d.rest.length < c.rest.length →
        ∀ g, Agrees (Alike (Within e b)) (d.readGap limit n g) (d'.readGap limit n' g) :=
      fun hd hbehind hlt g =>
        readGap limit hd (hb.trans hbehind) (by omega) (h.shrink hd hlt hn')
    have hstay : Agrees (Alike (Within e b)) (.ok (g, c)) (.ok (g, c')) := .ok ⟨rfl, h, hb⟩
    rw [Cursor.readGap, Cursor.readGap]
    cases hrest : c.rest with
    | nil => obtain hrest' | ⟨after, hrest'⟩ := h.rest_end hrest <;> rw [hrest'] <;> exact hstay
    | cons x r =>
      rw [h.rest_cons hrest]
      dsimp only
      refine .ite rfl (fun hspace => ?_) fun _ => .ite rfl (fun hbreak => ?_) fun _ => hstay
      · have hone := hnext (h.advance_one hrest (isBreak_of_isSpace hspace)) (behind_advance c 1)
          (length_advance_one hrest)
        rw [h.column]
        exact .ite rfl (fun _ => .error) fun _ => .ite rfl (fun _ => hone _) fun _ => hone _
      · have hsees : c.sees isBreak = true := by rw [Cursor.sees, hrest]; exact hbreak
        have hline := hnext (h.nextLine hsees) (behind_nextLine hsees) (length_rest_nextLine hsees)
        rw [h.breakText]
        exact .ite rfl (fun _ => hline _) fun _ => hline _

/-! ## Plain scalars -/

/-- A word of a plain scalar has no line breaks, and does not depend on what follows the text. -/
theorem plainWord?_append {flow : Bool} {after : List Char} :
    ∀ {r : List Char}, r ≠ [] → (∀ x ∈ r.getLast?, isBreak x = true) →
      plainWord? flow (r ++ after) = plainWord? flow r
  | [], h, _ => absurd rfl h
  | x :: r, _, hlast => by
    rw [List.cons_append, plainWord?, plainWord?]
    by_cases hblank : (isSpace x || isBreak x) = true
    · rw [if_pos hblank, if_pos hblank]
    · rw [if_neg hblank, if_neg hblank]
      have hr : r ≠ [] := by
        rintro rfl
        rw [hlast x rfl, Bool.or_true] at hblank
        exact hblank rfl
      obtain ⟨y, r, rfl⟩ := List.exists_cons_of_ne_nil hr
      rw [plainWord?_append hr hlast]
      rfl

/-- A word is a start of the text without line breaks. -/
theorem plainWord?_spec {flow : Bool} :
    ∀ {cs w : List Char}, plainWord? flow cs = some w →
      ∃ r, cs = w ++ r ∧ ∀ x ∈ w, isBreak x = false
  | [], w, h => by
    cases h
    exact ⟨[], rfl, fun _ hx => absurd hx List.not_mem_nil⟩
  | x :: cs, w, h => by
    have hstop : some [] = some w → ∃ r, x :: cs = w ++ r ∧ ∀ y ∈ w, isBreak y = false := by
      rintro ⟨⟩
      exact ⟨x :: cs, rfl, fun _ hy => absurd hy List.not_mem_nil⟩
    rw [plainWord?] at h
    split at h
    · exact hstop h
    · rename_i hblank
      simp only [Bool.or_eq_true, not_or, Bool.not_eq_true] at hblank
      split at h
      · cases h
      · split at h
        · exact hstop h
        · split at h
          · exact hstop h
          · obtain ⟨w, hw, rfl⟩ := Option.map_eq_some_iff.1 h
            obtain ⟨r, rfl, hall⟩ := plainWord?_spec hw
            refine ⟨r, rfl, fun y hy => ?_⟩
            rcases List.mem_cons.1 hy with rfl | hy
            · exact hblank.2
            · exact hall y hy

theorem atDocumentMark_nil (hrest : c.rest = []) : c.atDocumentMark = false := by
  rw [Cursor.atDocumentMark, hrest]
  exact Bool.and_false _

/-- At the end of the text both readings stop: the one because nothing is left, the other at the
comment behind the text. -/
theorem readPlainWords (flow : Bool) (indent : Int) :
    ∀ {n n' : Nat} {words : List (List Char)} {gap : Gap} {b c c' : Cursor}, Inside e c c' →
      Behind b c → c.rest.length < n → c'.rest.length < n' →
      Agrees (Alike (Alike (Within e b))) (c.readPlainWords flow indent n words gap)
        (c'.readPlainWords flow indent n' words gap)
  | n + 1, n' + 1, words, gap, b, c, c', h, hb, hn, hn' => by
    have hstay : Agrees (Alike (Alike (Within e b))) (.ok (words, gap.broken, c))
        (.ok (words, gap.broken, c')) := .ok ⟨rfl, rfl, h, hb⟩
    rw [Cursor.readPlainWords, Cursor.readPlainWords]
    cases hrest : c.rest with
    | nil =>
      rw [atDocumentMark_nil hrest, at?_eq hrest]
      obtain hrest' | ⟨after, hrest'⟩ := h.rest_end hrest
      · rw [atDocumentMark_nil hrest', at?_eq hrest', hrest']
        exact hstay
      · rw [at?_eq hrest', h.atDocumentMark, atDocumentMark_nil hrest]
        exact hstay
    | cons x r =>
      have hcomment : c'.at? '#' = c.at? '#' := by
        rw [at?_eq hrest, at?_eq (h.rest_cons hrest)]
        rfl
      rw [h.atDocumentMark, hcomment]
      refine .ite rfl (fun _ => hstay) fun _ => ?_
      have hne : c.rest ≠ [] := by rw [hrest]; exact List.cons_ne_nil x r
      rw [h.rest, plainWord?_append hne h.last, ← hrest]
      cases hword : plainWord? flow c.rest with
      | none => exact .error
      | some w =>
        cases w with
        | nil => exact hstay
        | cons y w =>
          obtain ⟨r', hsplit, hall⟩ := plainWord?_spec hword
          have hd := h.advance hsplit hall
          have hlt : (c.advance (y :: w).length).rest.length < c.rest.length := by
            rw [rest_advance hsplit, hsplit, List.length_append, List.length_cons]
            omega
          have hbehind := hb.trans (behind_advance c (y :: w).length)
          dsimp only
          refine .ite (by rw [hd.sees rfl]) (fun _ => .ok ⟨rfl, rfl, hd, hbehind⟩) fun _ => ?_
          refine (hd.readGap indent (.refl _) hd.room_lt hd.room_lt').bind ?_
          rintro ⟨_, d⟩ ⟨g, d'⟩ ⟨rfl, hd'⟩
          have hwithin : Within e _ d d' := hd'
          have hlt' : d.rest.length < c.rest.length := Nat.lt_of_le_of_lt hwithin.behind.le hlt
          dsimp only
          rw [hwithin.column]
          exact .ite rfl (fun _ => .ok ⟨rfl, rfl, hwithin.mono hbehind⟩) fun _ =>
            readPlainWords flow indent hwithin.toInside (hbehind.trans hwithin.behind)
              (Nat.lt_of_lt_of_le hlt' (Nat.le_of_lt_succ hn)) (h.shrink hwithin.toInside hlt' hn')

theorem readPlain (flow : Bool) (indent : Int) (h : Inside e c c') :
    Agrees (Alike (Alike (Within e c))) (c.readPlain flow indent) (c'.readPlain flow indent) := by
  refine (h.readPlainWords flow indent (.refl c) h.room_lt h.room_lt').bind ?_
  rintro ⟨_, _, d⟩ ⟨words, broken, d'⟩ ⟨rfl, rfl, hd⟩
  exact .ok ⟨rfl, rfl, hd⟩

/-! ## Quoted scalars -/

theorem hexValue?_isBreak {x : Char} {d : Nat} (h : hexValue? x = some d) : isBreak x = false := by
  cases hx : isBreak x with
  | false => rfl
  | true =>
    simp only [isBreak, Bool.or_eq_true, beq_iff_eq] at hx
    have hnone : hexValue? x = none := by
      obtain (((rfl | rfl) | rfl) | rfl) | rfl := hx <;> decide
    rw [hnone] at h
    cases h

/-- The digits of a number are on one line, and what follows them does not matter. -/
theorem hexNumber?_spec (after : List Char) :
    ∀ {n : Nat} {cs : List Char} {v x : Nat}, hexNumber? n cs v = some x →
      hexNumber? n (cs ++ after) v = some x ∧
        ∃ w r, cs = w ++ r ∧ w.length = n ∧ ∀ y ∈ w, isBreak y = false
  | 0, cs, v, x, h => ⟨h, [], cs, rfl, rfl, fun _ hy => absurd hy List.not_mem_nil⟩
  | n + 1, [], v, x, h => by cases h
  | n + 1, y :: cs, v, x, h => by
    obtain ⟨d, hd, hx⟩ := Option.bind_eq_some_iff.1 h
    obtain ⟨happend, w, r, rfl, rfl, hw⟩ := hexNumber?_spec after hx
    refine ⟨Option.bind_eq_some_iff.2 ⟨d, hd, happend⟩, y :: w, r, rfl, rfl, fun z hz => ?_⟩
    rcases List.mem_cons.1 hz with rfl | hz
    · exact hexValue?_isBreak hd
    · exact hw z hz

/-- An escape of anything but a line break is a run of characters of one line. -/
theorem readEscape {x : Char} {r : List Char} (h : Inside e c c') (hrest : c.rest = x :: r)
    (hx : isBreak x = false) (hbreak : r.head?.any isBreak = false) :
    Agrees (Alike (Amid e (c.advance 1))) c.readEscape c'.readEscape := by
  obtain ⟨letter, r, rfl⟩ := List.exists_cons_of_ne_nil (h.tail_ne hrest hx)
  have hletter : isBreak letter = false := hbreak
  -- The escape is a run of characters of one line, of which the first two are given.
  have hover : ∀ {w r' : List Char}, r = w ++ r' → (∀ y ∈ w, isBreak y = false) →
      Amid e (c.advance 1) (c.advance (2 + w.length)) (c'.advance (2 + w.length)) := by
    rintro w r' rfl hw
    have hlength : (x :: letter :: w).length = 2 + w.length := by
      rw [List.length_cons, List.length_cons]
      omega
    have hd := h.advance (w := x :: letter :: w) (r := r') (by rw [hrest]; rfl) fun y hy => by
      rcases List.mem_cons.1 hy with rfl | hy
      · exact hx
      · rcases List.mem_cons.1 hy with rfl | hy
        · exact hletter
        · exact hw y hy
    rw [hlength] at hd
    have hone : 2 + w.length = 1 + (1 + w.length) := by omega
    refine ⟨⟨hd, ?_⟩, ?_⟩
    · rw [hone, ← advance_advance]
      exact behind_advance _ _
    · rw [advance_column]
      omega
  rw [Cursor.readEscape, Cursor.readEscape, hrest, h.rest_cons hrest]
  dsimp only [List.cons_append]
  cases hchar : escapedChar? letter with
  | some y => exact .ok ⟨rfl, hover (w := []) rfl fun _ hy => absurd hy List.not_mem_nil⟩
  | none =>
    cases hdigits : escapeDigits? letter with
    | none => exact .error
    | some digits =>
      dsimp only
      cases hnumber : hexNumber? digits r 0 with
      | none => exact .error
      | some n =>
        obtain ⟨happend, w, r', rfl, rfl, hw⟩ := hexNumber?_spec e.after hnumber
        rw [happend]
        dsimp only
        split
        · exact .ok ⟨rfl, hover rfl hw⟩
        · exact .error

/-- Where a word starts the text is not at its end.  Each character of the word leaves some of its
line, so the text can end behind an escaped line break only, where the word ends as well. -/
theorem readQuotedWord (double : Bool) :
    ∀ {n n' : Nat} {word : List Char} {b c c' : Cursor}, Inside e c c' → c.rest ≠ [] →
      Behind b c → c.rest.length < n → c'.rest.length < n' →
      Agrees (Alike (Alike (Within e b))) (c.readQuotedWord double n word)
        (c'.readQuotedWord double n' word)
  | n + 1, n' + 1, word, b, c, c', h, hne, hb, hn, hn' => by
    have hstay : Agrees (Alike (Alike (Within e b))) (.ok (word, false, c)) (.ok (word, false, c')) :=
      .ok ⟨rfl, rfl, h, hb⟩
    obtain ⟨x, r, hrest⟩ := List.exists_cons_of_ne_nil hne
    have hbehind := hb.trans (behind_advance c 1)
    -- The loop goes on from a place behind that is not the start of a line.
    have hnext : ∀ {d d' : Cursor} (word : List Char), Amid e (c.advance 1) d d' →
        Agrees (Alike (Alike (Within e b))) (d.readQuotedWord double n word)
          (d'.readQuotedWord double n' word) := by
      intro d d' word hd
      have hlt : d.rest.length < c.rest.length :=
        Nat.lt_of_le_of_lt hd.behind.le (length_advance_one hrest)
      exact readQuotedWord double hd.toInside (hd.rest_ne_nil hd.column_ne)
        (hbehind.trans hd.behind) (Nat.lt_of_lt_of_le hlt (Nat.le_of_lt_succ hn))
        (h.shrink hd.toInside hlt hn')
    rw [Cursor.readQuotedWord, Cursor.readQuotedWord, hrest, h.rest_cons hrest]
    dsimp only
    refine .ite rfl (fun _ => hstay) fun hblank => ?_
    have hx : isBreak x = false := (Bool.or_eq_false_iff.1 hblank).2
    have hone := h.amid_one hrest hx
    obtain ⟨y, r, rfl⟩ := List.exists_cons_of_ne_nil (h.tail_ne hrest hx)
    have hsecond : (c.advance 1).rest = y :: r := by
      rw [advance_rest, hrest]
      rfl
    refine .ite rfl (fun hquote => .ite rfl (fun htwice => ?_) fun _ => hstay) fun _ => ?_
    · have hy : y = '\x27' := Option.some.inj (eq_of_beq htwice)
      have htwo := hone.toWithin.amid_at (x := y) (by rw [at?_eq hsecond]; exact beq_self_eq_true _)
        (by rw [hy]; rfl)
      rw [advance_advance, advance_advance] at htwo
      exact hnext _ htwo
    · refine .ite rfl (fun _ => hstay) fun _ => .ite rfl (fun _ => ?_) fun _ => hnext _ hone
      refine .ite rfl (fun hbreak => ?_) fun hbreak => ?_
      · have hsees : (c.advance 1).sees isBreak = true := by
          rw [sees_eq hsecond]
          exact hbreak
        exact .ok ⟨rfl, rfl, hone.toInside.nextLine hsees, hbehind.trans (behind_nextLine hsees)⟩
      · refine (h.readEscape hrest hx hbreak).bind ?_
        rintro ⟨_, d⟩ ⟨z, d'⟩ ⟨rfl, hd⟩
        exact hnext _ hd

/-- The closing quote must come in the text.  Otherwise it is not read by itself, and nothing is said
about the stream. -/
theorem readQuotedWords (double : Bool) :
    ∀ {n n' : Nat} {words : List (List Char)} {b c c' : Cursor}, Inside e c c' → Behind b c →
      n ≤ n' → Agrees (Alike (Within e b)) (c.readQuotedWords double n words)
        (c'.readQuotedWords double n' words)
  | 0, n', words, b, c, c', h, hb, hn => .error
  | n + 1, n' + 1, words, b, c, c', h, hb, hn => by
    rw [Cursor.readQuotedWords, Cursor.readQuotedWords]
    refine .ite h.atDocumentMark (fun _ => .error) fun _ => ?_
    cases hend : c.atEnd with
    | true => exact .error
    | false =>
      have hne : c.rest ≠ [] := by
        intro hnil
        rw [Cursor.atEnd, hnil] at hend
        cases hend
      rw [h.atEnd_eq_false hend]
      refine (h.readQuotedWord double hne hb h.room_lt h.room_lt').bind ?_
      rintro ⟨_, _, d⟩ ⟨word, broken, d'⟩ ⟨rfl, rfl, hd⟩
      have hwithin : Within e b d d' := hd
      have hquote : (if double then '"' else '\x27') ≠ '#' ∧
          isBreak (if double then '"' else '\x27') = false := by
        cases double <;> decide
      refine .ite (hwithin.at? hquote.1) (fun hat => ?_) fun _ => ?_
      · exact .ok ⟨rfl, (hwithin.amid_at hat hquote.2).toWithin⟩
      · refine (hwithin.readGap (-1) hwithin.behind hwithin.room_lt hwithin.room_lt').bind ?_
        rintro ⟨_, d⟩ ⟨g, d'⟩ ⟨rfl, hd⟩
        exact readQuotedWords double hd.toInside hd.behind (Nat.le_of_succ_le_succ hn)

theorem readQuoted (double : Bool) {x : Char} {r : List Char} (h : Inside e c c')
    (hrest : c.rest = x :: r) (hx : isBreak x = false) :
    Agrees (Alike (Within e c)) (c.readQuoted double) (c'.readQuoted double) := by
  refine ((h.advance_one hrest hx).readQuotedWords double (behind_advance c 1)
    (Nat.succ_le_succ h.size)).bind ?_
  rintro ⟨_, d⟩ ⟨words, d'⟩ ⟨rfl, hd⟩
  exact .ok ⟨rfl, hd⟩

/-! ## Block scalars -/

theorem readIndentation (h : Amid e b c c') :
    Agrees (Alike (Amid e b)) c.readIndentation c'.readIndentation := by
  obtain ⟨x, r, hrest⟩ := List.exists_cons_of_ne_nil (h.rest_ne_nil h.column_ne)
  rw [Cursor.readIndentation, Cursor.readIndentation, hrest, h.rest_cons hrest]
  dsimp only
  refine .ite rfl (fun _ => .error) fun _ => .ite rfl (fun hdigit => ?_) fun _ => .ok ⟨rfl, h⟩
  have hx : isBreak x = false := by
    cases hx : isBreak x with
    | false => rfl
    | true =>
      simp only [isBreak, Bool.or_eq_true, beq_iff_eq] at hx
      obtain (((rfl | rfl) | rfl) | rfl) | rfl := hx <;> cases hdigit
  exact .ok ⟨rfl, (h.toInside.amid_one hrest hx).mono (h.behind.trans (behind_advance c 1))⟩

/-- Both read a chomping indicator, or neither does. -/
theorem readChomping (h : Amid e b c c') :
    (c.readChomping = none ∧ c'.readChomping = none) ∨
      ∃ x d d', c.readChomping = some (x, d) ∧ c'.readChomping = some (x, d') ∧ Amid e b d d' := by
  rw [Cursor.readChomping, Cursor.readChomping, h.at? (by decide), h.at? (by decide)]
  cases hplus : c.at? '+' with
  | true => exact .inr ⟨_, _, _, rfl, rfl, h.amid_at hplus rfl⟩
  | false =>
    cases hminus : c.at? '-' with
    | true => exact .inr ⟨_, _, _, rfl, rfl, h.amid_at hminus rfl⟩
    | false => exact .inl ⟨rfl, rfl⟩

/-- The two indicators may come in either order. -/
theorem readBlockHeader (h : Amid e b c c') :
    Agrees (Alike (Alike (Amid e b))) c.readBlockHeader c'.readBlockHeader := by
  rw [Cursor.readBlockHeader, Cursor.readBlockHeader]
  obtain ⟨hnone, hnone'⟩ | ⟨x, d, d', hsome, hsome', hd⟩ := readChomping h
  · rw [hnone, hnone']
    refine (readIndentation h).bind ?_
    rintro ⟨_, d⟩ ⟨i, d'⟩ ⟨rfl, hd⟩
    dsimp only
    split
    · exact .ok ⟨rfl, rfl, hd⟩
    · obtain ⟨hnone, hnone'⟩ | ⟨x, f, f', hsome, hsome', hf⟩ := readChomping hd
      · rw [hnone, hnone']
        exact .ok ⟨rfl, rfl, hd⟩
      · rw [hsome, hsome']
        exact .ok ⟨rfl, rfl, hf⟩
  · rw [hsome, hsome']
    refine (readIndentation hd).bind ?_
    rintro ⟨_, f⟩ ⟨i, f'⟩ ⟨rfl, hf⟩
    exact .ok ⟨rfl, rfl, hf⟩

theorem readEmptyLines (indent : Nat) :
    ∀ {n n' deepest : Nat} {breaks : List Char} {b c c' : Cursor}, Inside e c c' →
      Behind b c → c.rest.length < n → c'.rest.length < n' →
      Agrees (Alike (Alike (Within e b))) (c.readEmptyLines indent n deepest breaks)
        (c'.readEmptyLines indent n' deepest breaks)
  | n + 1, n' + 1, deepest, breaks, b, c, c', h, hb, hn, hn' => by
    have hspan : c'.span (· == ' ') = c.span (· == ' ') :=
      h.span (fun x hx => by
        rw [beq_eq_false_iff_ne]
        rintro rfl
        cases hx) (.inl rfl)
    rw [Cursor.readEmptyLines, Cursor.readEmptyLines, hspan, h.column]
    have hd := h.advance_take (p := (· == ' '))
      (if indent = 0 then (c.span (· == ' ')).length
        else min (c.span (· == ' ')).length (indent - c.column))
      (by split <;> omega) (fun x hx => by
        rw [beq_eq_false_iff_ne]
        rintro rfl
        cases hx)
    have hbehind := behind_advance c (if indent = 0 then (c.span (· == ' ')).length
        else min (c.span (· == ' ')).length (indent - c.column))
    generalize (if indent = 0 then (c.span (· == ' ')).length
      else min (c.span (· == ' ')).length (indent - c.column)) = k at hd hbehind ⊢
    rw [hd.column, hd.at? (by decide), hd.breakText]
    refine .ite rfl (fun _ => .error) fun _ => .ite (hd.sees rfl) (fun hbreak => ?_) fun _ =>
      .ok ⟨rfl, rfl, hd, hb.trans hbehind⟩
    have hlt := Nat.lt_of_lt_of_le (length_rest_nextLine hbreak) hbehind.le
    exact readEmptyLines indent (hd.nextLine hbreak)
      ((hb.trans hbehind).trans (behind_nextLine hbreak)) (by omega)
      (h.shrink (hd.nextLine hbreak) hlt hn')

/-- The lines of a block scalar are indented, and the end of the text is the start of a line, so the
scalar ends there at the latest. -/
theorem readBlockLines (literal : Bool) {indent : Nat} (hindent : indent ≠ 0) :
    ∀ {n n' : Nat} {lines : List (List Char)} {first more : List Char} {blank : Bool}
      {b c c' : Cursor}, Inside e c c' → Behind b c → c.rest.length < n → c'.rest.length < n' →
      Agrees (Alike (Alike (Alike (Within e b))))
        (c.readBlockLines literal indent n lines first more blank)
        (c'.readBlockLines literal indent n' lines first more blank)
  | n + 1, n' + 1, lines, first, more, blank, b, c, c', h, hb, hn, hn' => by
    have hstay : Agrees (Alike (Alike (Alike (Within e b)))) (.ok (lines, first, more, c))
        (.ok (lines, first, more, c')) := .ok ⟨rfl, rfl, rfl, h, hb⟩
    rw [Cursor.readBlockLines, Cursor.readBlockLines, h.column]
    by_cases hcolumn : c.column = indent
    · have hne : c.rest ≠ [] := h.rest_ne_nil (by rw [hcolumn]; exact hindent)
      have hend : c.atEnd = false := by
        rw [Cursor.atEnd]
        exact List.isEmpty_eq_false_iff.2 hne
      have hgo : ¬(c.column ≠ indent ∨ c.atEnd = true) := by
        rw [hend]
        simp [hcolumn]
      have hgo' : ¬(c.column ≠ indent ∨ c'.atEnd = true) := by
        rw [h.atEnd_eq_false hend]
        simp [hcolumn]
      have hbreak : ∀ x, isBreak x = true → (!isBreak x) = false := fun x hx => by rw [hx]; rfl
      have hline := h.span hbreak (.inr hne)
      have hd := h.advance_take _ (Nat.le_refl _) hbreak
      rw [if_neg hgo, if_neg hgo', h.sees rfl, hline]
      dsimp only
      rw [hd.breakText]
      refine (hd.skipBreak.readEmptyLines indent (.refl _)
        (Nat.lt_of_le_of_lt (behind_skipBreak _).le hd.room_lt)
        (Nat.lt_of_le_of_lt (behind_skipBreak _).le hd.room_lt')).bind ?_
      rintro ⟨_, _, f⟩ ⟨deepest, breaks, f'⟩ ⟨rfl, rfl, hf⟩
      have hwithin : Within e _ f f' := hf
      have hbehind := (hb.trans (behind_advance c (c.span (!isBreak ·)).length)).trans
        (behind_skipBreak _)
      have hlt : f.rest.length < c.rest.length :=
        Nat.lt_of_le_of_lt hwithin.behind.le (h.length_skipBreak hne)
      exact readBlockLines literal hindent hwithin.toInside (hbehind.trans hwithin.behind)
        (Nat.lt_of_lt_of_le hlt (Nat.le_of_lt_succ hn)) (h.shrink hwithin.toInside hlt hn')
    · rw [if_pos (.inl hcolumn), if_pos (.inl hcolumn)]
      exact hstay

theorem readBlock (literal : Bool) (parent : Int) {x : Char} {r : List Char} (h : Inside e c c')
    (hrest : c.rest = x :: r) (hx : isBreak x = false) :
    Agrees (Alike (Within e c)) (c.readBlock literal parent)
      (c'.readBlock literal parent) := by
  refine (readBlockHeader (h.amid_one hrest hx)).bind ?_
  rintro ⟨_, _, d⟩ ⟨chomping, indentation, d'⟩ ⟨rfl, rfl, hd⟩
  have hamid : Amid e (c.advance 1) d d' := hd
  obtain ⟨htrailer, hcolumn⟩ := hamid.skipTrailer hamid.column_ne
  have hbreak := htrailer.skipBreak
  have hbehind := (((behind_advance c 1).trans hamid.behind).trans (behind_skipTrailer d)).trans
    (behind_skipBreak _)
  dsimp only
  refine .ite (by rw [htrailer.endsLine_rest (htrailer.rest_ne_nil hcolumn)])
    (fun _ => .error) fun _ => ?_
  refine (hbreak.readEmptyLines _ hbehind hbreak.room_lt hbreak.room_lt').bind ?_
  rintro ⟨_, _, f⟩ ⟨deepest, breaks, f'⟩ ⟨rfl, rfl, hf⟩
  have hinside : Inside e f f' := hf.toInside
  have hindent : (if (if indentation = 0 then 0 else (max parent 0).toNat + indentation) = 0
      then max deepest (max (parent + 1).toNat 1)
      else if indentation = 0 then 0 else (max parent 0).toNat + indentation) ≠ 0 := by
    by_cases hi : indentation = 0
    · rw [if_pos hi, if_pos rfl]
      omega
    · rw [if_neg hi]
      split <;> omega
  refine (hinside.readBlockLines literal ?_ hf.behind hinside.room_lt hinside.room_lt').bind ?_
  · exact hindent
  · rintro ⟨_, _, _, g⟩ ⟨lines, first, more, g'⟩ ⟨rfl, rfl, rfl, hg⟩
    exact .ok ⟨rfl, hg⟩

end JobMatrix.Yaml.Cursor.Inside
