import JobMatrix.Proofs.Yaml.Token.Cursor
import Mathlib.Data.List.TakeWhile

/-!
# Places in an excerpt

A text that ends with a line break can be read by itself or as a part of a longer stream.  An
`Excerpt` says where in the stream it stands; what follows it is nothing or a comment.
`Cursor.Inside` relates a place in the text to the same place in the stream.

What a reader sees at the two places is the same, as long as it does not look past the last line
break; `Agrees` says this of two results.
-/

set_option autoImplicit false

namespace JobMatrix.Yaml

/-- A directive or a document mark stands at the start of the rest. -/
def startsMark (cs : List Char) : Bool :=
  cs.head? == some '%' || startsDocumentMark '-' cs || startsDocumentMark '.' cs

/-- Behind no line break a line with a mark follows. -/
def Unmarked : List Char → Prop
  | [] => True
  | x :: cs => (isBreak x = true → startsMark cs = false) ∧ Unmarked cs

namespace Unmarked

variable {w r : List Char}

theorem right : ∀ {w : List Char}, Unmarked (w ++ r) → Unmarked r
  | [], h => h
  | _ :: w, h => right (w := w) h.2

theorem behind {x : Char} (hx : x ∈ w.getLast?) (hbreak : isBreak x = true) :
    Unmarked (w ++ r) → startsMark r = false := by
  obtain ⟨ys, rfl⟩ := List.getLast?_eq_some_iff.1 hx
  rw [List.append_assoc]
  exact fun h => (h.right).1 hbreak

end Unmarked

/-- The surroundings of a text in a stream: the lines and characters in front of it, and what
stands behind it. -/
structure Excerpt where
  lines : Nat
  chars : Nat
  after : List Char
  after_comment : ∀ x ∈ after.head?, x = '#'

/-- If the first reading succeeds, then so does the second, and the results are related. -/
def Agrees {ρ σ : Type} (R : ρ → σ → Prop) (x : Except SyntaxError ρ) (y : Except SyntaxError σ) :
    Prop :=
  ∀ r, x = .ok r → ∃ s, y = .ok s ∧ R r s

namespace Agrees

variable {ρ σ ρ' σ' : Type} {R : ρ → σ → Prop} {S : ρ' → σ' → Prop}

theorem ok {r : ρ} {s : σ} (h : R r s) : Agrees R (.ok r) (.ok s) := by
  rintro _ ⟨⟩
  exact ⟨s, rfl, h⟩

theorem error {e : SyntaxError} {y : Except SyntaxError σ} : Agrees R (.error e) y := by
  intro _ h
  cases h

theorem bind {x : Except SyntaxError ρ} {y : Except SyntaxError σ} {f : ρ → Except SyntaxError ρ'}
    {g : σ → Except SyntaxError σ'} (h : Agrees R x y) (hf : ∀ r s, R r s → Agrees S (f r) (g s)) :
    Agrees S (x >>= f) (y >>= g) := by
  intro r' hr'
  cases x with
  | error e => cases hr'
  | ok r =>
    obtain ⟨s, rfl, hs⟩ := h r rfl
    exact hf r s hs r' hr'

theorem ite {b b' : Bool} {x x' : Except SyntaxError ρ} {y y' : Except SyntaxError σ}
    (hb : b' = b) (hx : b = true → Agrees R x y) (hy : b = false → Agrees R x' y') :
    Agrees R (if b then x else x') (if b' then y else y') := by
  rw [hb]
  cases b with
  | true => exact hx rfl
  | false => exact hy rfl

theorem iteProp {p : Prop} [Decidable p] {x x' : Except SyntaxError ρ} {y y' : Except SyntaxError σ}
    (hx : p → Agrees R x y) (hy : ¬p → Agrees R x' y') :
    Agrees R (if p then x else x') (if p then y else y') := by
  split
  · exact hx ‹_›
  · exact hy ‹_›

theorem mono {x : Except SyntaxError ρ} {y : Except SyntaxError σ} {R' : ρ → σ → Prop}
    (h : Agrees R x y) (hR : ∀ r s, R r s → R' r s) : Agrees R' x y := by
  intro r hr
  obtain ⟨s, hs, hrs⟩ := h r hr
  exact ⟨s, hs, hR r s hrs⟩

end Agrees

/-- The same answer, with what is left related. -/
def Alike {α ρ σ : Type} (R : ρ → σ → Prop) (r : α × ρ) (s : α × σ) : Prop := s.1 = r.1 ∧ R r.2 s.2

namespace Cursor

/-- The second cursor stands in the stream where the first one stands in the text. -/
structure Inside (e : Excerpt) (c c' : Cursor) : Prop where
  rest : c'.rest = c.rest ++ e.after
  column : c'.column = c.column
  line : c'.line = c.line + e.lines
  index : c'.index = c.index + e.chars
  room : c.rest.length ≤ c.size
  room' : c'.rest.length ≤ c'.size
  size : c.size ≤ c'.size
  /-- The text ends with a line break. -/
  last : ∀ x ∈ c.rest.getLast?, isBreak x = true
  /-- The end of the text is the start of a line. -/
  ends : c.rest = [] → c.column = 0
  unmarked : Unmarked c.rest
  /-- No line of the text starts with a mark. -/
  mark : c.column = 0 → startsMark c.rest = false

variable {e : Excerpt} {c c' : Cursor} {r : List Char} {x : Char} {p : Char → Bool}

theorem nextLine_crlf (hrest : c.rest = '\r' :: '\n' :: r) :
    c.nextLine = { c with rest := r, index := c.index + 2, line := c.line + 1, column := 0 } := by
  rw [nextLine, hrest]
  rfl

theorem nextLine_cons (hrest : c.rest = x :: r) (hx : x = '\r' → r.head? ≠ some '\n') :
    c.nextLine = { c with rest := r, index := c.index + 1, line := c.line + 1, column := 0 } := by
  rw [nextLine, hrest]
  split
  · rename_i heq
    obtain ⟨rfl, rfl⟩ := List.cons.inj heq
    exact absurd rfl (hx rfl)
  · rename_i heq
    obtain ⟨rfl, rfl⟩ := List.cons.inj heq
    rfl
  · rename_i heq
    cases heq

/-- To skip is to move over the run of characters that is skipped. -/
theorem skip_eq_advance (c : Cursor) (p : Char → Bool) : c.skip p = c.advance (c.span p).length := by
  refine skip_eq (List.takeWhile_append_dropWhile (p := p)).symm
    (fun x hx => List.mem_takeWhile_imp hx) ?_
  have hhead := List.head?_dropWhile_not p c.rest
  cases hrest : (c.rest.dropWhile p).head? with
  | none => rfl
  | some x =>
    rw [hrest] at hhead
    simpa using hhead

theorem takeWhile_append {after : List Char} (hr : ∀ x ∈ r.getLast?, p x = false)
    (hafter : r = [] → ∀ x ∈ after.head?, p x = false) :
    (r ++ after).takeWhile p = r.takeWhile p := by
  induction r with
  | nil =>
    cases after with
    | nil => rfl
    | cons y after => rw [List.nil_append, List.takeWhile_cons, hafter rfl y rfl]; rfl
  | cons x r ih =>
    rw [List.cons_append, List.takeWhile_cons, List.takeWhile_cons]
    cases hx : p x with
    | false => rfl
    | true =>
      have hne : r ≠ [] := by
        rintro rfl
        rw [hr x rfl] at hx
        cases hx
      rw [if_pos rfl, if_pos rfl, ih (fun y hy => hr y ?_) fun hempty => absurd hempty hne]
      rw [List.getLast?_cons, Option.mem_def.1 hy]
      rfl

theorem isBreak_of_isSpace (h : isSpace x = true) : isBreak x = false := by
  simp only [isSpace, Bool.or_eq_true, beq_iff_eq] at h
  obtain rfl | rfl := h <;> rfl

theorem isSpace_of_isBreak (h : isBreak x = true) : isSpace x = false := by
  cases hx : isSpace x with
  | false => rfl
  | true =>
    rw [isBreak_of_isSpace hx] at h
    cases h

namespace Inside

theorem rest_cons (h : Inside e c c') (hrest : c.rest = x :: r) : c'.rest = x :: (r ++ e.after) := by
  rw [h.rest, hrest, List.cons_append]

theorem length_rest (h : Inside e c c') : c'.rest.length = c.rest.length + e.after.length := by
  rw [h.rest, List.length_append]

/-- At the end of the text, the stream ends or a comment follows. -/
theorem rest_end (h : Inside e c c') (hrest : c.rest = []) :
    c'.rest = [] ∨ ∃ after, c'.rest = '#' :: after := by
  rw [h.rest, hrest, List.nil_append]
  cases hafter : e.after with
  | nil => exact .inl rfl
  | cons y after =>
    rw [e.after_comment y (by rw [hafter]; rfl)]
    exact .inr ⟨after, rfl⟩

/-- Behind a character that is no line break the text goes on. -/
theorem tail_ne (h : Inside e c c') (hrest : c.rest = x :: r) (hx : isBreak x = false) : r ≠ [] := by
  rintro rfl
  have hlast := h.last x (by rw [hrest]; rfl)
  rw [hx] at hlast
  cases hlast

/-- What the first character satisfies, unless it is the `#` of a comment. -/
theorem sees (h : Inside e c c') (hp : p '#' = false) : c'.sees p = c.sees p := by
  rw [sees_eq h.rest, Cursor.sees]
  cases hrest : c.rest with
  | cons x r => rfl
  | nil =>
    cases hafter : e.after with
    | nil => rfl
    | cons y after =>
      have hy : y = '#' := e.after_comment y (by rw [hafter]; rfl)
      rw [hy]
      exact hp

theorem at? (h : Inside e c c') (hx : x ≠ '#') : c'.at? x = c.at? x := by
  have hsees : ∀ d : Cursor, d.at? x = d.sees (· == x) := by
    intro d
    rw [Cursor.at?, Cursor.sees]
    cases d.rest <;> simp
  rw [hsees, hsees]
  exact h.sees (by simpa using Ne.symm hx)

/-- Both cursors move over characters of one line. -/
theorem advance {w : List Char} (h : Inside e c c') (hrest : c.rest = w ++ r)
    (hw : ∀ x ∈ w, isBreak x = false) : Inside e (c.advance w.length) (c'.advance w.length) := by
  have hnext : (c.advance w.length).rest = r := rest_advance hrest
  have hrest' : c'.rest = w ++ (r ++ e.after) := by rw [h.rest, hrest, List.append_assoc]
  have hnext' : (c'.advance w.length).rest = r ++ e.after := rest_advance hrest'
  have hroom := h.room
  have hroom' := h.room'
  rw [hrest, List.length_append] at hroom
  rw [hrest', List.length_append] at hroom'
  constructor
  · rw [hnext, hnext']
  · rw [advance_column, advance_column, h.column]
  · rw [advance_line, advance_line, h.line]
  · rw [advance_index, advance_index, h.index]
    omega
  · rw [hnext, advance_size]
    omega
  · rw [hnext', advance_size]
    omega
  · exact h.size
  · intro x hx
    rw [hnext] at hx
    refine h.last x ?_
    rw [hrest, List.getLast?_append, Option.mem_def.1 hx]
    rfl
  · intro hempty
    rw [hnext] at hempty
    subst hempty
    -- The last character of `w` would be the line break that the text ends with.
    cases hlast : w.getLast? with
    | none =>
      rw [List.getLast?_eq_none_iff.1 hlast] at hrest ⊢
      exact h.ends hrest
    | some y =>
      have hy := h.last y (by rw [hrest, List.append_nil, hlast]; rfl)
      rw [hw y (List.mem_of_getLast? hlast)] at hy
      cases hy
  · rw [hnext]
    exact (hrest ▸ h.unmarked).right
  · intro hcolumn
    rw [advance_column] at hcolumn
    obtain rfl := List.length_eq_zero_iff.1 (Nat.eq_zero_of_add_eq_zero_left hcolumn)
    exact h.mark (Nat.eq_zero_of_add_eq_zero_right hcolumn)

theorem advance_one (h : Inside e c c') (hrest : c.rest = x :: r) (hx : isBreak x = false) :
    Inside e (c.advance 1) (c'.advance 1) :=
  h.advance (w := [x]) hrest fun y hy => by rw [List.mem_singleton.1 hy, hx]

theorem length_advance_one (hrest : c.rest = x :: r) :
    (c.advance 1).rest.length < c.rest.length := by
  rw [advance_rest, hrest]
  exact Nat.lt_succ_self _

/-- A place behind a line break. -/
theorem next {w : List Char} {k : Nat} (h : Inside e c c') (hrest : c.rest = w ++ r)
    (_ : k = w.length) (hx : x ∈ w.getLast?) (hbreak : isBreak x = true) :
    Inside e { c with rest := r, index := c.index + k, line := c.line + 1, column := 0 }
      { c' with rest := r ++ e.after, index := c'.index + k, line := c'.line + 1, column := 0 } where
  rest := rfl
  column := rfl
  line := by
    change c'.line + 1 = c.line + 1 + e.lines
    rw [h.line]
    omega
  index := by
    change c'.index + k = c.index + k + e.chars
    rw [h.index]
    omega
  room := by
    have hroom := h.room
    rw [hrest, List.length_append] at hroom
    exact Nat.le_trans (Nat.le_add_left _ _) hroom
  room' := by
    have hroom := h.room'
    rw [h.rest, hrest, List.append_assoc, List.length_append] at hroom
    exact Nat.le_trans (Nat.le_add_left _ _) hroom
  size := h.size
  last := by
    intro x hx
    refine h.last x ?_
    rw [hrest, List.getLast?_append, Option.mem_def.1 hx]
    rfl
  ends := fun _ => rfl
  unmarked := (hrest ▸ h.unmarked).right
  mark := fun _ => (hrest ▸ h.unmarked).behind hx hbreak

/-- A `CR` at the end of the text is a break of its own in the stream too: no `LF` follows it. -/
theorem nextLine (h : Inside e c c') (hsees : c.sees isBreak = true) :
    Inside e c.nextLine c'.nextLine := by
  cases hrest : c.rest with
  | nil =>
    rw [Cursor.sees, hrest] at hsees
    cases hsees
  | cons x r =>
    have hrest' := h.rest_cons hrest
    by_cases hcrlf : x = '\r' ∧ r.head? = some '\n'
    · obtain ⟨rfl, hr⟩ := hcrlf
      obtain ⟨r, rfl⟩ : ∃ r', r = '\n' :: r' := by
        cases r with
        | nil => cases hr
        | cons y r => exact ⟨r, by rw [Option.some.inj hr]⟩
      rw [nextLine_crlf hrest, nextLine_crlf hrest']
      exact h.next (w := ['\r', '\n']) hrest rfl rfl rfl
    · have hstop : x = '\r' → (r ++ e.after).head? ≠ some '\n' := by
        intro hx hhead
        cases r with
        | cons y r => exact hcrlf ⟨hx, hhead⟩
        | nil =>
          have := e.after_comment _ hhead
          cases this
      rw [nextLine_cons hrest fun hx hhead => hcrlf ⟨hx, hhead⟩, nextLine_cons hrest' hstop]
      rw [sees_eq hrest] at hsees
      exact h.next (w := [x]) hrest rfl rfl hsees

/-! ## Runs of characters -/

/-- A run of characters stops at the end of the text, if not before. -/
theorem span (h : Inside e c c') (hbreak : ∀ x, isBreak x = true → p x = false)
    (hcomment : p '#' = false ∨ c.rest ≠ []) : c'.span p = c.span p := by
  rw [Cursor.span, Cursor.span, h.rest]
  refine takeWhile_append (fun x hx => hbreak x (h.last x hx)) fun hempty x hx => ?_
  rcases hcomment with hcomment | hne
  · rw [e.after_comment x hx, hcomment]
  · exact absurd hempty hne

theorem advance_take (h : Inside e c c') (k : Nat) (hk : k ≤ (c.span p).length)
    (hbreak : ∀ x, isBreak x = true → p x = false) :
    Inside e (c.advance k) (c'.advance k) := by
  have hlength : ((c.span p).take k).length = k := by
    rw [List.length_take, Nat.min_eq_left hk]
  have hrest : c.rest = (c.span p).take k ++ ((c.span p).drop k ++ c.rest.dropWhile p) := by
    rw [← List.append_assoc, List.take_append_drop]
    exact (List.takeWhile_append_dropWhile (p := p)).symm
  have hd := h.advance hrest fun x hx => by
    cases hx' : isBreak x with
    | false => rfl
    | true =>
      have hp := hbreak x hx'
      rw [List.mem_takeWhile_imp (List.mem_of_mem_take hx)] at hp
      cases hp
  rwa [hlength] at hd

theorem skip (h : Inside e c c') (hbreak : ∀ x, isBreak x = true → p x = false)
    (hcomment : p '#' = false ∨ c.rest ≠ []) : Inside e (c.skip p) (c'.skip p) := by
  rw [skip_eq_advance, skip_eq_advance, h.span hbreak hcomment]
  exact h.advance_take _ (Nat.le_refl _) hbreak

/-- A run of characters ends in the text, with a line break at the latest. -/
theorem skip_ne_nil (h : Inside e c c') (hne : c.rest ≠ [])
    (hbreak : ∀ x, isBreak x = true → p x = false) : (c.skip p).rest ≠ [] := by
  intro hnil
  have hdrop : c.rest.dropWhile p = [] := hnil
  have hlast := h.last _ (List.getLast_mem_getLast? hne)
  have hall := List.dropWhile_eq_nil_iff.1 hdrop _ (List.getLast_mem hne)
  rw [hbreak _ hlast] at hall
  cases hall

/-! ## Looking ahead -/

/-- In the middle of a line the text goes on. -/
theorem rest_ne_nil (h : Inside e c c') (hcolumn : c.column ≠ 0) : c.rest ≠ [] :=
  fun hrest => hcolumn (h.ends hrest)

theorem endsWord_rest (h : Inside e c c') (hne : c.rest ≠ []) :
    endsWord c'.rest = endsWord c.rest := by
  rw [h.rest]
  cases hrest : c.rest with
  | nil => exact absurd hrest hne
  | cons x r => rfl

theorem endsLine_rest (h : Inside e c c') (hne : c.rest ≠ []) :
    endsLine c'.rest = endsLine c.rest := by
  rw [h.rest]
  cases hrest : c.rest with
  | nil => exact absurd hrest hne
  | cons x r => rfl

theorem at?_comment (h : Inside e c c') (hne : c.rest ≠ []) : c'.at? '#' = c.at? '#' := by
  rw [Cursor.at?, Cursor.at?, h.rest]
  cases hrest : c.rest with
  | nil => exact absurd hrest hne
  | cons x r => rfl

theorem atEnd_eq_false (h : Inside e c c') (hend : c.atEnd = false) : c'.atEnd = false := by
  rw [Cursor.atEnd] at hend ⊢
  rw [h.rest]
  cases hrest : c.rest with
  | nil =>
    rw [hrest] at hend
    cases hend
  | cons x r => rfl

/-- The `#` of a comment behind the text is no break. -/
theorem breakText (h : Inside e c c') : c'.breakText = c.breakText := by
  rw [Cursor.breakText, Cursor.breakText, h.rest]
  cases hrest : c.rest with
  | cons x r => rfl
  | nil =>
    cases hafter : e.after with
    | nil => rfl
    | cons y after =>
      have hy : y = '#' := e.after_comment y (by rw [hafter]; rfl)
      rw [hy]
      rfl

theorem startsDocumentMark_rest (mark : Char) (hbreak : isBreak mark = false) (hmark : mark ≠ '#')
    (h : Inside e c c') : startsDocumentMark mark c'.rest = startsDocumentMark mark c.rest := by
  have hne : ∀ {x : Char}, isBreak x = true → (x == mark) = false := by
    intro x hx
    rw [beq_eq_false_iff_ne]
    rintro rfl
    rw [hx] at hbreak
    cases hbreak
  have hlast := h.last
  rw [h.rest]
  -- A break among the first three characters tells both texts from a mark.
  match hrest : c.rest with
  | [] =>
    cases hafter : e.after with
    | nil => rfl
    | cons y after =>
      have hy : y = '#' := e.after_comment y (by rw [hafter]; rfl)
      have : ('#' == mark) = false := beq_eq_false_iff_ne.2 (Ne.symm hmark)
      rw [hy]
      rcases after with _ | ⟨_, _ | ⟨_, after⟩⟩ <;> simp [startsDocumentMark, this]
  | [x] =>
    have hx := hne (hlast x (by rw [hrest]; rfl))
    rcases e.after with _ | ⟨_, _ | ⟨_, after⟩⟩ <;> simp [startsDocumentMark, hx]
  | [x, y] =>
    have hy := hne (hlast y (by rw [hrest]; rfl))
    rcases e.after with _ | ⟨_, after⟩ <;> simp [startsDocumentMark, hy]
  | [x, y, z] =>
    have hz := hne (hlast z (by rw [hrest]; rfl))
    simp [startsDocumentMark, hz]
  | x :: y :: z :: w :: r => rfl

/-- No mark starts at a place in the text. -/
theorem not_mark (h : Inside e c c') (hrest : c.rest = x :: r) :
    ¬(c.column = 0 ∧ x = '%') ∧ c.atDocumentMark = false := by
  rw [Cursor.atDocumentMark]
  by_cases hcolumn : c.column = 0
  · have hmark := h.mark hcolumn
    rw [startsMark, Bool.or_eq_false_iff, Bool.or_eq_false_iff] at hmark
    rw [hmark.1.2, hmark.2, Bool.or_self, Bool.and_false]
    refine ⟨?_, rfl⟩
    rintro ⟨-, rfl⟩
    rw [hrest] at hmark
    cases hmark.1.1
  · rw [beq_false_of_ne hcolumn]
    exact ⟨fun hdirective => hcolumn hdirective.1, rfl⟩

theorem atDocumentMark (h : Inside e c c') : c'.atDocumentMark = c.atDocumentMark := by
  rw [Cursor.atDocumentMark, Cursor.atDocumentMark, h.column,
    startsDocumentMark_rest _ rfl (by decide) h, startsDocumentMark_rest _ rfl (by decide) h]

/-! ## To the end of a line -/

theorem skipBreak (h : Inside e c c') : Inside e c.skipBreak c'.skipBreak := by
  rw [Cursor.skipBreak, Cursor.skipBreak, h.sees rfl]
  split
  · exact h.nextLine ‹_›
  · exact h

/-- A line of the text ends with a line break. -/
theorem length_skipBreak (h : Inside e c c') (hne : c.rest ≠ []) :
    (c.advance (c.span (!isBreak ·)).length).skipBreak.rest.length < c.rest.length := by
  have hskip := skip_eq_advance c (!isBreak ·)
  have hsees : (c.skip (!isBreak ·)).sees isBreak = true := by
    have hhead := List.head?_dropWhile_not (!isBreak ·) c.rest
    obtain ⟨x, r, hrest⟩ := List.exists_cons_of_ne_nil
      (h.skip_ne_nil hne (p := (!isBreak ·)) fun x hx => by rw [hx]; rfl)
    have hdrop : c.rest.dropWhile (!isBreak ·) = x :: r := hrest
    rw [sees_eq hrest]
    rw [hdrop] at hhead
    simpa using hhead
  rw [← hskip, Cursor.skipBreak, if_pos hsees]
  exact Nat.lt_of_lt_of_le (length_rest_nextLine hsees) (behind_skip _ _).le

theorem skipTrailer (h : Inside e c c') (hcolumn : c.column ≠ 0) :
    Inside e c.skipTrailer c'.skipTrailer ∧ c.skipTrailer.column ≠ 0 := by
  have hspaces : Inside e (c.skip isSpace) (c'.skip isSpace) :=
    h.skip (fun x hx => isSpace_of_isBreak hx) (.inl rfl)
  have hcolumn' : (c.skip isSpace).column ≠ 0 := fun hzero =>
    hcolumn (Nat.eq_zero_of_add_eq_zero_right hzero)
  have hne := hspaces.rest_ne_nil hcolumn'
  rw [Cursor.skipTrailer, Cursor.skipTrailer, hspaces.at?_comment hne]
  split
  · exact ⟨hspaces.skip (fun x hx => by rw [hx]; rfl) (.inr hne),
      fun hzero => hcolumn' (Nat.eq_zero_of_add_eq_zero_right hzero)⟩
  · exact ⟨hspaces, hcolumn'⟩

end Inside

/-! ## Reading on -/

variable {b : Cursor}

/-- Both cursors have moved on from a place. -/
structure Within (e : Excerpt) (b c c' : Cursor) : Prop extends Inside e c c' where
  behind : Behind b c

/-- Both cursors have moved on to a place that is not the start of a line. -/
structure Amid (e : Excerpt) (b c c' : Cursor) : Prop extends Within e b c c' where
  column_ne : c.column ≠ 0

theorem Inside.within (h : Inside e c c') : Within e c c c' := ⟨h, .refl c⟩

theorem Within.mono {a : Cursor} (h : Within e b c c') (hab : Behind a b) : Within e a c c' :=
  ⟨h.toInside, hab.trans h.behind⟩

theorem Amid.mono {a : Cursor} (h : Amid e b c c') (hab : Behind a b) : Amid e a c c' :=
  ⟨h.toWithin.mono hab, h.column_ne⟩

/-- Over a character. -/
theorem Inside.amid_one (h : Inside e c c') (hrest : c.rest = x :: r) (hx : isBreak x = false) :
    Amid e (c.advance 1) (c.advance 1) (c'.advance 1) :=
  ⟨⟨h.advance_one hrest hx, .refl _⟩, Nat.succ_ne_zero _⟩

theorem Within.amid_at (h : Within e b c c') (hat : c.at? x = true) (hx : isBreak x = false) :
    Amid e b (c.advance 1) (c'.advance 1) := by
  obtain ⟨r, hrest⟩ := List.head?_eq_some_iff.1 (eq_of_beq hat)
  exact (h.toInside.amid_one hrest hx).mono (h.behind.trans (behind_advance c 1))

/-- Behind what both have read, the rest of the fuel is enough in the stream. -/
theorem Inside.shrink {d d' : Cursor} {n : Nat} (h : Inside e c c') (hd : Inside e d d')
    (hlt : d.rest.length < c.rest.length) (hn : c'.rest.length < n + 1) : d'.rest.length < n := by
  have hlength := h.length_rest
  have hlength' := hd.length_rest
  omega

theorem Inside.room_lt (h : Inside e c c') : c.rest.length < c.size + 1 := Nat.lt_succ_of_le h.room

theorem Inside.room_lt' (h : Inside e c c') : c'.rest.length < c'.size + 1 :=
  Nat.lt_succ_of_le h.room'

end Cursor

end JobMatrix.Yaml
