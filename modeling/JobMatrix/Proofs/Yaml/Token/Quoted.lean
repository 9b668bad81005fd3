import JobMatrix.Proofs.Yaml.Token.Cursor
import JobMatrix.Yaml.Token.Scalar
import Mathlib.Data.List.Chain
import Mathlib.Data.List.TakeWhile

/-!
# Texts between double quotes

Between double quotes a character stands for itself or is written by an escape (`Spells`).  However
the characters of a text are written, the text is read as what they stand for
(`Cursor.readQuoted_spelled`), spaces included.

Line breaks are folded, but for the two separators of lines.  A text may have these as well, if none
has a space beside it, which would be dropped, or a document mark behind it (`Cursor.Laid`): it is
still read as what it stands for, and the cursor comes to another line (`Cursor.readQuoted_laid`).
-/

set_option autoImplicit false

namespace JobMatrix.Yaml

open Cursor (escapedChar? escapeDigits?)

/-- A number needs no more characters than its digits. -/
theorem hexNumber?_append (rest : List Char) :
    ∀ {ds : List Char} {n value : Nat}, ds.length = n →
      hexNumber? n (ds ++ rest) value = hexNumber? n ds value
  | [], _, _, rfl => by
    cases rest <;> rfl
  | d :: ds, _, value, rfl => by
    rw [List.length_cons, List.cons_append, hexNumber?, hexNumber?]
    exact congrArg _ (funext fun k => hexNumber?_append rest rfl)

/-! ## One character -/

/-- A character that stands for itself between double quotes. -/
structure IsLiteral (c : Char) : Prop where
  shown : isStreamChar c = true
  quote : c ≠ '"'
  backslash : c ≠ '\\'
  tab : c ≠ '\t'
  line : isBreak c = false

/-- What is written for `c` is a backslash and an escape that is read as `c`. -/
structure IsEscape (c : Char) (cs : List Char) : Prop where
  shape : ∃ letter digits, cs = '\\' :: letter :: digits ∧ isBreak letter = false
  shown : ∀ x ∈ cs, isStreamChar x = true
  reads : ∀ (cursor : Cursor) (rest : List Char), cursor.rest = cs ++ rest →
    cursor.readEscape = .ok (c, cursor.advance cs.length)

/-- The characters `cs` are written for `c` between double quotes. -/
def Spells (c : Char) (cs : List Char) : Prop := (IsLiteral c ∧ cs = [c]) ∨ IsEscape c cs

theorem IsLiteral.isSpace {c : Char} (h : IsLiteral c) (hc : c ≠ ' ') : isSpace c = false := by
  simp only [Yaml.isSpace, beq_eq_false_iff_ne.2 hc, beq_eq_false_iff_ne.2 h.tab, Bool.or_self]

theorem isEscape_letter {c letter : Char} (hletter : escapedChar? letter = some c)
    (hbreak : isBreak letter = false) (hshown : isStreamChar letter = true) :
    IsEscape c ['\\', letter] where
  shape := ⟨letter, [], rfl, hbreak⟩
  shown := by
    intro x hx
    rcases List.mem_cons.1 hx with rfl | hx
    · rfl
    · rw [List.mem_singleton.1 hx, hshown]
  reads := by
    intro cursor rest hrest
    simp only [Cursor.readEscape, hrest, List.cons_append, hletter]
    rfl

/-- The digits of an escape, and the number they are read as. -/
def Writes (width n : Nat) (digits : List Char) : Prop :=
  digits.length = width ∧ digits.all isStreamChar = true ∧ hexNumber? width digits 0 = some n

instance (width n : Nat) (digits : List Char) : Decidable (Writes width n digits) :=
  inferInstanceAs (Decidable (_ ∧ _ ∧ _))

theorem isEscape_digits {c letter : Char} {width : Nat} {digits : List Char}
    (hletter : escapedChar? letter = none) (hwidth : escapeDigits? letter = some width)
    (hbreak : isBreak letter = false) (hshown : isStreamChar letter = true)
    (hdigits : Writes width c.toNat digits) : IsEscape c ('\\' :: letter :: digits) where
  shape := ⟨letter, digits, rfl, hbreak⟩
  shown := by
    intro x hx
    rcases List.mem_cons.1 hx with rfl | hx
    · rfl
    rcases List.mem_cons.1 hx with rfl | hx
    · exact hshown
    · exact List.all_eq_true.1 hdigits.2.1 x hx
  reads := by
    intro cursor rest hrest
    obtain ⟨hlength, -, hvalue⟩ := hdigits
    have hvalid : c.toNat.isValidChar := c.valid
    simp only [Cursor.readEscape, hrest, List.cons_append, hletter, hwidth]
    rw [hexNumber?_append rest hlength, hvalue]
    dsimp only
    rw [if_pos hvalid, Char.ofNat_toNat, List.length_cons, List.length_cons, hlength,
      Nat.add_comm 2 width]

theorem Spells.shown {c x : Char} {cs : List Char} (h : Spells c cs) (hx : x ∈ cs) :
    isStreamChar x = true := by
  obtain ⟨hliteral, rfl⟩ | hescape := h
  · rw [List.mem_singleton.1 hx]
    exact hliteral.shown
  · exact hescape.shown x hx

/-- What is written for a character is not empty, and starts with a space only if it is one. -/
theorem Spells.exists_cons {c : Char} {cs : List Char} (h : Spells c cs) :
    ∃ x cs', cs = x :: cs' ∧ isBreak x = false ∧ (cs ≠ [' '] → isSpace x = false) := by
  obtain ⟨hliteral, rfl⟩ | hescape := h
  · refine ⟨c, [], rfl, hliteral.line, fun hc => hliteral.isSpace ?_⟩
    rintro rfl
    exact hc rfl
  · obtain ⟨letter, digits, rfl, -⟩ := hescape.shape
    exact ⟨'\\', letter :: digits, rfl, rfl, fun _ => rfl⟩

/-- A space by itself stands for a space. -/
theorem Spells.eq_space {c : Char} (h : Spells c [' ']) : c = ' ' := by
  obtain ⟨-, heq⟩ | hescape := h
  · exact (List.singleton_inj.1 heq).symm
  · obtain ⟨letter, digits, heq, -⟩ := hescape.shape
    cases heq

/-! ## Line separators -/

/-- A separator of lines that is written as itself. -/
def isSeparatorText (cs : List Char) : Bool := cs == ['\u2028'] || cs == ['\u2029']

/-- A space or a separator of lines, written as itself. -/
def isGapText (cs : List Char) : Bool := cs == [' '] || isSeparatorText cs

theorem exists_of_isSeparatorText {cs : List Char} (h : isSeparatorText cs = true) :
    ∃ x, cs = [x] ∧ isSpace x = false ∧ isBreak x = true ∧ (x = '\u2028' ∨ x = '\u2029') := by
  rw [isSeparatorText, Bool.or_eq_true, beq_iff_eq, beq_iff_eq] at h
  rcases h with rfl | rfl
  · exact ⟨_, rfl, rfl, rfl, .inl rfl⟩
  · exact ⟨_, rfl, rfl, rfl, .inr rfl⟩

theorem Spells.not_isSeparatorText {c : Char} {cs : List Char} (h : Spells c cs) :
    isSeparatorText cs = false := by
  obtain ⟨x, cs', rfl, hbreak, -⟩ := h.exists_cons
  rw [← Bool.not_eq_true]
  intro hseparator
  obtain ⟨y, hy, -, hy', -⟩ := exists_of_isSeparatorText hseparator
  rw [(List.cons.inj hy).1, hy'] at hbreak
  cases hbreak

/-! ## Words and the gaps between them -/

/-- A list is a run of elements that are not `p`, a run of those that are, and what starts with none
that is. -/
theorem exists_word_gap {α : Type} (p : α → Bool) (s : List α) :
    ∃ w gap s', s = w ++ (gap ++ s') ∧ (∀ a ∈ w, p a = false) ∧ (∀ a ∈ gap, p a = true) ∧
      s'.head?.any p = false ∧ (gap = [] → s' = []) := by
  refine ⟨s.takeWhile (!p ·), (s.dropWhile (!p ·)).takeWhile p, (s.dropWhile (!p ·)).dropWhile p,
    ?_, fun a ha => ?_, fun a ha => List.mem_takeWhile_imp ha, ?_, fun hgap => ?_⟩
  · rw [List.takeWhile_append_dropWhile, List.takeWhile_append_dropWhile]
  · simpa using List.mem_takeWhile_imp ha
  · have hhead := List.head?_dropWhile_not p (s.dropWhile (!p ·))
    cases h : ((s.dropWhile (!p ·)).dropWhile p).head? with
    | none => rfl
    | some a => simpa [h] using hhead
  · rcases hrest : s.dropWhile (!p ·) with _ | ⟨a, tail⟩
    · rfl
    · have ha := List.head?_dropWhile_not (!p ·) s
      rw [hrest] at ha hgap
      have ha : p a = true := by simpa using ha
      rw [List.takeWhile_cons, ha] at hgap
      cases hgap

namespace Cursor

variable {α : Type} {charOf : α → Char} {textOf : α → List Char} {c : Cursor} {rest : List Char}

/-- The elements are spelled characters. -/
def Spelled (charOf : α → Char) (textOf : α → List Char) (s : List α) : Prop :=
  ∀ a ∈ s, Spells (charOf a) (textOf a)

/-- Two elements that follow each other are not a space and a separator. -/
def Apart (textOf : α → List Char) (a b : α) : Prop :=
  (isSeparatorText (textOf a) = true → textOf b ≠ [' ']) ∧
    (textOf a = [' '] → isSeparatorText (textOf b) = false)

/-- The elements are spelled characters, and separators of lines with no space beside them and no
document mark behind them. -/
structure Laid (charOf : α → Char) (textOf : α → List Char) (s : List α) : Prop where
  shows : ∀ a ∈ s, Spells (charOf a) (textOf a) ∨
    isSeparatorText (textOf a) = true ∧ textOf a = [charOf a]
  apart : s.IsChain (Apart textOf)
  unmarked : ∀ a after, a :: after <:+ s → isSeparatorText (textOf a) = true →
    ∀ mark ∈ ['-', '.'], startsDocumentMark mark (after.flatMap textOf ++ ['"']) = false

theorem Spelled.laid {s : List α} (h : Spelled charOf textOf s) : Laid charOf textOf s where
  shows a ha := .inl (h a ha)
  apart := by
    refine List.Pairwise.isChain (List.pairwise_of_forall_mem_list fun a ha b hb => ⟨fun hsep => ?_,
      fun _ => (h b hb).not_isSeparatorText⟩)
    rw [(h a ha).not_isSeparatorText] at hsep
    cases hsep
  unmarked a after hafter hsep := by
    rw [(h a (hafter.subset List.mem_cons_self)).not_isSeparatorText] at hsep
    cases hsep

theorem length_le_flatMap {s : List α} (h : ∀ a ∈ s, textOf a ≠ []) :
    s.length ≤ (s.flatMap textOf).length := by
  induction s with
  | nil => exact Nat.le_refl _
  | cons a s ih =>
    obtain ⟨ha, hs⟩ := List.forall_mem_cons.1 h
    have ha := List.length_pos_of_ne_nil ha
    have ih := ih hs
    rw [List.flatMap_cons, List.length_append, List.length_cons]
    omega

namespace Laid

variable {s t : List α}

theorem right (h : Laid charOf textOf (s ++ t)) : Laid charOf textOf t where
  shows a ha := h.shows a (List.mem_append_right _ ha)
  apart := h.apart.right_of_append
  unmarked a after hafter := h.unmarked a after (hafter.trans (List.suffix_append s t))

theorem ne_nil (h : Laid charOf textOf s) {a : α} (ha : a ∈ s) : textOf a ≠ [] := by
  rcases h.shows a ha with hspells | ⟨-, heq⟩
  · obtain ⟨x, cs, heq, -⟩ := hspells.exists_cons
    rw [heq]
    exact List.cons_ne_nil _ _
  · rw [heq]
    exact List.cons_ne_nil _ _

/-- A space and a separator stand for themselves. -/
theorem textOf_eq (h : Laid charOf textOf s) {a : α} (ha : a ∈ s)
    (hgap : isGapText (textOf a) = true) : textOf a = [charOf a] := by
  rcases h.shows a ha with hspells | ⟨-, heq⟩
  · rw [isGapText, hspells.not_isSeparatorText, Bool.or_false, beq_iff_eq] at hgap
    rw [hgap] at hspells ⊢
    rw [hspells.eq_space]
  · exact heq

theorem length_le (h : Laid charOf textOf s) : s.length ≤ (s.flatMap textOf).length :=
  length_le_flatMap fun _ => h.ne_nil

end Laid

/-- A gap has spaces only, or separators only. -/
theorem pure_of_isChain : ∀ {gap : List α}, (∀ a ∈ gap, isGapText (textOf a) = true) →
    gap.IsChain (Apart textOf) →
      (∀ a ∈ gap, textOf a = [' ']) ∨ ∀ a ∈ gap, isSeparatorText (textOf a) = true
  | [], _, _ => .inl (by simp)
  | [a], hgap, _ => by simpa [isGapText] using hgap
  | a :: b :: gap, hgap, hchain => by
    obtain ⟨hab, hchain⟩ := List.isChain_cons_cons.1 hchain
    obtain ⟨ha, hgap⟩ := List.forall_mem_cons.1 hgap
    rw [isGapText, Bool.or_eq_true, beq_iff_eq] at ha
    rcases pure_of_isChain hgap hchain with h | h
    · have hb := h b List.mem_cons_self
      exact .inl (List.forall_mem_cons.2 ⟨ha.resolve_right fun hsep => hab.1 hsep hb, h⟩)
    · have hb := h b List.mem_cons_self
      refine .inr (List.forall_mem_cons.2 ⟨ha.resolve_left fun hspace => ?_, h⟩)
      rw [hab.2 hspace] at hb
      cases hb

/-! ## Moving over elements -/

/-- Moves over elements, of which each separator starts a line. -/
def past (textOf : α → List Char) (s : List α) (c : Cursor) : Cursor :=
  s.foldl (fun c a =>
    if isSeparatorText (textOf a) then c.nextLine else c.advance (textOf a).length) c

theorem past_append (s t : List α) (c : Cursor) :
    c.past textOf (s ++ t) = (c.past textOf s).past textOf t :=
  List.foldl_append

theorem past_cons (a : α) (s : List α) (c : Cursor) :
    c.past textOf (a :: s) = (if isSeparatorText (textOf a) then c.nextLine
      else c.advance (textOf a).length).past textOf s := rfl

theorem nextLine_separator {cs : List Char} (hcs : isSeparatorText cs = true)
    (hrest : c.rest = cs ++ rest) : c.nextLine = ⟨rest, c.index + 1, c.line + 1, 0, c.size⟩ := by
  obtain ⟨x, rfl, -, -, hx⟩ := exists_of_isSeparatorText hcs
  rw [List.singleton_append] at hrest
  rw [nextLine, hrest]
  rcases hx with rfl | rfl <;> rfl

theorem rest_past : ∀ {s : List α} {c : Cursor}, c.rest = s.flatMap textOf ++ rest →
    (c.past textOf s).rest = rest
  | [], _, h => h
  | a :: s, c, h => by
    rw [List.flatMap_cons, List.append_assoc] at h
    rw [past_cons]
    split
    · exact rest_past (by rw [nextLine_separator ‹_› h])
    · exact rest_past (rest_advance h)

theorem size_past (s : List α) : ∀ c : Cursor, (c.past textOf s).size = c.size := by
  induction s with
  | nil => exact fun _ => rfl
  | cons a s ih =>
    intro c
    have hline : c.nextLine.size = c.size := by
      rw [nextLine]
      split <;> rfl
    rw [past_cons, ih]
    split
    · exact hline
    · rfl

/-- Within a line. -/
theorem past_eq_advance {s : List α} (h : ∀ a ∈ s, isSeparatorText (textOf a) = false) :
    ∀ c : Cursor, c.past textOf s = c.advance (s.flatMap textOf).length := by
  induction s with
  | nil => exact fun _ => rfl
  | cons a s ih =>
    intro c
    obtain ⟨ha, hs⟩ := List.forall_mem_cons.1 h
    rw [past_cons, ha, if_neg Bool.false_ne_true, ih hs, advance_advance, List.flatMap_cons,
      List.length_append]

/-! ## Words and gaps -/

/-- What the characters of a gap stand for are these characters. -/
theorem flatMap_eq_map {gap : List α} (h : ∀ a ∈ gap, textOf a = [charOf a]) :
    gap.flatMap textOf = gap.map charOf := by
  rw [List.map_eq_flatMap]
  exact List.flatMap_congr h

/-- The characters up to a blank, a line break or the closing quote. -/
theorem readQuotedWord_spelled {x : Char} (hx : isSpace x = true ∨ isBreak x = true ∨ x = '"') :
    ∀ {w : List α} {n : Nat} {word : List Char} {c : Cursor}, Spelled charOf textOf w →
      (∀ a ∈ w, textOf a ≠ [' ']) → w.length < n → c.rest = w.flatMap textOf ++ x :: rest →
      c.readQuotedWord true n word
        = .ok ((w.map charOf).reverse ++ word, false, c.advance (w.flatMap textOf).length)
  | [], n + 1, word, c, _, _, _, hrest => by
    simp only [List.flatMap_nil, List.nil_append] at hrest
    rw [readQuotedWord, hrest]
    obtain hx | hx | rfl := hx
    · simp [hx]
    · simp [hx]
    · rfl
  | a :: w, n + 1, word, c, hw, hspace, hn, hrest => by
    have ha := hw a List.mem_cons_self
    have hw' : Spelled charOf textOf w := fun b hb => hw b (List.mem_cons_of_mem _ hb)
    have hspace' := fun b (hb : b ∈ w) => hspace b (List.mem_cons_of_mem _ hb)
    have hn' : w.length < n := Nat.lt_of_succ_lt_succ hn
    rw [List.flatMap_cons, List.append_assoc] at hrest
    have hnext := rest_advance hrest
    have hword : (c.advance (textOf a).length).readQuotedWord true n (charOf a :: word) = _ :=
      readQuotedWord_spelled hx hw' hspace' hn' hnext
    rw [List.flatMap_cons, List.length_append, ← advance_advance, List.map_cons, List.reverse_cons,
      List.append_assoc, List.singleton_append, ← hword]
    obtain ⟨hliteral, heq⟩ | hescape := ha
    · have hne : charOf a ≠ ' ' := fun h => hspace a List.mem_cons_self (by rw [heq, h])
      have hblank := hliteral.isSpace hne
      have hquote := hliteral.quote
      have hbackslash := hliteral.backslash
      rw [heq, List.singleton_append] at hrest
      rw [heq, readQuotedWord, hrest]
      simp [hblank, hliteral.line, hquote, hbackslash]
    · obtain ⟨letter, digits, heq, hbreak⟩ := hescape.shape
      have hread := hescape.reads c _ hrest
      rw [heq, List.cons_append, List.cons_append] at hrest
      have hbackslash : isSpace '\\' = false ∧ isBreak '\\' = false := ⟨rfl, rfl⟩
      rw [readQuotedWord, hrest]
      simp [hbackslash, hbreak, hread, bind, Except.bind]

theorem breakText_separator {cs : List Char} (hcs : isSeparatorText cs = true)
    (hrest : c.rest = cs ++ rest) : c.breakText = cs := by
  obtain ⟨y, rfl, -, -, hy⟩ := exists_of_isSeparatorText hcs
  rw [breakText, hrest]
  rcases hy with rfl | rfl <;> rfl

section Gaps

variable {x : Char} (hspace : isSpace x = false) (hbreak : isBreak x = false) (limit : Int)
include hspace hbreak

/-- Spaces between two words. -/
theorem readGap_spaces :
    ∀ {gap : List α} {n : Nat} {g : Gap} {c : Cursor}, (∀ a ∈ gap, textOf a = [' ']) →
      g.broken = false → gap.length < n → c.rest = gap.flatMap textOf ++ x :: rest →
      c.readGap limit n g
        = .ok ({ g with blanks := g.blanks ++ gap.flatMap textOf }, c.past textOf gap)
  | [], n + 1, g, c, _, _, _, hrest => by
    rw [List.flatMap_nil, List.nil_append] at hrest
    rw [readGap, hrest]
    simp [hspace, hbreak, past]
  | a :: gap, n + 1, g, c, hgap, hg, hn, hrest => by
    obtain ⟨ha, hgap⟩ := List.forall_mem_cons.1 hgap
    have hnot : isSeparatorText [' '] = false := rfl
    have hblank : isSpace ' ' = true := rfl
    rw [List.flatMap_cons, ha, List.append_assoc, List.singleton_append] at hrest
    have hnext : (c.advance 1).rest = gap.flatMap textOf ++ x :: rest := by
      rw [advance_rest, hrest]; rfl
    have ih := readGap_spaces (g := { g with blanks := g.blanks ++ [' '] }) hgap hg
      (Nat.lt_of_succ_lt_succ hn) hnext
    rw [readGap, hrest, past_cons, ha, hnot]
    simp only [hblank, if_true, hg, Bool.false_and, Bool.false_eq_true, if_false]
    rw [hg] at ih
    rw [ih, List.flatMap_cons, ha, List.append_assoc]
    rfl

/-- Separators behind a line break. -/
theorem readGap_separators :
    ∀ {gap : List α} {n : Nat} {g : Gap} {c : Cursor},
      (∀ a ∈ gap, isSeparatorText (textOf a) = true) → g.broken = true → gap.length < n →
      c.rest = gap.flatMap textOf ++ x :: rest →
      c.readGap limit n g
        = .ok ({ g with more := g.more ++ gap.flatMap textOf }, c.past textOf gap)
  | [], n + 1, g, c, _, _, _, hrest => by
    rw [List.flatMap_nil, List.nil_append] at hrest
    rw [readGap, hrest]
    simp [hspace, hbreak, past]
  | a :: gap, n + 1, g, c, hgap, hg, hn, hrest => by
    obtain ⟨ha, hgap⟩ := List.forall_mem_cons.1 hgap
    rw [List.flatMap_cons, List.append_assoc] at hrest
    have hnext : c.nextLine.rest = gap.flatMap textOf ++ x :: rest := by
      rw [nextLine_separator ha hrest]
    have htext := breakText_separator ha hrest
    have ih := readGap_separators (g := { g with more := g.more ++ c.breakText }) hgap hg
      (Nat.lt_of_succ_lt_succ hn) hnext
    rw [past_cons, if_pos ha, List.flatMap_cons, ← List.append_assoc, ← htext]
    obtain ⟨y, heq, hyspace, hybreak, -⟩ := exists_of_isSeparatorText ha
    rw [heq, List.singleton_append] at hrest
    rw [readGap, hrest]
    simp only [hyspace, hybreak, hg, Bool.false_eq_true, if_false, if_true]
    rw [hg] at ih
    exact ih

/-- A gap of spaces only, or of separators only, stands for itself. -/
theorem readGap_pure {gap : List α} {n : Nat}
    (hpure : (∀ a ∈ gap, textOf a = [' ']) ∨ ∀ a ∈ gap, isSeparatorText (textOf a) = true)
    (hn : gap.length < n) (hrest : c.rest = gap.flatMap textOf ++ x :: rest) :
    ∃ g : Gap, c.readGap limit n {} = .ok (g, c.past textOf gap) ∧
      g.text = gap.flatMap textOf := by
  rcases hpure with hspaces | hseparators
  · exact ⟨_, readGap_spaces hspace hbreak limit hspaces rfl hn hrest, rfl⟩
  · rcases gap with _ | ⟨a, gap⟩
    · have hnone : ∀ a ∈ ([] : List α), textOf a = [' '] := nofun
      exact ⟨_, readGap_spaces hspace hbreak limit hnone rfl hn hrest, rfl⟩
    obtain ⟨ha, hgap⟩ := List.forall_mem_cons.1 hseparators
    obtain ⟨n, rfl⟩ : ∃ k, n = k + 1 := ⟨n - 1, by omega⟩
    rw [List.flatMap_cons, List.append_assoc] at hrest
    have hnext : c.nextLine.rest = gap.flatMap textOf ++ x :: rest := by
      rw [nextLine_separator ha hrest]
    have htext := breakText_separator ha hrest
    have hmore := readGap_separators hspace hbreak limit
      (g := { broken := true, first := c.breakText }) hgap rfl (Nat.lt_of_succ_lt_succ hn) hnext
    obtain ⟨y, heq, hyspace, hybreak, hy⟩ := exists_of_isSeparatorText ha
    rw [heq, List.singleton_append] at hrest
    refine ⟨{ broken := true, first := c.breakText, more := [] ++ gap.flatMap textOf }, ?_, ?_⟩
    · rw [readGap, hrest, past_cons, if_pos ha]
      simp only [hyspace, hybreak, Bool.false_eq_true, if_false, if_true]
      exact hmore
    · rw [Gap.text, htext, heq, List.flatMap_cons, heq]
      rcases hy with rfl | rfl <;> rfl

end Gaps

/-! ## Document marks -/

/-- The closing quote is no part of a mark, nor does it come behind one. -/
theorem startsDocumentMark_quote {mark : Char} (hmark : mark ≠ '"') (rest : List Char) :
    ∀ w : List Char,
      startsDocumentMark mark (w ++ '"' :: rest) = startsDocumentMark mark (w ++ ['"'])
  | [] => by
    have h : ('"' == mark) = false := beq_false_of_ne hmark.symm
    rcases rest with _ | ⟨b, _ | ⟨c, rest⟩⟩ <;> simp [startsDocumentMark, h]
  | [a] => by
    have h : ('"' == mark) = false := beq_false_of_ne hmark.symm
    rcases rest with _ | ⟨c, rest⟩ <;> simp [startsDocumentMark, h]
  | [a, b] => by
    have h : ('"' == mark) = false := beq_false_of_ne hmark.symm
    simp [startsDocumentMark, h]
  | [a, b, c] => rfl
  | a :: b :: c :: d :: w => rfl

/-- No document mark starts behind a gap. -/
theorem Laid.atDocumentMark_past {gap s : List α} (h : Laid charOf textOf (gap ++ s))
    (hgap : gap ≠ [])
    (hpure : (∀ a ∈ gap, textOf a = [' ']) ∨ ∀ a ∈ gap, isSeparatorText (textOf a) = true)
    (hrest : c.rest = gap.flatMap textOf ++ (s.flatMap textOf ++ '"' :: rest)) :
    (c.past textOf gap).atDocumentMark = false := by
  rcases hpure with hspaces | hseparators
  · -- the column is not that of the start of a line
    have hnot : ∀ a ∈ gap, isSeparatorText (textOf a) = false := fun a ha => by
      rw [hspaces a ha]; rfl
    have hlength := List.length_pos_of_ne_nil hgap
    have hle : gap.length ≤ (gap.flatMap textOf).length :=
      length_le_flatMap fun a ha => by rw [hspaces a ha]; exact List.cons_ne_nil _ _
    have hcolumn : c.column + (gap.flatMap textOf).length ≠ 0 := by omega
    rw [past_eq_advance hnot, atDocumentMark, advance_column, beq_false_of_ne hcolumn,
      Bool.false_and]
  · obtain ⟨front, a, rfl⟩ := (List.eq_nil_or_concat gap).resolve_left hgap
    rw [List.concat_eq_append] at h hseparators hrest ⊢
    have hsuffix : a :: s <:+ (front ++ [a]) ++ s := ⟨front, by simp⟩
    have hmark := h.unmarked a s hsuffix (hseparators a (by simp))
    rw [atDocumentMark, rest_past hrest, startsDocumentMark_quote (by decide : '-' ≠ '"'),
      startsDocumentMark_quote (by decide : '.' ≠ '"'), hmark '-' (by simp), hmark '.' (by simp)]
    exact Bool.and_false _

theorem exists_cons_gap {gap : List α} (hgap : ∀ a ∈ gap, isGapText (textOf a) = true)
    (hne : gap ≠ []) (rest : List Char) :
    ∃ y tail, gap.flatMap textOf ++ rest = y :: tail ∧ (isSpace y = true ∨ isBreak y = true) ∧
      y ≠ '"' := by
  obtain ⟨a, gap, rfl⟩ := List.exists_cons_of_ne_nil hne
  have ha := hgap a List.mem_cons_self
  rw [isGapText, Bool.or_eq_true, beq_iff_eq] at ha
  rcases ha with ha | ha
  · exact ⟨' ', gap.flatMap textOf ++ rest, by rw [List.flatMap_cons, ha]; rfl, .inl rfl, by decide⟩
  · obtain ⟨y, heq, -, hybreak, -⟩ := exists_of_isSeparatorText ha
    refine ⟨y, gap.flatMap textOf ++ rest, by rw [List.flatMap_cons, heq]; rfl, .inr hybreak, ?_⟩
    rintro rfl
    cases hybreak

/-- What follows a gap starts with no blank. -/
theorem Laid.exists_cons_behind_gap {s : List α} (hs : Laid charOf textOf s)
    (hhead : s.head?.any (fun a => isGapText (textOf a)) = false) (rest : List Char) :
    ∃ x tail, s.flatMap textOf ++ '"' :: rest = x :: tail ∧ isBreak x = false ∧
      isSpace x = false := by
  rcases s with _ | ⟨a, s⟩
  · exact ⟨'"', rest, rfl, rfl, rfl⟩
  · rw [List.head?_cons, Option.any_some, isGapText, Bool.or_eq_false_iff, beq_eq_false_iff_ne]
      at hhead
    have ha := (hs.shows a List.mem_cons_self).resolve_right fun hsep => by
      rw [hhead.2] at hsep
      cases hsep.1
    obtain ⟨x, cs, heq, hbreak, hspace⟩ := ha.exists_cons
    refine ⟨x, cs ++ (s.flatMap textOf ++ '"' :: rest), ?_, hbreak, hspace hhead.1⟩
    rw [List.flatMap_cons, heq, List.append_assoc, List.cons_append]

/-! ## The whole text -/

section QuotedWords

variable {n : Nat} {words : List (List Char)} {w : List α} (hmark : c.atDocumentMark = false)
  (hsize : c.rest.length ≤ c.size) (hw : Spelled charOf textOf w)
  (hspace : ∀ a ∈ w, textOf a ≠ [' '])
include hmark hsize hw hspace

/-- Reading a word of a quoted text starts with its characters. -/
theorem readQuotedWords_word {x : Char} (hx : isSpace x = true ∨ isBreak x = true ∨ x = '"')
    (hrest : c.rest = w.flatMap textOf ++ x :: rest) :
    c.readQuotedWords true (n + 1) words =
      let c' := c.advance (w.flatMap textOf).length
      if c'.at? '"' then .ok (w.map charOf :: words, c'.advance 1)
      else (c'.readGap (-1) (c.size + 1) {}) >>= fun (gap, c'') =>
        c''.readQuotedWords true n (gap.text :: w.map charOf :: words) := by
  have hend : c.atEnd = false := by
    rw [atEnd, hrest]
    cases w.flatMap textOf <;> rfl
  have hfuel : w.length < c.size + 1 := by
    have hlength := hw.laid.length_le
    rw [hrest, List.length_append] at hsize
    omega
  rw [readQuotedWords, hmark, hend, readQuotedWord_spelled hx hw hspace hfuel hrest,
    List.append_nil]
  change (if _ then Except.ok ((w.map charOf).reverse.reverse :: words, _) else _) = _
  rw [List.reverse_reverse]
  rfl

theorem readQuotedWords_last (hrest : c.rest = w.flatMap textOf ++ '"' :: rest) :
    c.readQuotedWords true (n + 1) words
      = .ok (w.map charOf :: words, (c.advance (w.flatMap textOf).length).advance 1) := by
  have hquote : (c.advance (w.flatMap textOf).length).at? '"' = true := by
    rw [at?_eq (rest_advance hrest)]
    rfl
  rw [readQuotedWords_word hmark hsize hw hspace (.inr (.inr rfl)) hrest]
  dsimp only
  rw [if_pos hquote]

theorem readQuotedWords_more {gap : List α} {x : Char} (hx : isSpace x = false)
    (hbreak : isBreak x = false) (hgap : ∀ a ∈ gap, isGapText (textOf a) = true) (hne : gap ≠ [])
    (hpure : (∀ a ∈ gap, textOf a = [' ']) ∨ ∀ a ∈ gap, isSeparatorText (textOf a) = true)
    (hlength : gap.length ≤ (gap.flatMap textOf).length)
    (hrest : c.rest = w.flatMap textOf ++ (gap.flatMap textOf ++ x :: rest)) :
    c.readQuotedWords true (n + 1) words =
      ((c.advance (w.flatMap textOf).length).past textOf gap).readQuotedWords true n
        (gap.flatMap textOf :: w.map charOf :: words) := by
  have hnext := rest_advance hrest
  obtain ⟨y, tail, htail, hy, hquote⟩ := exists_cons_gap hgap hne (x :: rest)
  have hend : (c.advance (w.flatMap textOf).length).at? '"' = false := by
    rw [at?_eq hnext, htail, List.head?_cons]
    exact beq_false_of_ne fun heq => hquote (Option.some.inj heq)
  have hfuel : gap.length < c.size + 1 := by
    rw [hrest, List.length_append, List.length_append] at hsize
    omega
  obtain ⟨g, hread, htext⟩ := readGap_pure hx hbreak (-1) hpure hfuel hnext
  rw [htail] at hrest
  rw [readQuotedWords_word hmark hsize hw hspace (hy.imp_right .inl) hrest]
  dsimp only
  rw [hend, if_neg Bool.false_ne_true, hread, ← htext]
  rfl

end QuotedWords

/-- The words of a quoted text, up to and with the closing quote.  The induction is on the text, a
word and the gap behind it at a time. -/
theorem readQuotedWords_laid (m : Nat) :
    ∀ {s : List α} {n : Nat} (words : List (List Char)) {c : Cursor}, Laid charOf textOf s →
      s.length = m → m < n → c.atDocumentMark = false → c.rest.length ≤ c.size →
      c.rest = s.flatMap textOf ++ '"' :: rest →
      ∃ words', c.readQuotedWords true n words = .ok (words', (c.past textOf s).advance 1) ∧
        words'.reverse.flatten = words.reverse.flatten ++ s.map charOf := by
  induction m using Nat.strongRecOn with
  | ind m ih =>
  intro s n words c hs hm hn hmark hsize hrest
  obtain ⟨n, rfl⟩ : ∃ k, n = k + 1 := ⟨n - 1, by omega⟩
  obtain ⟨w, gap, s', rfl, hword, hgap, hhead, hend⟩ :=
    exists_word_gap (fun a => isGapText (textOf a)) s
  have hplain := fun a ha => Bool.or_eq_false_iff.1 (hword a ha)
  have hspace := fun a ha => beq_eq_false_iff_ne.1 (hplain a ha).1
  have hw : Spelled charOf textOf w := fun a ha =>
    (hs.shows a (List.mem_append_left _ ha)).resolve_right fun hsep => by
      rw [(hplain a ha).2] at hsep
      cases hsep.1
  have hpast := past_eq_advance (fun a ha => (hplain a ha).2) c
  rcases eq_or_ne gap [] with rfl | hne
  · obtain rfl := hend rfl
    rw [List.append_nil, List.append_nil] at hrest
    rw [List.append_nil, List.append_nil, hpast]
    exact ⟨_, readQuotedWords_last hmark hsize hw hspace hrest, by simp⟩
  · have hbehind := hs.right
    obtain ⟨x, tail, htail, hbreak, hblank⟩ := hbehind.right.exists_cons_behind_gap hhead rest
    have hpure := pure_of_isChain hgap hbehind.apart.left_of_append
    have hgapText := flatMap_eq_map fun a ha =>
      hbehind.textOf_eq (List.mem_append_left s' ha) (hgap a ha)
    rw [List.flatMap_append, List.flatMap_append, List.append_assoc, List.append_assoc] at hrest
    have hlength := List.length_pos_of_ne_nil hne
    simp only [List.length_append] at hm
    have hnext := rest_advance hrest
    obtain ⟨words', hread, hwords⟩ := ih s'.length (by omega) (n := n)
      (gap.flatMap textOf :: w.map charOf :: words) hbehind.right rfl (by omega)
      (hbehind.atDocumentMark_past hne hpure hnext)
      (by
        rw [rest_past hnext, size_past, advance_size]
        rw [hrest, List.length_append, List.length_append] at hsize
        omega)
      (rest_past hnext)
    refine ⟨words', ?_, ?_⟩
    · rw [htail] at hrest
      rw [readQuotedWords_more hmark hsize hw hspace hblank hbreak hgap hne hpure
        (by rw [hgapText, List.length_map]) hrest, hread, past_append, past_append, hpast]
    · rw [hwords, hgapText]
      simp

/-- The text of a quoted scalar, from its opening quote on. -/
def quotedText (textOf : α → List Char) (s : List α) : List Char :=
  '"' :: (s.flatMap textOf ++ ['"'])

/-- The cursor behind a quoted scalar. -/
def behindQuoted (textOf : α → List Char) (s : List α) (c : Cursor) : Cursor :=
  ((c.advance 1).past textOf s).advance 1

theorem rest_behindQuoted {s : List α} (hrest : c.rest = quotedText textOf s ++ rest) :
    (c.behindQuoted textOf s).rest = rest := by
  rw [quotedText, List.cons_append, List.append_assoc] at hrest
  have hnext : (c.advance 1).rest = s.flatMap textOf ++ (['"'] ++ rest) := by
    rw [advance_rest, hrest]
    rfl
  exact rest_advance (rest_past hnext)

theorem size_behindQuoted (s : List α) (c : Cursor) : (c.behindQuoted textOf s).size = c.size :=
  size_past s (c.advance 1)

/-- Without separators the text is on one line. -/
theorem Spelled.behindQuoted_eq {s : List α} (hs : Spelled charOf textOf s) (c : Cursor) :
    c.behindQuoted textOf s = c.advance (quotedText textOf s).length := by
  rw [behindQuoted, past_eq_advance (fun a ha => (hs a ha).not_isSeparatorText), advance_advance,
    advance_advance, quotedText, List.length_cons, List.length_append, List.length_singleton,
    Nat.add_comm 1, Nat.add_right_comm]

/-- **A text between quotes** is read as what its characters stand for. -/
theorem readQuoted_laid {s : List α} (hs : Laid charOf textOf s)
    (hsize : c.rest.length ≤ c.size) (hrest : c.rest = quotedText textOf s ++ rest) :
    c.readQuoted true = .ok (String.ofList (s.map charOf), c.behindQuoted textOf s) := by
  rw [quotedText, List.cons_append, List.append_assoc, List.singleton_append] at hrest
  have hnext : (c.advance 1).rest = s.flatMap textOf ++ '"' :: rest := by
    rw [advance_rest, hrest]; rfl
  have hlength := hs.length_le
  have hroom : (s.flatMap textOf).length + 2 ≤ c.size := by
    rw [hrest, List.length_cons, List.length_append, List.length_cons] at hsize
    omega
  have hcolumn : ((c.advance 1).column == 0) = false := beq_false_of_ne (Nat.succ_ne_zero _)
  obtain ⟨words, hread, hwords⟩ := readQuotedWords_laid _ (n := c.size + 1) [] hs rfl
    (by omega) (by rw [atDocumentMark, hcolumn, Bool.false_and])
    (by rw [advance_rest, List.length_drop, advance_size]; omega) hnext
  rw [readQuoted, hread]
  change Except.ok (String.ofList words.reverse.flatten, c.behindQuoted textOf s) = _
  rw [hwords, List.reverse_nil, List.flatten_nil, List.nil_append]

/-- A text without separators of lines. -/
theorem readQuoted_spelled {s : List α} (hs : Spelled charOf textOf s)
    (hsize : c.rest.length ≤ c.size) (hrest : c.rest = quotedText textOf s ++ rest) :
    c.readQuoted true
      = .ok (String.ofList (s.map charOf), c.advance (quotedText textOf s).length) := by
  rw [readQuoted_laid hs.laid hsize hrest, hs.behindQuoted_eq]

end Cursor

end JobMatrix.Yaml
