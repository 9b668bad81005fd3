import JobMatrix.Proofs.Yaml.Token.Scan
import Mathlib.Data.List.TakeWhile

/-!
# Blanks between tokens

Spaces, tabs and line breaks separate tokens, and `Scanner.next_blanks` passes over any number of
them.  Tabs are the exception: outside of flow collections they must not stand where a key may
start, which is so at the start of a document and behind any line break (`TabsPass`).
-/

set_option autoImplicit false

namespace JobMatrix.Yaml.Scanner

variable {s : Scanner} {w cs : List Char}

/-! ## Characters -/

/-- The characters that separate tokens. -/
def isBlank (c : Char) : Bool := isSpace c || isBreak c

/-- The tabs among some blanks are passed over. -/
def TabsPass (flow allowed : Bool) (cs : List Char) : Prop :=
  flow = true ∨ '\t' ∉ if allowed then cs else cs.dropWhile (!isBreak ·)

theorem isSpace_of_isBreak {x : Char} (h : isBreak x = true) : isSpace x = false := by
  simp only [isBreak, Bool.or_eq_true, beq_iff_eq] at h
  rcases h with (((rfl | rfl) | rfl) | rfl) | rfl <;> rfl

theorem isBreak_of_isSpace {x : Char} (h : isSpace x = true) : isBreak x = false := by
  rw [← Bool.not_eq_true]
  intro hbreak
  rw [isSpace_of_isBreak hbreak] at h
  cases h

/-- A character in front of which blanks end, on their line. -/
def endsBlanks (x : Char) : Bool := !isSpace x && x != '#' && x != byteOrderMark

theorem endsBlanks_of_isBreak {x : Char} (h : isBreak x = true) : endsBlanks x = true := by
  simp only [isBreak, Bool.or_eq_true, beq_iff_eq] at h
  rcases h with (((rfl | rfl) | rfl) | rfl) | rfl <;> rfl

theorem endsBlanks_of_startsToken {x : Char} (h : startsToken x = true) : endsBlanks x = true := by
  simp only [startsToken, endsBlanks, Bool.and_eq_true] at h ⊢
  exact ⟨⟨h.1.1.1, h.1.2⟩, h.2⟩

theorem isBreak_of_startsToken {x : Char} (h : startsToken x = true) : isBreak x = false := by
  simp only [startsToken, Bool.and_eq_true, Bool.not_eq_true'] at h
  exact h.1.1.2

/-! ## Within a line -/

/-- The blanks of a line are passed over. -/
theorem trimmed_blanks (hrest : s.cursor.rest = cs ++ w)
    (hcs : ∀ x ∈ cs, (x == ' ' || ((s.inFlow || !s.keyAllowed) && x == '\t')) = true)
    (hw : ∀ x ∈ w.head?, endsBlanks x = true) : s.trimmed = s.cursor.advance cs.length := by
  have hends : ∀ x ∈ w.head?, isSpace x = false ∧ x ≠ '#' ∧ x ≠ byteOrderMark := by
    intro x hx
    simpa [endsBlanks, and_assoc] using hw x hx
  have hstart : s.cursor.at? byteOrderMark = false := by
    rw [Cursor.at?_eq hrest]
    rcases cs with _ | ⟨x, cs⟩
    · rcases w with _ | ⟨x, w⟩
      · rfl
      · simpa using (hends x rfl).2.2
    · have hx := hcs x List.mem_cons_self
      simp only [Bool.or_eq_true, Bool.and_eq_true, beq_iff_eq] at hx
      rcases hx with rfl | ⟨-, rfl⟩ <;> rfl
  have hstop : w.head?.any (fun x => x == ' ' || ((s.inFlow || !s.keyAllowed) && x == '\t'))
      = false := by
    rcases w with _ | ⟨x, w⟩
    · rfl
    · have hx := (hends x rfl).1
      simp only [isSpace, Bool.or_eq_false_iff] at hx
      simp [hx.1, hx.2]
  have hcomment : (s.cursor.advance cs.length).at? '#' = false := by
    rw [Cursor.at?_eq (Cursor.rest_advance hrest)]
    rcases w with _ | ⟨x, w⟩
    · rfl
    · simpa using (hends x rfl).2.1
  rw [trimmed, hstart, Bool.and_false]
  simp only [Bool.false_eq_true, if_false]
  rw [Cursor.skip_eq hrest hcs hstop, hcomment]
  rfl

/-! ## Over lines -/

/-- Behind a line break among blanks there are blanks again. -/
theorem nextLine_blanks {c : Cursor} {x : Char} (hrest : c.rest = x :: (cs ++ w))
    (hw : ∀ x ∈ w.head?, isBreak x = false) :
    c.nextLine.size = c.size ∧
      ∃ cs', c.nextLine.rest = cs' ++ w ∧ (cs = cs' ∨ cs = '\n' :: cs') := by
  rw [Cursor.nextLine]
  split
  · rename_i rest heq
    rw [hrest] at heq
    obtain ⟨-, heq⟩ := List.cons.inj heq
    refine ⟨rfl, ?_⟩
    rcases cs with _ | ⟨y, cs⟩
    · rw [List.nil_append] at heq
      rw [heq] at hw
      exact absurd (hw '\n' rfl) (by decide)
    · obtain ⟨rfl, rfl⟩ := List.cons.inj heq
      exact ⟨cs, rfl, .inr rfl⟩
  · rename_i heq
    rw [hrest] at heq
    obtain ⟨-, rfl⟩ := List.cons.inj heq
    exact ⟨rfl, cs, rfl, .inl rfl⟩
  · rename_i heq
    rw [hrest] at heq
    cases heq

/-- Blanks are a line of spaces and tabs, or such a line, a break and further blanks. -/
theorem blanks_cases (hcs : ∀ x ∈ cs, isBlank x = true) :
    (∀ x ∈ cs, isSpace x = true) ∨
      ∃ l x cs', cs = l ++ x :: cs' ∧ (∀ y ∈ l, isSpace y = true) ∧ isBreak x = true := by
  have hsplit := List.takeWhile_append_dropWhile (p := isSpace) (l := cs)
  cases hdrop : cs.dropWhile isSpace with
  | nil =>
    rw [hdrop, List.append_nil] at hsplit
    exact .inl fun x hx => List.mem_takeWhile_imp (hsplit.symm ▸ hx)
  | cons x cs' =>
    have hhead := List.head?_dropWhile_not isSpace cs
    rw [hdrop] at hsplit hhead
    have hspace : isSpace x = false := by simpa using hhead
    have hx := hcs x (by rw [← hsplit]; exact List.mem_append_right _ List.mem_cons_self)
    rw [isBlank, hspace, Bool.false_or] at hx
    exact .inr ⟨_, x, cs', hsplit.symm, fun y hy => List.mem_takeWhile_imp hy, hx⟩

theorem any_isBreak_eq_false (hcs : ∀ x ∈ cs, isSpace x = true) : cs.any isBreak = false := by
  rw [List.any_eq_false]
  intro x hx
  rw [isBreak_of_isSpace (hcs x hx)]
  exact Bool.false_ne_true

/-- Behind a token and on its line, tabs are passed over. -/
theorem TabsPass.of_isSpace {flow : Bool} (hcs : ∀ x ∈ cs, isSpace x = true) :
    TabsPass flow false cs := by
  refine .inr ?_
  have hdrop : cs.dropWhile (!isBreak ·) = [] := by
    rw [List.dropWhile_eq_nil_iff]
    exact fun x hx => by rw [isBreak_of_isSpace (hcs x hx)]; rfl
  rw [if_neg Bool.false_ne_true, hdrop]
  exact List.not_mem_nil

/-- The tabs in front of the first line break. -/
theorem TabsPass.first {flow allowed : Bool} {l : List Char} (h : TabsPass flow allowed (l ++ w))
    (hl : ∀ x ∈ l, isSpace x = true) :
    ∀ x ∈ l, (x == ' ' || ((flow || !allowed) && x == '\t')) = true := by
  intro x hx
  have hspace := hl x hx
  rw [isSpace, Bool.or_eq_true] at hspace
  rcases hspace with hspace | htab
  · rw [hspace, Bool.true_or]
  · rw [htab, Bool.and_true, Bool.or_eq_true]
    rcases h with rfl | h
    · exact .inr rfl
    · cases allowed with
      | false => exact .inr (by rw [Bool.not_false, Bool.or_true])
      | true =>
        rw [if_pos rfl] at h
        rw [← beq_iff_eq.1 htab] at h
        exact absurd (List.mem_append_left _ hx) h

/-- The tabs behind the first line break. -/
theorem TabsPass.behind {flow allowed : Bool} {l cs' : List Char} {x : Char}
    (h : TabsPass flow allowed (l ++ x :: cs)) (hl : ∀ x ∈ l, isSpace x = true)
    (hx : isBreak x = true) (hcs' : cs = cs' ∨ cs = '\n' :: cs') :
    TabsPass flow (allowed || !flow) cs' := by
  rcases h with rfl | h
  · exact .inl rfl
  · refine .inr ?_
    have hdrop : (l ++ x :: cs).dropWhile (!isBreak ·) = x :: cs := by
      rw [List.dropWhile_append_of_pos fun y hy => by rw [isBreak_of_isSpace (hl y hy)]; rfl,
        List.dropWhile_cons, hx]
      rfl
    have hcs : '\t' ∉ cs := by
      cases allowed with
      | false =>
        rw [if_neg Bool.false_ne_true, hdrop] at h
        exact fun hmem => h (List.mem_cons_of_mem _ hmem)
      | true => exact fun hmem => h (List.mem_append_right _ (List.mem_cons_of_mem _ hmem))
    have hcs' : '\t' ∉ cs' := by
      rcases hcs' with rfl | rfl
      · exact hcs
      · exact fun hmem => hcs (List.mem_cons_of_mem _ hmem)
    split
    · exact hcs'
    · exact fun hmem => hcs' ((List.dropWhile_suffix _).subset hmem)

/-- Spaces and tabs in front of a token are passed over. -/
theorem next_blanks_spaces {w : List Char} (hw : ∀ x ∈ w.head?, startsToken x = true)
    (hrest : s.cursor.rest = cs ++ w) (hspaces : ∀ x ∈ cs, isSpace x = true)
    (htabs : TabsPass s.inFlow s.keyAllowed cs) :
    s.next = { s with cursor := s.cursor.advance cs.length } := by
  have htrimmed := trimmed_blanks hrest
    (TabsPass.first (w := []) (by rwa [List.append_nil]) hspaces)
    fun x hx => endsBlanks_of_startsToken (hw x hx)
  have hbreak : (s.cursor.advance cs.length).sees isBreak = false := by
    rw [Cursor.sees_eq (Cursor.rest_advance hrest)]
    rcases w with _ | ⟨x, w⟩
    · rfl
    · exact isBreak_of_startsToken (hw x rfl)
  rw [next_eq, htrimmed, hbreak]
  rfl

/-- The first line break is passed over, with what stands in front of it. -/
theorem next_blanks_break {w l : List Char} {x : Char} (hw : ∀ x ∈ w.head?, startsToken x = true)
    (hrest : s.cursor.rest = l ++ x :: cs ++ w) (hl : ∀ y ∈ l, isSpace y = true)
    (hx : isBreak x = true) (htabs : TabsPass s.inFlow s.keyAllowed (l ++ x :: cs)) :
    s.next = s.broken.next ∧ s.broken.cursor.size = s.cursor.size ∧
      ∃ cs', s.broken.cursor.rest = cs' ++ w ∧ (cs = cs' ∨ cs = '\n' :: cs') := by
  rw [List.append_assoc, List.cons_append] at hrest
  have htrimmed := trimmed_blanks hrest (htabs.first hl) fun y hy => by
    rw [← Option.some.inj hy]
    exact endsBlanks_of_isBreak hx
  have hline := Cursor.rest_advance hrest
  have hbreak : s.trimmed.sees isBreak = true := by
    rw [htrimmed, Cursor.sees_eq hline]
    exact hx
  obtain ⟨hsize, hbroken⟩ := nextLine_blanks (c := s.trimmed) (htrimmed ▸ hline)
    fun x hx => isBreak_of_startsToken (hw x hx)
  refine ⟨by rw [next_eq, hbreak, if_pos rfl], ?_, hbroken⟩
  rw [broken, hsize, htrimmed]
  rfl

/-- **Blanks are passed over.**  Outside of flow collections, a key may start behind a line break.
The induction is on the blanks, a line at a time. -/
theorem next_blanks {w : List Char} (hw : ∀ x ∈ w.head?, startsToken x = true) (m : Nat) :
    ∀ {cs : List Char} {s : Scanner}, cs.length = m → s.cursor.rest = cs ++ w →
      (∀ x ∈ cs, isBlank x = true) → TabsPass s.inFlow s.keyAllowed cs →
      ∃ c : Cursor, s.next = { s with
          cursor := c, keyAllowed := s.keyAllowed || (!s.inFlow && cs.any isBreak) } ∧
        c.rest = w ∧ c.size = s.cursor.size ∧
        (cs.any isBreak = false → c = s.cursor.advance cs.length) := by
  induction m using Nat.strongRecOn with
  | ind m ih =>
  intro cs s hm hrest hcs htabs
  obtain hspaces | ⟨l, x, cs, rfl, hl, hx⟩ := blanks_cases hcs
  · refine ⟨_, ?_, Cursor.rest_advance hrest, rfl, fun _ => rfl⟩
    rw [next_blanks_spaces hw hrest hspaces htabs, any_isBreak_eq_false hspaces, Bool.and_false,
      Bool.or_false]
  · obtain ⟨hbroken, hsize, cs', hrest', hcs'⟩ := next_blanks_break hw hrest hl hx htabs
    have hshort : cs'.length < m := by
      rw [List.length_append, List.length_cons] at hm
      rcases hcs' with rfl | rfl
      · omega
      · rw [List.length_cons] at hm; omega
    have hblank : ∀ y ∈ cs', isBlank y = true := by
      intro y hy
      refine hcs y (List.mem_append_right _ (List.mem_cons_of_mem _ ?_))
      rcases hcs' with rfl | rfl
      · exact hy
      · exact List.mem_cons_of_mem _ hy
    obtain ⟨c, hnext, hc, hcsize, -⟩ := ih _ hshort (s := s.broken) rfl hrest' hblank
      (htabs.behind hl hx hcs')
    have hany : (l ++ x :: cs).any isBreak = true :=
      List.any_eq_true.2 ⟨x, List.mem_append_right _ List.mem_cons_self, hx⟩
    have hallowed : (s.broken.keyAllowed || (!s.broken.inFlow && cs'.any isBreak))
        = (s.keyAllowed || !s.inFlow) := by
      change (s.keyAllowed || !s.inFlow || (!s.inFlow && cs'.any isBreak)) = _
      cases s.keyAllowed <;> cases s.inFlow <;> rfl
    refine ⟨c, ?_, hc, hcsize.trans hsize, fun h => by rw [hany] at h; cases h⟩
    rw [hbroken, hnext, hany, Bool.and_true, hallowed]
    rfl

end JobMatrix.Yaml.Scanner
