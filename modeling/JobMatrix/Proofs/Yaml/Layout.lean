import JobMatrix.Proofs.Text.Hex
import JobMatrix.Proofs.Yaml.Excerpt.Cursor
import JobMatrix.Yaml.Layout

/-!
# The lines of a layout

A document that is laid out has no line that starts with a directive or a document mark, and its
text ends with a line break.  `LineHead` follows a line as far as it takes to tell it from a mark;
`Layout.Sound` is the invariant that every piece of a layout keeps.
-/

set_option autoImplicit false

namespace JobMatrix.Yaml

/-! ## Line heads -/

/-- What a line has come to so far. -/
inductive LineHead
  | empty
  | dash
  | dashes
  | dot
  | dots
  /-- Three dashes or three dots. -/
  | mark
  /-- A line that does not start with a mark. -/
  | text
  /-- A line with a mark has been met. -/
  | marked
deriving DecidableEq

namespace LineHead

/-- What a line comes to with one more character. -/
def extended (h : LineHead) (c : Char) : LineHead :=
  match h with
  | empty => if c = '%' then marked else if c = '-' then dash else if c = '.' then dot else text
  | dash => if c = '-' then dashes else text
  | dashes => if c = '-' then mark else text
  | dot => if c = '.' then dots else text
  | dots => if c = '.' then mark else text
  | mark => if isSpace c then marked else text
  | text => text
  | marked => marked

/-- What comes behind a line. -/
def ended (h : LineHead) : LineHead := if h = mark ∨ h = marked then marked else empty

/-- What the last line of a text comes to with one more character. -/
def next (h : LineHead) (c : Char) : LineHead := if isBreak c then h.ended else h.extended c

/-- The head of the last line of a text behind a line with this head. -/
def through (h : LineHead) (cs : List Char) : LineHead := cs.foldl next h

/-- No mark, and none with a space or a line break to come. -/
def isOpen (h : LineHead) : Prop := h ≠ mark ∧ h ≠ marked

variable {h : LineHead} {c : Char} {cs : List Char}

@[simp] theorem through_nil : h.through [] = h := rfl

@[simp] theorem through_cons : h.through (c :: cs) = (h.next c).through cs := rfl

theorem through_append (cs cs' : List Char) : h.through (cs ++ cs') = (h.through cs).through cs' :=
  List.foldl_append

theorem through_marked : ∀ cs : List Char, marked.through cs = marked
  | [] => rfl
  | c :: cs => by
    have hnext : marked.next c = marked := by
      rw [next]
      split <;> rfl
    rw [through_cons, hnext, through_marked cs]

theorem next_break (hh : h.isOpen) (hc : isBreak c = true) : h.next c = empty := by
  rw [next, if_pos hc, ended, if_neg]
  exact fun hmark => hmark.elim hh.1 hh.2

theorem next_eq (hc : isBreak c = false) : h.next c = h.extended c := by
  rw [next, hc]
  rfl

theorem next_text (hc : isBreak c = false) : text.next c = text := next_eq hc

theorem through_text : ∀ {cs : List Char}, (∀ c ∈ cs, isBreak c = false) → text.through cs = text
  | [], _ => rfl
  | c :: cs, hcs => by
    rw [through_cons, next_text (hcs c List.mem_cons_self)]
    exact through_text fun x hx => hcs x (List.mem_cons_of_mem _ hx)

/-- Most characters tell a line from a mark. -/
theorem next_other (hh : h.isOpen) (hc : isBreak c = false) (hdash : c ≠ '-') (hdot : c ≠ '.')
    (hpercent : c ≠ '%') : h.next c = text := by
  rw [next_eq hc]
  cases h with
  | mark => exact absurd rfl hh.1
  | marked => exact absurd rfl hh.2
  | _ => simp [extended, hdash, hdot, hpercent]

theorem next_ne_empty (hc : isBreak c = false) : h.next c ≠ empty := by
  rw [next_eq hc]
  cases h <;> rw [extended] <;> (repeat' split) <;> simp

/-! ## Marks -/

theorem startsDocumentMark_through {mark : Char} (hmark : mark = '-' ∨ mark = '.')
    (hlast : ∀ x ∈ cs.getLast?, isBreak x = true) (hcs : startsDocumentMark mark cs = true) :
    empty.through cs = marked := by
  match cs, hcs with
  | a :: b :: c :: rest, hcs =>
    simp only [startsDocumentMark, Bool.and_eq_true, beq_iff_eq] at hcs
    obtain ⟨⟨⟨rfl, rfl⟩, rfl⟩, hword⟩ := hcs
    have hthree : empty.through (c :: c :: c :: rest) = LineHead.mark.through rest := by
      obtain rfl | rfl := hmark <;> rfl
    rw [hthree]
    cases rest with
    | nil =>
      have hbreak := hlast c rfl
      obtain rfl | rfl := hmark <;> cases hbreak
    | cons y rest =>
      have hnext : LineHead.mark.next y = marked := by
        rw [endsWord, Bool.or_eq_true] at hword
        rw [next]
        split
        · rfl
        · rename_i hbreak
          rw [extended, if_pos (hword.resolve_right hbreak)]
      rw [through_cons, hnext, through_marked]

theorem startsMark_through (hlast : ∀ x ∈ cs.getLast?, isBreak x = true)
    (hcs : empty.through cs ≠ marked) : startsMark cs = false := by
  rw [Bool.eq_false_iff, ne_eq, startsMark, Bool.or_eq_true, Bool.or_eq_true]
  rintro ((hpercent | hdash) | hdot)
  · obtain ⟨rest, rfl⟩ := List.head?_eq_some_iff.1 (eq_of_beq hpercent)
    exact hcs (through_marked rest)
  · exact hcs (startsDocumentMark_through (.inl rfl) hlast hdash)
  · exact hcs (startsDocumentMark_through (.inr rfl) hlast hdot)

/-- A text that ends with a line break and comes to no mark has none. -/
theorem unmarked_through : ∀ {cs : List Char} {h : LineHead},
    (∀ x ∈ cs.getLast?, isBreak x = true) → h.through cs ≠ marked → Unmarked cs
  | [], _, _, _ => trivial
  | x :: cs, h, hlast, hcs => by
    have hlast' : ∀ y ∈ cs.getLast?, isBreak y = true := fun y hy =>
      hlast y (by rw [List.getLast?_cons, Option.mem_def.1 hy]; rfl)
    refine ⟨fun hx => startsMark_through hlast' fun hempty => hcs ?_, unmarked_through hlast' hcs⟩
    rw [through_cons, next, if_pos hx, ended]
    split
    · exact through_marked cs
    · exact hempty

end LineHead

/-! ## Pieces of a layout -/

namespace Layout

variable {l l' l'' : Layout} {c : Char} {cs : List Char}

/-- The head of the last line. -/
def head (l : Layout) : LineHead := LineHead.empty.through l.text.toList

@[simp] theorem toList_put (c : Char) (l : Layout) : (l.put c).text.toList = l.text.toList ++ [c] :=
  String.toList_push c

@[simp] theorem toList_putBreak (c : Char) (l : Layout) :
    (l.putBreak c).text.toList = l.text.toList ++ [c] :=
  String.toList_push c

theorem putAll_eq : ∀ (cs : List Char) (l : Layout), (l.putAll cs).text.toList = l.text.toList ++ cs ∧
    (l.putAll cs).column = l.column + cs.length ∧ (l.putAll cs).spaced = l.spaced ∧
      (l.putAll cs).indenting = l.indenting
  | [], l => ⟨(List.append_nil _).symm, rfl, rfl, rfl⟩
  | c :: cs, l => by
    obtain ⟨htext, hcolumn, hspaced, hindenting⟩ := putAll_eq cs (l.put c)
    refine ⟨?_, ?_, hspaced, hindenting⟩
    · change ((l.put c).putAll cs).text.toList = _
      rw [htext, toList_put, List.append_assoc]
      rfl
    · change ((l.put c).putAll cs).column = _
      rw [hcolumn, List.length_cons]
      change l.column + 1 + cs.length = _
      omega

@[simp] theorem toList_putAll (cs : List Char) (l : Layout) :
    (l.putAll cs).text.toList = l.text.toList ++ cs := (putAll_eq cs l).1

@[simp] theorem head_put (c : Char) (l : Layout) : (l.put c).head = l.head.next c := by
  rw [head, toList_put, LineHead.through_append]
  rfl

@[simp] theorem head_putBreak (c : Char) (l : Layout) : (l.putBreak c).head = l.head.next c := by
  rw [head, toList_putBreak, LineHead.through_append]
  rfl

@[simp] theorem head_putAll (cs : List Char) (l : Layout) :
    (l.putAll cs).head = l.head.through cs := by
  rw [head, toList_putAll, LineHead.through_append]
  rfl

/-- No line starts with a mark, whatever comes next. -/
structure Sound (l : Layout) : Prop where
  isOpen : l.head.isOpen
  column : l.column = 0 ↔ l.head = .empty
  /-- What a space separates from the next piece is no part of a mark. -/
  spaced : l.spaced = true → l.head = .empty ∨ l.head = .text

/-- The second layout has the text of the first one, and more. -/
structure Extends (l l' : Layout) : Prop where
  sound : l'.Sound
  text : l.text.toList <+: l'.text.toList

theorem Extends.trans (h : Extends l l') (h' : Extends l' l'') : Extends l l'' :=
  ⟨h'.sound, h.text.trans h'.text⟩

theorem Sound.extends (h : l.Sound) : Extends l l := ⟨h, List.prefix_refl _⟩

theorem isOpen_text : LineHead.isOpen .text := ⟨by simp, by simp⟩

theorem isOpen_empty : LineHead.isOpen .empty := ⟨by simp, by simp⟩

theorem sound_start : Sound {} where
  isOpen := isOpen_empty
  column := ⟨fun _ => rfl, fun _ => rfl⟩
  spaced := fun _ => .inl rfl

/-- A line that starts with no mark. -/
theorem sound_text (hhead : l.head = .text) (hcolumn : l.column ≠ 0) : l.Sound where
  isOpen := hhead ▸ isOpen_text
  column := by
    rw [hhead]
    exact ⟨fun h => absurd h hcolumn, fun h => by cases h⟩
  spaced := fun _ => .inr hhead

/-- The start of a line. -/
theorem sound_empty (hhead : l.head = .empty) (hcolumn : l.column = 0) : l.Sound where
  isOpen := hhead ▸ isOpen_empty
  column := ⟨fun _ => hhead, fun _ => hcolumn⟩
  spaced := fun _ => .inl hhead

theorem put_text (hhead : l.head = .text) (hc : isBreak c = false) :
    Extends l (l.put c) ∧ (l.put c).head = .text := by
  have hnext : (l.put c).head = .text := by rw [head_put, hhead, LineHead.next_text hc]
  exact ⟨⟨sound_text hnext (Nat.succ_ne_zero _), by simp⟩, hnext⟩

/-- A line that can be indented this far: the last one, or a new one. -/
def onLine (indent : Nat) (l : Layout) : Layout :=
  if l.indenting && l.column ≤ indent && (l.column != indent || l.spaced) then l
  else l.putBreak '\n'

theorem indentTo_eq (indent : Nat) (l : Layout) : l.indentTo indent =
    { (l.onLine indent).putAll (List.replicate (indent - (l.onLine indent).column) ' ') with
      spaced := true, indenting := true } :=
  rfl

namespace Sound

theorem column_ne (h : l.Sound) (hhead : l.head = .text) : l.column ≠ 0 := by
  rw [ne_eq, h.column, hhead]
  simp

theorem putAll_text (h : l.Sound) (hhead : l.head = .text) (hcs : ∀ c ∈ cs, isBreak c = false) :
    Extends l (l.putAll cs) ∧ (l.putAll cs).head = .text := by
  have hthrough : (l.putAll cs).head = .text := by rw [head_putAll, hhead, LineHead.through_text hcs]
  refine ⟨⟨sound_text hthrough ?_, by simp⟩, hthrough⟩
  rw [(putAll_eq cs l).2.1]
  exact fun hzero => h.column_ne hhead (Nat.eq_zero_of_add_eq_zero_right hzero)

/-- Behind a character that tells a line from a mark. -/
theorem put_other (h : l.Sound) (hc : isBreak c = false) (hdash : c ≠ '-') (hdot : c ≠ '.')
    (hpercent : c ≠ '%') : Extends l (l.put c) ∧ (l.put c).head = .text := by
  have hnext : (l.put c).head = .text := by
    rw [head_put, LineHead.next_other h.isOpen hc hdash hdot hpercent]
  exact ⟨⟨sound_text hnext (Nat.succ_ne_zero _), by simp⟩, hnext⟩

theorem putAll_other (h : l.Sound) (cs : List Char) (hc : isBreak c = false) (hdash : c ≠ '-')
    (hdot : c ≠ '.') (hpercent : c ≠ '%') (hcs : ∀ c ∈ cs, isBreak c = false) :
    Extends l (l.putAll (c :: cs)) ∧ (l.putAll (c :: cs)).head = .text := by
  obtain ⟨hput, hhead⟩ := h.put_other hc hdash hdot hpercent
  obtain ⟨hall, hhead⟩ := hput.sound.putAll_text hhead hcs
  exact ⟨hput.trans hall, hhead⟩

theorem putBreak (h : l.Sound) (hc : isBreak c = true) : Extends l (l.putBreak c) :=
  ⟨sound_empty (by rw [head_putBreak, LineHead.next_break h.isOpen hc]) rfl, by simp⟩

/-- Whether a line has only indentation so far does not matter. -/
theorem indenting (h : l.Sound) (b : Bool) : Sound { l with indenting := b } :=
  ⟨h.isOpen, h.column, h.spaced⟩

theorem unspaced (h : l.Sound) (b : Bool) : Sound { l with spaced := false, indenting := b } :=
  ⟨h.isOpen, h.column, fun hspaced => by cases hspaced⟩

/-- At the start of a line, or behind a space. -/
theorem separate (h : l.Sound) :
    Extends l l.separate ∧ (l.separate.head = .empty ∨ l.separate.head = .text) := by
  rw [Layout.separate]
  split
  · rename_i hspaced
    exact ⟨h.extends, h.spaced hspaced⟩
  · obtain ⟨hput, hhead⟩ := h.put_other (c := ' ') rfl (by decide) (by decide) (by decide)
    exact ⟨hput, .inr hhead⟩

/-- Indentation starts no mark. -/
theorem pad (h : l.Sound) (k : Nat) :
    Extends l (l.putAll (List.replicate k ' ')) ∧
      (0 < k ∨ l.head = .text → (l.putAll (List.replicate k ' ')).head = .text) := by
  cases k with
  | zero => exact ⟨h.extends, fun hk => hk.resolve_left (Nat.lt_irrefl 0)⟩
  | succ k =>
    obtain ⟨hput, hhead⟩ := h.putAll_other (c := ' ') (List.replicate k ' ') rfl
      (by decide) (by decide) (by decide) fun c hc => by rw [List.eq_of_mem_replicate hc]; rfl
    exact ⟨hput, fun _ => hhead⟩

/-- On a line that can be indented, there is indentation to come, or none is needed. -/
theorem onLine (h : l.Sound) (indent : Nat) :
    Extends l (l.onLine indent) ∧ ((l.onLine indent).column < indent ∨
      (l.onLine indent).head = .empty ∧ indent = 0 ∨ (l.onLine indent).head = .text) := by
  rw [Layout.onLine]
  split
  · rename_i hfresh
    rw [Bool.and_eq_true, Bool.and_eq_true, decide_eq_true_eq] at hfresh
    refine ⟨h.extends, ?_⟩
    obtain hlt | heq := Nat.lt_or_eq_of_le hfresh.1.2
    · exact .inl hlt
    · have hspaced : l.spaced = true := by simpa [heq] using hfresh.2
      refine .inr ((h.spaced hspaced).imp_left fun hhead => ⟨hhead, ?_⟩)
      rw [← heq, h.column, hhead]
  · have hput := h.putBreak (c := '\n') rfl
    refine ⟨hput, ?_⟩
    cases indent with
    | zero => exact .inr (.inl ⟨hput.sound.column.1 rfl, rfl⟩)
    | succ indent => exact .inl (Nat.succ_pos _)

/-- Behind the indentation of a line. -/
theorem indentTo (h : l.Sound) (indent : Nat) :
    Extends l (l.indentTo indent) ∧
      ((l.indentTo indent).head = .text ∨ indent = 0 ∧ (l.indentTo indent).head = .empty) := by
  obtain ⟨hline, hcases⟩ := h.onLine indent
  obtain ⟨hpad, htext⟩ := hline.sound.pad (indent - (l.onLine indent).column)
  have hready : (l.indentTo indent).head = .text ∨ indent = 0 ∧ (l.indentTo indent).head = .empty := by
    rw [indentTo_eq]
    obtain hlt | ⟨hempty, rfl⟩ | hhead := hcases
    · exact .inl (htext (.inl (by omega)))
    · rw [Nat.zero_sub] at hpad ⊢
      exact .inr ⟨rfl, hempty⟩
    · exact .inl (htext (.inr hhead))
  refine ⟨hline.trans ⟨⟨hpad.sound.isOpen, hpad.sound.column, fun _ => ?_⟩, hpad.text⟩, hready⟩
  exact hready.elim .inr fun hempty => .inl hempty.2

theorem indicator (h : l.Sound) (leading : Bool) (hc : isBreak c = false) (hdot : c ≠ '.')
    (hpercent : c ≠ '%') :
    Extends l.separate (l.indicator leading c) ∧ (c ≠ '-' → (l.indicator leading c).head = .text) := by
  obtain ⟨-, hready⟩ := h.separate
  have hnext : (c ≠ '-' → (l.separate.put c).head = .text) ∧ (l.separate.put c).head.isOpen := by
    rw [head_put]
    obtain hhead | hhead := hready
    · rw [hhead, LineHead.next_eq hc, LineHead.extended, if_neg hpercent, if_neg hdot]
      split
      · exact ⟨fun hdash => absurd ‹_› hdash, by simp, by simp⟩
      · exact ⟨fun _ => rfl, isOpen_text⟩
    · rw [hhead, LineHead.next_text hc]
      exact ⟨fun _ => rfl, isOpen_text⟩
  refine ⟨⟨⟨hnext.2, ?_, fun hspaced => by cases hspaced⟩, ?_⟩, hnext.1⟩
  · refine ⟨fun hzero => absurd hzero (Nat.succ_ne_zero _), fun hempty => ?_⟩
    change (l.separate.put c).head = .empty at hempty
    rw [head_put] at hempty
    exact absurd hempty (LineHead.next_ne_empty hc)
  · exact (toList_put c l.separate) ▸ List.prefix_append _ _

end Sound

/-! ## Scalars -/

theorem isBreak_upperHex {width n : Nat} (hc : c ∈ Text.upperHex width n) : isBreak c = false := by
  have hdigits : ∀ d ∈ Text.upperHexDigits, isBreak d = false := by
    simp [Text.upperHexDigits, isBreak]
  exact hdigits c (Text.mem_upperHexDigits hc)

theorem isBreak_escaped {x : Char} (hx : x ∈ escaped c) : isBreak x = false := by
  have hletters : ∀ letter, escapeLetter? c = some letter → isBreak letter = false := by
    intro letter hletter
    obtain ⟨before, after, hlist, -⟩ := List.lookup_eq_some_iff.1 hletter
    have hall : ∀ entry ∈ before ++ (c, letter) :: after, isBreak entry.2 = false := by
      rw [← hlist]
      decide
    exact hall (c, letter) (by simp)
  rw [escaped] at hx
  split at hx
  · rename_i hshown
    rw [List.mem_singleton.1 hx]
    simpa using (Bool.and_eq_true_iff.1 (Bool.and_eq_true_iff.1 (Bool.and_eq_true_iff.1 hshown).1).1).2
  split at hx
  · rename_i letter hletter
    rcases List.mem_cons.1 hx with rfl | hx
    · rfl
    · rw [List.mem_singleton.1 hx]
      exact hletters letter hletter
  · have hhex : ∀ {width : Nat} {kind : Char}, isBreak kind = false →
        x ∈ '\\' :: kind :: Text.upperHex width c.toNat → isBreak x = false := by
      intro width kind hkind hx
      rcases List.mem_cons.1 hx with rfl | hx
      · rfl
      rcases List.mem_cons.1 hx with rfl | hx
      · exact hkind
      · exact isBreak_upperHex hx
    dsimp only at hx
    split at hx
    · exact hhex rfl hx
    split at hx
    · exact hhex rfl hx
    · exact hhex rfl hx

theorem isBreak_of_allowsPlain (hcs : allowsPlain cs = true) : ∀ x ∈ cs, isBreak x = false := by
  rw [allowsPlain, Bool.and_eq_true, Bool.and_eq_true, Bool.and_eq_true, isMultiline,
    Bool.not_eq_true', List.any_eq_false] at hcs
  exact fun x hx => Bool.eq_false_iff.2 (hcs.1.1.1 x hx)

theorem isOpen_through_text (hcs : ∀ x ∈ cs, isBreak x = false) :
    (LineHead.text.through cs).isOpen ∧ LineHead.text.through cs ≠ .empty := by
  rw [LineHead.through_text hcs]
  exact ⟨isOpen_text, by simp⟩

/-- Behind the first character of a mark, two more characters have to be those of the mark. -/
theorem isOpen_through_marked {first second : LineHead} {mark : Char}
    (hfirst : ∀ x, first.extended x = if x = mark then second else .text)
    (hsecond : ∀ x, second.extended x = if x = mark then .mark else .text)
    (hopen : first.isOpen ∧ first ≠ .empty) (hopen' : second.isOpen ∧ second ≠ .empty)
    (hmark : [mark, mark].isPrefixOf cs = false) (hbreak : ∀ x ∈ cs, isBreak x = false) :
    (first.through cs).isOpen ∧ first.through cs ≠ .empty := by
  match cs with
  | [] => exact hopen
  | [x] =>
    rw [LineHead.through_cons, LineHead.next_eq (hbreak x (by simp)), hfirst]
    split
    · exact hopen'
    · exact isOpen_through_text (by simp)
  | x :: y :: cs =>
    have hcs : ∀ z ∈ cs, isBreak z = false := fun z hz => hbreak z (by simp [hz])
    rw [LineHead.through_cons, LineHead.through_cons, LineHead.next_eq (hbreak x (by simp)), hfirst]
    split
    · rename_i hx
      have hy : y ≠ mark := by
        rintro rfl
        rw [hx] at hmark
        simp [List.isPrefixOf] at hmark
      rw [LineHead.next_eq (hbreak y (by simp)), hsecond, if_neg hy]
      exact isOpen_through_text hcs
    · rw [LineHead.next_text (hbreak y (by simp))]
      exact isOpen_through_text hcs

/-- A line does not start with a mark if a plain scalar stands there. -/
theorem through_plain (hcs : allowsPlain cs = true) :
    (LineHead.empty.through cs).isOpen ∧ (LineHead.empty.through cs = .empty ↔ cs = []) := by
  have hbreak := isBreak_of_allowsPlain hcs
  have hmarked : looksMarked cs = false := by
    rw [allowsPlain, Bool.and_eq_true, Bool.and_eq_true, Bool.and_eq_true] at hcs
    simpa using hcs.1.2
  cases cs with
  | nil => exact ⟨isOpen_empty, by simp⟩
  | cons c cs =>
    simp only [looksMarked, Bool.or_eq_false_iff] at hmarked
    obtain ⟨⟨⟨⟨hdashes, hdots⟩, hindicator⟩, -⟩, -⟩ := hmarked
    have hpercent : c ≠ '%' := by
      rintro rfl
      cases hindicator
    have hrest : ∀ x ∈ cs, isBreak x = false := fun x hx => hbreak x (List.mem_cons_of_mem _ hx)
    have hsuffices : (LineHead.empty.through (c :: cs)).isOpen ∧
        LineHead.empty.through (c :: cs) ≠ .empty := by
      rw [LineHead.through_cons, LineHead.next_eq (hbreak c List.mem_cons_self), LineHead.extended,
        if_neg hpercent]
      split
      · rename_i hdash
        rw [hdash] at hdashes
        exact isOpen_through_marked (fun _ => rfl) (fun _ => rfl) (by simp [LineHead.isOpen])
          (by simp [LineHead.isOpen]) hdashes hrest
      split
      · rename_i hdot
        rw [hdot] at hdots
        exact isOpen_through_marked (fun _ => rfl) (fun _ => rfl) (by simp [LineHead.isOpen])
          (by simp [LineHead.isOpen]) hdots hrest
      · exact isOpen_through_text hrest
    exact ⟨hsuffices.1, by simpa using hsuffices.2⟩

namespace Sound

theorem plain (h : l.Sound) (indent : Nat) (hcs : allowsPlain cs = true) :
    Extends l.separate (l.scalar .plain indent cs) := by
  obtain ⟨hseparate, hready⟩ := h.separate
  obtain ⟨hopen, hempty⟩ := through_plain hcs
  have hcolumn := hseparate.sound.column
  refine ⟨⟨?_, ?_, fun hspaced => by cases hspaced⟩, by simp [Layout.scalar, closed]⟩
  · change (l.separate.putAll cs).head.isOpen
    rw [head_putAll]
    obtain hhead | hhead := hready
    · rw [hhead]
      exact hopen
    · rw [hhead, LineHead.through_text (isBreak_of_allowsPlain hcs)]
      exact isOpen_text
  · change (l.separate.putAll cs).column = 0 ↔ (l.separate.putAll cs).head = .empty
    rw [head_putAll, (putAll_eq cs l.separate).2.1, Nat.add_eq_zero_iff, hcolumn,
      List.length_eq_zero_iff]
    obtain hhead | hhead := hready
    · rw [hhead, hempty]
      simp
    · rw [hhead, LineHead.through_text (isBreak_of_allowsPlain hcs)]
      simp

theorem doubleQuoted (h : l.Sound) (indent : Nat) (cs : List Char) :
    Extends (l.separate.put '"') (l.scalar .doubleQuoted indent cs) := by
  obtain ⟨hseparate, -⟩ := h.separate
  obtain ⟨hall, hhead⟩ := hseparate.sound.putAll_other (c := '"') (cs.flatMap escaped) rfl
    (by decide) (by decide) (by decide) fun x hx => by
      obtain ⟨c, -, hx⟩ := List.mem_flatMap.1 hx
      exact isBreak_escaped hx
  obtain ⟨hput, -⟩ := put_text (c := '"') hhead rfl
  refine ⟨hput.sound.unspaced false, List.IsPrefix.trans ?_ hput.text⟩
  rw [toList_put, toList_putAll, List.prefix_append_right_inj]
  exact List.prefix_append ['"'] _

theorem singleQuotedBody {indent : Nat} (hindent : 0 < indent) :
    ∀ (cs : List Char) (broken : Bool) {l : Layout}, l.Sound → broken = true ∨ l.head = .text →
      Extends l (singleQuotedBody indent broken cs l) ∧
        (Layout.singleQuotedBody indent broken cs l).head = .text
  | [], broken, l, h, hhead => by
    rw [Layout.singleQuotedBody]
    split
    · obtain ⟨hto, hready⟩ := h.indentTo indent
      exact ⟨hto, hready.resolve_right fun hzero => by omega⟩
    · rename_i hbroken
      exact ⟨h.extends, hhead.resolve_left hbroken⟩
  | c :: cs, broken, l, h, hhead => by
    rw [Layout.singleQuotedBody]
    split
    · rename_i hc
      dsimp only
      have hdouble : Extends l (if !broken && c == '\n' then l.putBreak '\n' else l) := by
        split
        · exact h.putBreak rfl
        · exact h.extends
      have hput := hdouble.sound.putBreak hc
      obtain ⟨hrest, hhead⟩ := singleQuotedBody hindent cs true (hput.sound.indenting true) (.inl rfl)
      exact ⟨(hdouble.trans hput).trans ⟨hrest.sound, hrest.text⟩, hhead⟩
    · rename_i hc
      have hc : isBreak c = false := Bool.eq_false_iff.2 hc
      dsimp only
      obtain ⟨l₁, hl₁, hext₁, hsettled⟩ : ∃ l₁, (if broken && c != ' ' then l.indentTo indent else l)
          = l₁ ∧ Extends l l₁ ∧ (l₁.head = .text ∨ c = ' ') := by
        refine ⟨_, rfl, ?_⟩
        split
        · obtain ⟨hto, hready⟩ := h.indentTo indent
          exact ⟨hto, .inl (hready.resolve_right fun hzero => by omega)⟩
        · rename_i hbroken
          refine ⟨h.extends, ?_⟩
          obtain rfl | hhead := hhead
          · exact .inr (by simpa using hbroken)
          · exact .inl hhead
      rw [hl₁]
      obtain ⟨l₂, hl₂, hext₂, hsettled⟩ : ∃ l₂, (if c == '\x27' then l₁.put c else l₁) = l₂ ∧
          Extends l₁ l₂ ∧ (l₂.head = .text ∨ c = ' ') := by
        refine ⟨_, rfl, ?_⟩
        split
        · rename_i hquote
          have hhead := hsettled.resolve_right fun hspace => by rw [hspace] at hquote; cases hquote
          obtain ⟨hput, hhead⟩ := put_text hhead hc
          exact ⟨hput, .inl hhead⟩
        · exact ⟨hext₁.sound.extends, hsettled⟩
      rw [hl₂]
      obtain ⟨hput, hhead⟩ : Extends l₂ (l₂.put c) ∧ (l₂.put c).head = .text := by
        obtain hhead | rfl := hsettled
        · exact put_text hhead hc
        · exact hext₂.sound.put_other rfl (by decide) (by decide) (by decide)
      obtain ⟨hrest, hhead⟩ := singleQuotedBody hindent cs (broken && c == ' ')
        (hput.sound.indenting ((l₂.put c).indenting && c == ' ')) (.inr hhead)
      exact ⟨((hext₁.trans hext₂).trans hput).trans ⟨hrest.sound, hrest.text⟩, hhead⟩

theorem literalBody {indent : Nat} (hindent : 0 < indent) :
    ∀ (cs : List Char) (broken : Bool) {l : Layout}, l.Sound → broken = true ∨ l.head = .text →
      Extends l (literalBody indent broken cs l)
  | [], broken, l, h, hhead => by
    rw [Layout.literalBody]
    exact h.extends
  | c :: cs, broken, l, h, hhead => by
    rw [Layout.literalBody]
    split
    · rename_i hc
      have hput := h.putBreak hc
      have hrest := literalBody hindent cs true (hput.sound.indenting true) (.inl rfl)
      exact hput.trans ⟨hrest.sound, hrest.text⟩
    · rename_i hc
      have hc : isBreak c = false := Bool.eq_false_iff.2 hc
      dsimp only
      obtain ⟨l₁, hl₁, hext₁, hhead₁⟩ : ∃ l₁, (if broken then l.indentTo indent else l) = l₁ ∧
          Extends l l₁ ∧ l₁.head = .text := by
        refine ⟨_, rfl, ?_⟩
        split
        · obtain ⟨hto, hready⟩ := h.indentTo indent
          exact ⟨hto, hready.resolve_right fun hzero => by omega⟩
        · rename_i hbroken
          exact ⟨h.extends, hhead.resolve_left hbroken⟩
      rw [hl₁]
      obtain ⟨hput, hhead⟩ := put_text hhead₁ hc
      have hrest := literalBody hindent cs false (hput.sound.indenting false)
        (.inr hhead)
      exact (hext₁.trans hput).trans ⟨hrest.sound, hrest.text⟩

theorem singleQuoted (h : l.Sound) {indent : Nat} (hindent : 0 < indent) (cs : List Char) :
    Extends (l.separate.put '\x27') (l.scalar .singleQuoted indent cs) := by
  obtain ⟨hopened, hhead⟩ := h.indicator false (c := '\x27') rfl (by decide) (by decide)
  obtain ⟨hbody, hhead⟩ := hopened.sound.singleQuotedBody hindent cs false (.inr (hhead (by decide)))
  obtain ⟨hput, -⟩ := put_text (c := '\x27') hhead rfl
  exact ⟨hput.sound.unspaced false, hbody.text.trans hput.text⟩

theorem literal (h : l.Sound) {indent : Nat} (hindent : 0 < indent) (cs : List Char) :
    Extends (l.separate.put '|') (l.scalar .literal indent cs) := by
  have hhints : ∀ x ∈ literalHints cs, isBreak x = false := by
    intro x hx
    have hall : ∀ y ∈ ['2', '-', '+'], isBreak y = false := by simp [isBreak]
    unfold literalHints at hx
    refine hall x ?_
    rcases List.mem_append.1 hx with hx | hx <;> revert hx <;> (repeat' split) <;> simp +contextual
  obtain ⟨hseparate, -⟩ := h.separate
  obtain ⟨hall, -⟩ := hseparate.sound.putAll_other (c := '|') (literalHints cs) rfl (by decide)
    (by decide) (by decide) hhints
  have hput := hall.sound.putBreak (c := '\n') rfl
  have hstart : Sound { (l.separate.putAll ('|' :: literalHints cs)).putBreak '\n' with
      spaced := true, indenting := true } :=
    ⟨hput.sound.isOpen, hput.sound.column, fun _ => .inl (hput.sound.column.1 rfl)⟩
  have hbody := hstart.literalBody hindent cs true (.inl rfl)
  refine ⟨hbody.sound, List.IsPrefix.trans ?_ (hput.text.trans hbody.text)⟩
  rw [toList_put, toList_putAll, List.prefix_append_right_inj]
  exact List.prefix_append ['|'] _

/-- A scalar that is not plain starts with an indicator. -/
theorem marked (h : l.Sound) {style : ScalarStyle} {indent : Nat} (hindent : 0 < indent)
    (hstyle : style ≠ .plain) (cs : List Char) :
    ∃ mark ∈ ['"', '\x27', '|'], Extends (l.separate.put mark) (l.scalar style indent cs) := by
  cases style with
  | plain => exact absurd rfl hstyle
  | singleQuoted => exact ⟨_, by simp, h.singleQuoted hindent cs⟩
  | doubleQuoted => exact ⟨_, by simp, h.doubleQuoted indent cs⟩
  | literal => exact ⟨_, by simp, h.literal hindent cs⟩
  | folded => exact ⟨_, by simp, h.literal hindent cs⟩

/-- A scalar in a style that its text allows. -/
theorem scalar (h : l.Sound) {style : ScalarStyle} {indent : Nat} (hindent : 0 < indent)
    (hstyle : style = .plain → allowsPlain cs = true) :
    Extends l.separate (l.scalar style indent cs) := by
  by_cases hplain : style = .plain
  · subst hplain
    exact h.plain indent (hstyle rfl)
  · obtain ⟨mark, -, hmark⟩ := h.marked hindent hplain cs
    exact ⟨hmark.sound, List.IsPrefix.trans ((toList_put mark l.separate) ▸ List.prefix_append _ _)
      hmark.text⟩

end Sound

theorem allowsPlain_of_chosen {wish : ScalarStyle} {simpleKey : Bool}
    (h : wish.chosen simpleKey cs = .plain) : allowsPlain cs = true := by
  have hquoted : (if allowsSingleQuoted cs then ScalarStyle.singleQuoted else .doubleQuoted)
      ≠ .plain := by
    split <;> simp
  unfold ScalarStyle.chosen at h
  dsimp only at h
  split at h
  · cases h
  cases wish with
  | plain =>
    dsimp only at h
    split at h
    · rename_i hplain
      exact (Bool.and_eq_true_iff.1 hplain).1
    · exact absurd h hquoted
  | singleQuoted => exact absurd h hquoted
  | doubleQuoted => cases h
  | _ =>
    dsimp only at h
    split at h <;> cases h

/-! ## Tags -/

theorem not_blank_of_isTagChar {verbatim : Bool} (hc : isTagChar verbatim c = true) :
    isSpace c = false ∧ isBreak c = false := by
  have hblank : ∀ x ∈ [' ', '\t', '\n', '\r', '\u0085', '\u2028', '\u2029'],
      isTagChar true x = false ∧ isTagChar false x = false := by
    simp [isTagChar, isWordChar]
  have hx : c ∉ [' ', '\t', '\n', '\r', '\u0085', '\u2028', '\u2029'] := by
    intro hmem
    obtain ⟨htrue, hfalse⟩ := hblank c hmem
    cases verbatim <;> simp_all
  simp only [List.mem_cons, List.not_mem_nil, or_false, not_or] at hx
  simp [isSpace, isBreak, hx]

theorem isBreak_tagContent {name : List Char} {x : Char} (hx : x ∈ tagContent name) :
    isBreak x = false := by
  obtain ⟨c, -, hx⟩ := List.mem_flatMap.1 hx
  split at hx
  · rename_i hplain
    rw [List.mem_singleton.1 hx]
    rw [isPlainTagChar, Bool.and_eq_true, Bool.and_eq_true] at hplain
    exact (not_blank_of_isTagChar hplain.1.1).2
  · obtain ⟨b, -, hx⟩ := List.mem_flatMap.1 hx
    rcases List.mem_cons.1 hx with rfl | hx
    · rfl
    · exact isBreak_upperHex hx

/-- A tag as it is written. -/
def writtenTag (name : String) : List Char :=
  match name.toList with
  | '!' :: first :: rest => '!' :: tagContent (first :: rest)
  | cs => '!' :: '<' :: tagContent cs ++ ['>']

theorem writtenTag_local {name : String} {first : Char} {rest : List Char}
    (hname : name.toList = '!' :: first :: rest) :
    writtenTag name = '!' :: tagContent (first :: rest) := by
  rw [writtenTag, hname]
  rfl

theorem writtenTag_verbatim {name : String}
    (hlocal : ¬∃ first rest, name.toList = '!' :: first :: rest) :
    writtenTag name = '!' :: '<' :: tagContent name.toList ++ ['>'] := by
  rw [writtenTag]
  split
  · exact absurd ⟨_, _, ‹_›⟩ hlocal
  · rfl

theorem tag_eq (name : String) (l : Layout) :
    l.tag (some name) = (l.separate.putAll (writtenTag name)).closed := by
  by_cases hlocal : ∃ first rest, name.toList = '!' :: first :: rest
  · obtain ⟨first, rest, hname⟩ := hlocal
    rw [writtenTag_local hname, Layout.tag, hname]
    rfl
  · rw [writtenTag_verbatim hlocal, Layout.tag]
    split
    · exact absurd ⟨_, _, ‹_›⟩ hlocal
    · rfl

theorem writtenTag_eq (name : String) : ∃ cs, writtenTag name = '!' :: cs ∧
    ∀ x ∈ cs, isBreak x = false := by
  rw [writtenTag]
  split
  · exact ⟨_, rfl, fun x hx => isBreak_tagContent hx⟩
  · refine ⟨_, rfl, fun x hx => ?_⟩
    rcases List.mem_cons.1 hx with rfl | hx
    · rfl
    rcases List.mem_append.1 hx with hx | hx
    · exact isBreak_tagContent hx
    · rw [List.mem_singleton.1 hx]
      rfl

theorem Sound.tag (h : l.Sound) (name : Option String) : Extends l (l.tag name) := by
  cases name with
  | none => exact h.extends
  | some name =>
    obtain ⟨cs, hwritten, hcs⟩ := writtenTag_eq name
    obtain ⟨hseparate, -⟩ := h.separate
    obtain ⟨hall, -⟩ := hseparate.sound.putAll_other (c := '!') cs rfl (by decide) (by decide)
      (by decide) hcs
    rw [tag_eq, hwritten]
    exact hseparate.trans ⟨hall.sound.unspaced false, hall.text⟩

end Layout

/-! ## The tree -/

namespace Outline

variable {l : Layout}

theorem deeper_pos (indent : Option Nat) : 0 < deeper indent 2 := by
  cases indent with
  | none => exact Nat.succ_pos 1
  | some i => exact Nat.succ_pos (i + 1)

open Layout

theorem extends_brackets (h : l.Sound) {left right : Char} (hleft : left = '[' ∨ left = '\x7b')
    (hright : right = ']' ∨ right = '\x7d') :
    Extends l.separate ((l.indicator false left).put right) := by
  have hc : isBreak left = false ∧ left ≠ '.' ∧ left ≠ '%' ∧ left ≠ '-' := by
    obtain rfl | rfl := hleft <;> decide
  obtain ⟨hopened, hhead⟩ := h.indicator false hc.1 hc.2.1 hc.2.2.1
  obtain ⟨hput, -⟩ := put_text (c := right) (hhead hc.2.2.2)
    (by obtain rfl | rfl := hright <;> rfl)
  exact hopened.trans hput

mutual

/-- **Every piece of a layout keeps its lines clear of marks.** -/
theorem extends_layout (inMapping simpleKey : Bool) (indent : Option Nat) :
    ∀ (o : Outline) {l : Layout}, l.Sound → Extends l (o.layout inMapping simpleKey indent l)
  | .scalar tag style text, l, h => by
    rw [layout]
    have htag := h.tag tag
    exact (htag.trans htag.sound.separate.1).trans
      (htag.sound.scalar (deeper_pos indent) allowsPlain_of_chosen)
  | .sequence tag [], l, h => by
    rw [layout]
    have htag := h.tag tag
    exact (htag.trans htag.sound.separate.1).trans
      (extends_brackets htag.sound (.inl rfl) (.inl rfl))
  | .sequence tag (item :: items), l, h => by
    have htag := h.tag tag
    rw [layout.eq_def]
    dsimp only
    split
    · exact htag.trans (extends_layoutItems _ (item :: items) htag.sound)
    · exact htag.trans (extends_layoutItems _ (item :: items) htag.sound)
  | .mapping tag [], l, h => by
    rw [layout]
    have htag := h.tag tag
    exact (htag.trans htag.sound.separate.1).trans
      (extends_brackets htag.sound (.inr rfl) (.inr rfl))
  | .mapping tag (entry :: entries), l, h => by
    rw [layout.eq_def]
    have htag := h.tag tag
    exact htag.trans (extends_layoutEntries _ (entry :: entries) htag.sound)

theorem extends_layoutItems (indent : Nat) :
    ∀ (items : List Outline) {l : Layout}, l.Sound → Extends l (layoutItems indent items l)
  | [], l, h => h.extends
  | item :: items, l, h => by
    rw [layoutItems]
    obtain ⟨hto, -⟩ := h.indentTo indent
    obtain ⟨hdash, -⟩ := hto.sound.indicator true (c := '-') rfl (by decide) (by decide)
    have hitem := extends_layout false false (some indent) item hdash.sound
    exact (hto.trans hto.sound.separate.1).trans
      (hdash.trans (hitem.trans (extends_layoutItems indent items hitem.sound)))

theorem extends_layoutEntries (indent : Nat) :
    ∀ (entries : List (Outline × Outline)) {l : Layout}, l.Sound →
      Extends l (layoutEntries indent entries l)
  | [], l, h => h.extends
  | (key, value) :: entries, l, h => by
    rw [layoutEntries]
    obtain ⟨hto, -⟩ := h.indentTo indent
    dsimp only
    split
    · have hkey := extends_layout true true (some indent) key hto.sound
      obtain ⟨hput, -⟩ := hkey.sound.put_other (c := ':') rfl (by decide) (by decide) (by decide)
      have hvalue := extends_layout true false (some indent) value (hput.sound.unspaced false)
      have hrest := extends_layoutEntries indent entries hvalue.sound
      exact hto.trans (hkey.trans (hput.trans (Extends.trans ⟨hput.sound, List.prefix_refl _⟩
        (Extends.trans ⟨hvalue.sound, hvalue.text⟩ hrest))))
    · obtain ⟨hquestion, -⟩ := hto.sound.indicator true (c := '?') rfl (by decide) (by decide)
      have hkey := extends_layout true false (some indent) key hquestion.sound
      obtain ⟨hto', -⟩ := hkey.sound.indentTo indent
      obtain ⟨hcolon, -⟩ := hto'.sound.indicator true (c := ':') rfl (by decide) (by decide)
      have hvalue := extends_layout true false (some indent) value hcolon.sound
      have hrest := extends_layoutEntries indent entries hvalue.sound
      exact (hto.trans hto.sound.separate.1).trans (hquestion.trans (hkey.trans
        (hto'.trans (hto'.sound.separate.1.trans (hcolon.trans (hvalue.trans hrest))))))

end

end Outline

end JobMatrix.Yaml
