import JobMatrix.Proofs.Yaml.Layout
import JobMatrix.Proofs.Yaml.Token.Scan

/-!
# The start and the end of a layout
-/

set_option autoImplicit false

namespace JobMatrix.Yaml

/-! ## The end -/

namespace Layout

variable {l : Layout} {c : Char} {cs : List Char}

theorem last_of_head (hhead : LineHead.empty.through cs = .empty) :
    ∀ x ∈ cs.getLast?, isBreak x = true := by
  intro x hx
  obtain ⟨ys, rfl⟩ := List.getLast?_eq_some_iff.1 hx
  rw [LineHead.through_append, LineHead.through_cons, LineHead.through_nil] at hhead
  cases hbreak : isBreak x with
  | true => rfl
  | false => exact absurd hhead (LineHead.next_ne_empty hbreak)

theorem column_indentTo_zero (l : Layout) : (l.indentTo 0).column = 0 := by
  rw [indentTo_eq, Nat.zero_sub]
  change (l.onLine 0).column = 0
  rw [onLine]
  split
  · rename_i hfresh
    simp only [Bool.and_eq_true, decide_eq_true_eq] at hfresh
    omega
  · rfl

end Layout

namespace Outline

open Layout

/-- **The lines of a document** start with no marks, and the last one is complete. -/
theorem render_lines (o : Outline) :
    (∀ x ∈ o.render.toList.getLast?, isBreak x = true) ∧ Unmarked o.render.toList ∧
      startsMark o.render.toList = false := by
  have hlayout := extends_layout false false none o sound_start
  obtain ⟨hto, -⟩ := hlayout.sound.indentTo 0
  have hhead : LineHead.empty.through o.render.toList = .empty :=
    hto.sound.column.1 (column_indentTo_zero _)
  have hlast := last_of_head hhead
  have hmarked : LineHead.empty.through o.render.toList ≠ .marked := by rw [hhead]; simp
  exact ⟨hlast, LineHead.unmarked_through hlast hmarked, LineHead.startsMark_through hlast hmarked⟩

end Outline

/-! ## The start -/

/-- How the text of a document starts: with an indicator or a plain scalar, with an empty mapping, or
with a tag.  No anchor is written. -/
inductive Opening (tag : Option String) : List Char → Prop
  | char {x : Char} {r : List Char} (hx : Scanner.startsToken x = true)
    (hne : x ∉ ['&', '!', '\x7b']) : Opening tag (x :: r)
  | braces (r : List Char) : Opening tag ('\x7b' :: '\x7d' :: r)
  | tag {name : String} {y : Char} {r : List Char} (hname : tag = some name)
    (hy : isSpace y = true ∨ isBreak y = true) : Opening tag (Layout.writtenTag name ++ y :: r)

theorem Opening.extend {tag : Option String} {cs cs' : List Char} (h : Opening tag cs)
    (hcs : cs <+: cs') : Opening tag cs' := by
  obtain ⟨more, rfl⟩ := hcs
  cases h with
  | char hx hne => exact .char hx hne
  | braces r => exact .braces (r ++ more)
  | tag hname hy =>
    rw [List.append_assoc]
    exact .tag hname hy

namespace Layout

variable {l : Layout} {name : String} {cs : List Char}

theorem prefix_indentTo (hindenting : l.indenting = false) (indent : Nat) :
    l.text.toList ++ ['\n'] <+: (l.indentTo indent).text.toList := by
  have hline : l.onLine indent = l.putBreak '\n' := by
    rw [onLine, hindenting]
    rfl
  rw [indentTo_eq, hline]
  simp

/-- The layout that starts with a tag. -/
theorem tag_start (name : String) :
    (tag (some name) {}).text.toList = writtenTag name ∧ (tag (some name) {}).spaced = false ∧
      (tag (some name) {}).indenting = false := by
  rw [tag_eq]
  refine ⟨?_, rfl, rfl⟩
  change (({} : Layout).putAll (writtenTag name)).text.toList = _
  rw [toList_putAll]
  rfl

/-- A tag is followed by a space. -/
theorem opening_space (hcs : (tag (some name) {}).separate.text.toList <+: cs) :
    Opening (some name) cs := by
  obtain ⟨htext, hspaced, -⟩ := tag_start name
  rw [separate, hspaced] at hcs
  change ((tag (some name) {}).put ' ').text.toList <+: cs at hcs
  rw [toList_put, htext] at hcs
  exact Opening.extend (.tag rfl (.inl rfl)) hcs

/-- A tag in front of a block collection is followed by a line break. -/
theorem opening_break {indent : Nat}
    (hcs : ((tag (some name) {}).indentTo indent).text.toList <+: cs) : Opening (some name) cs := by
  obtain ⟨htext, -, hindenting⟩ := tag_start name
  have hbreak := (prefix_indentTo hindenting indent).trans hcs
  rw [htext] at hbreak
  exact Opening.extend (.tag rfl (.inr rfl)) hbreak

end Layout

namespace Outline

open Layout

/-- The tag of a node. -/
def tag? : Outline → Option String
  | .scalar tag _ _ => tag
  | .sequence tag _ => tag
  | .mapping tag _ => tag

/-- The tag that a document starts with: that of the root, or else that of its first key. -/
def leadTag : Outline → Option String
  | .mapping none ((key, _) :: _) => key.tag?
  | o => o.tag?

/-- A node that is written within a line, or starts so. -/
def isLeaf : Outline → Prop
  | .scalar _ _ _ | .sequence _ [] | .mapping _ [] => True
  | _ => False

theorem isLeaf_of_isSimpleKey {o : Outline} (h : o.isSimpleKey = true) : o.isLeaf := by
  unfold isSimpleKey at h
  split at h
  · trivial
  · trivial
  · trivial
  · cases h

/-- A plain scalar is told from an indicator by its first character. -/
theorem opening_plain {tag : Option String} {cs : List Char} (hcs : allowsPlain cs = true)
    (hne : cs ≠ []) : Opening tag cs := by
  obtain ⟨x, r, rfl⟩ := List.exists_cons_of_ne_nil hne
  have hbreak := isBreak_of_allowsPlain hcs x List.mem_cons_self
  rw [allowsPlain, Bool.and_eq_true, Bool.and_eq_true, Bool.and_eq_true] at hcs
  obtain ⟨⟨⟨-, hloose⟩, hmarked⟩, hescapes⟩ := hcs
  have hspace : x ≠ ' ' := by
    rintro rfl
    simp [hasLooseEnd] at hloose
  have hindicator : Yaml.isIndicator x = false := by
    simp only [looksMarked, Bool.not_eq_true', Bool.or_eq_false_iff] at hmarked
    exact hmarked.1.1.2
  have hshown : isShown x = true := by
    simp only [needsEscapes, Bool.not_eq_true', Bool.or_eq_false_iff, Bool.not_eq_false',
      List.all_cons, Bool.and_eq_true] at hescapes
    exact hescapes.1.1
  have hother : ∀ y, isShown y = false ∨ Yaml.isIndicator y = true → x ≠ y := by
    rintro y hy rfl
    rw [hshown, hindicator] at hy
    simp at hy
  refine .char ?_ ?_
  · simp only [Scanner.startsToken, isSpace, hbreak, Bool.not_false, Bool.and_true,
      Bool.and_eq_true, Bool.not_eq_true', Bool.or_eq_false_iff, beq_eq_false_iff_ne, bne_iff_ne]
    exact ⟨⟨⟨hspace, hother _ (by decide)⟩, hother _ (by decide)⟩, hother _ (by decide)⟩
  · simp only [List.mem_cons, List.not_mem_nil, or_false, not_or]
    exact ⟨hother _ (by decide), hother _ (by decide), hother _ (by decide)⟩

theorem opening_leaf (inMapping simpleKey : Bool) (indent : Option Nat) {o : Outline}
    (ho : o.isLeaf) :
    ((o.layout inMapping simpleKey indent {}).text.toList = [] ∧
        (o.layout inMapping simpleKey indent {}).indenting = false ∧ simpleKey = false) ∨
      Opening o.tag? (o.layout inMapping simpleKey indent {}).text.toList := by
  match o, ho with
  | .scalar none style text, _ =>
    rw [layout]
    by_cases hplain : style.chosen simpleKey text.toList = .plain
    · have hallows := allowsPlain_of_chosen hplain
      rw [hplain]
      have htext : (Layout.scalar .plain (deeper indent 2) text.toList (tag none {})).text.toList
          = text.toList := by
        change (({} : Layout).putAll text.toList).text.toList = _
        rw [toList_putAll]
        rfl
      rw [htext]
      by_cases hne : text.toList = []
      · refine .inl ⟨hne, rfl, ?_⟩
        rw [hne] at hplain
        cases simpleKey with
        | false => rfl
        | true => cases style <;> cases hplain
      · exact .inr (opening_plain hallows hne)
    · obtain ⟨mark, hmark, hext⟩ := sound_start.marked (deeper_pos indent) hplain text.toList
      have htext : (({} : Layout).separate.put mark).text.toList = [mark] := by
        rw [toList_put]
        rfl
      have hext := hext.text
      rw [htext] at hext
      have hmarks : ∀ x ∈ ['"', '\x27', '|'], Scanner.startsToken x = true ∧
          x ∉ ['&', '!', '\x7b'] := by
        simp [Scanner.startsToken, isSpace, isBreak, byteOrderMark]
      exact .inr (Opening.extend (.char (hmarks mark hmark).1 (hmarks mark hmark).2) hext)
  | .scalar (some name) style text, _ =>
    refine .inr (opening_space ?_)
    rw [layout]
    exact ((sound_start.tag (some name)).sound.scalar (deeper_pos indent) allowsPlain_of_chosen).text
  | .sequence none [], _ =>
    rw [layout]
    exact .inr (.char (x := '[') (r := [']']) rfl (by decide))
  | .sequence (some name) [], _ =>
    refine .inr (opening_space ?_)
    rw [layout]
    exact (extends_brackets (sound_start.tag (some name)).sound (.inl rfl) (.inl rfl)).text
  | .mapping none [], _ =>
    rw [layout]
    exact .inr (.braces [])
  | .mapping (some name) [], _ =>
    refine .inr (opening_space ?_)
    rw [layout]
    exact (extends_brackets (sound_start.tag (some name)).sound (.inr rfl) (.inr rfl)).text

theorem prefix_layoutItems {l : Layout} (h : l.Sound) (indent : Nat) (item : Outline)
    (items : List Outline) : ((l.indentTo indent).indicator true '-').text.toList <+:
      (layoutItems indent (item :: items) l).text.toList := by
  rw [layoutItems]
  obtain ⟨hto, -⟩ := h.indentTo indent
  obtain ⟨hdash, -⟩ := hto.sound.indicator true (c := '-') rfl (by decide) (by decide)
  have hitem := extends_layout false false (some indent) item hdash.sound
  exact hitem.text.trans (extends_layoutItems indent items hitem.sound).text

theorem prefix_layoutEntries {l : Layout} (h : l.Sound) (indent : Nat) (key value : Outline)
    (entries : List (Outline × Outline)) :
    (if key.isSimpleKey then layout true true (some indent) key (l.indentTo indent)
      else (l.indentTo indent).indicator true '?').text.toList <+:
      (layoutEntries indent ((key, value) :: entries) l).text.toList := by
  rw [layoutEntries]
  obtain ⟨hto, -⟩ := h.indentTo indent
  dsimp only
  split
  · have hkey := extends_layout true true (some indent) key hto.sound
    obtain ⟨hput, -⟩ := hkey.sound.put_other (c := ':') rfl (by decide) (by decide) (by decide)
    have hvalue := extends_layout true false (some indent) value (hput.sound.unspaced false)
    have hrest := extends_layoutEntries indent entries hvalue.sound
    exact hput.text.trans (hvalue.text.trans hrest.text)
  · obtain ⟨hquestion, -⟩ := hto.sound.indicator true (c := '?') rfl (by decide) (by decide)
    have hkey := extends_layout true false (some indent) key hquestion.sound
    obtain ⟨hto', -⟩ := hkey.sound.indentTo indent
    obtain ⟨hcolon, -⟩ := hto'.sound.indicator true (c := ':') rfl (by decide) (by decide)
    have hvalue := extends_layout true false (some indent) value hcolon.sound
    have hrest := extends_layoutEntries indent entries hvalue.sound
    exact hkey.text.trans (hto'.text.trans (hto'.sound.separate.1.text.trans
      (hcolon.text.trans (hvalue.text.trans hrest.text))))

/-- A block collection starts at its indentation. -/
theorem indentTo_prefix_layoutItems {l : Layout} (h : l.Sound) (indent : Nat) (item : Outline)
    (items : List Outline) :
    (l.indentTo indent).text.toList <+: (layoutItems indent (item :: items) l).text.toList := by
  obtain ⟨hto, -⟩ := h.indentTo indent
  obtain ⟨hdash, -⟩ := hto.sound.indicator true (c := '-') rfl (by decide) (by decide)
  exact (hto.sound.separate.1.text.trans hdash.text).trans (prefix_layoutItems h indent item items)

theorem indentTo_prefix_layoutEntries {l : Layout} (h : l.Sound) (indent : Nat)
    (key value : Outline) (entries : List (Outline × Outline)) :
    (l.indentTo indent).text.toList <+:
      (layoutEntries indent ((key, value) :: entries) l).text.toList := by
  obtain ⟨hto, -⟩ := h.indentTo indent
  refine List.IsPrefix.trans ?_ (prefix_layoutEntries h indent key value entries)
  split
  · exact (extends_layout true true (some indent) key hto.sound).text
  · obtain ⟨hquestion, -⟩ := hto.sound.indicator true (c := '?') rfl (by decide) (by decide)
    exact hto.sound.separate.1.text.trans hquestion.text

/-- **How the text of a document starts.** -/
theorem render_opening (o : Outline) :
    o.render.toList = ['\n'] ∨ Opening o.leadTag o.render.toList := by
  have hlayout := extends_layout false false none o sound_start
  obtain ⟨hto, -⟩ := hlayout.sound.indentTo 0
  have hextend : ∀ {tag : Option String} {cs : List Char},
      cs <+: (o.layout false false none {}).text.toList → Opening tag cs →
      Opening tag o.render.toList := fun hcs h => (h.extend hcs).extend hto.text
  have hleaf : o.isLeaf → o.render.toList = ['\n'] ∨ Opening o.tag? o.render.toList := by
    intro ho
    obtain ⟨hempty, hindenting, -⟩ | hopening := opening_leaf false false none ho
    · have hline : (o.layout false false none {}).onLine 0
          = (o.layout false false none {}).putBreak '\n' := by
        rw [onLine, hindenting]
        rfl
      refine .inl ?_
      rw [render, indentTo_eq, hline]
      simp [hempty]
    · exact .inr (hopening.extend hto.text)
  have htagged : ∀ {name : String} {indent : Nat},
      ((tag (some name) {}).indentTo indent).text.toList <+:
        (o.layout false false none {}).text.toList → Opening (some name) o.render.toList :=
    fun hcs => hextend hcs (opening_break (List.prefix_refl _))
  cases o with
  | scalar tag style text => exact hleaf trivial
  | sequence tag items =>
    cases items with
    | nil => exact hleaf trivial
    | cons item items =>
      cases tag with
      | none =>
        have hitems := prefix_layoutItems sound_start 0 item items
        rw [layout.eq_def] at hextend
        exact .inr (hextend hitems (.char (x := '-') (r := []) rfl (by decide)))
      | some name =>
        have hitems := indentTo_prefix_layoutItems (sound_start.tag (some name)).sound 0 item items
        rw [layout.eq_def] at htagged
        exact .inr (htagged hitems)
  | mapping tag entries =>
    cases entries with
    | nil => cases tag <;> exact hleaf trivial
    | cons entry entries =>
      obtain ⟨key, value⟩ := entry
      cases tag with
      | some name =>
        have hentries := indentTo_prefix_layoutEntries (sound_start.tag (some name)).sound 0 key
          value entries
        rw [layout.eq_def] at htagged
        exact .inr (htagged hentries)
      | none =>
        have hentries := prefix_layoutEntries sound_start 0 key value entries
        rw [layout.eq_def] at hextend
        split at hentries
        · rename_i hkey
          obtain ⟨-, -, hsimple⟩ | hopening :=
            opening_leaf true true (some 0) (isLeaf_of_isSimpleKey hkey)
          · cases hsimple
          · exact .inr (hextend hentries hopening)
        · exact .inr (hextend hentries (.char (x := '?') (r := []) rfl (by decide)))

end Outline

end JobMatrix.Yaml
