import JobMatrix.Gitlab.Scalar
import JobMatrix.Proofs.Yaml.Token.Quoted

/-!
# Reading the scalars of a pipeline file

* `Cursor.readQuoted_quote`: a text between quotes is read as that text, whatever is in it.
* `Cursor.readPlain_key`: a plain key is read as its name.
* `isStreamChar_of_mem_quote`, `isStreamChar_of_mem_key`: neither contains a character that a
  document may not hold raw.
-/

set_option autoImplicit false

namespace JobMatrix

open Text (upperHex)

namespace Gitlab

open Yaml

/-! ## Hexadecimal escapes -/

/-- Two digits write the controls. -/
theorem writes_control : ∀ n < 0xA0, Writes 2 n (upperHex 2 n) := by
  decide +kernel

/-- Four digits write the other escaped characters. -/
theorem writes_wide :
    ∀ n ∈ [0x2028, 0x2029, 0xFEFF, 0xFFFE, 0xFFFF], Writes 4 n (upperHex 4 n) := by
  decide +kernel

theorem toNat_of_isUnsafe {c : Char} (h : isUnsafe c = true) :
    c.toNat ∈ [0x2028, 0x2029, 0xFEFF, 0xFFFE, 0xFFFF] := by
  simpa [isUnsafe, or_assoc] using h

theorem lt_of_isControl {c : Char} (h : isControl c = true) : c.toNat < 0xA0 := by
  simp only [isControl, Bool.or_eq_true, Bool.and_eq_true, decide_eq_true_eq] at h
  omega

/-! ## Characters between quotes -/

/-- A character that stands for itself between quotes. -/
def IsRaw (c : Char) : Prop := c ≠ '"' ∧ c ≠ '\\' ∧ isControl c = false ∧ isUnsafe c = false

theorem IsRaw.toNat {c : Char} (h : IsRaw c) :
    0x20 ≤ c.toNat ∧ ¬(0x7F ≤ c.toNat ∧ c.toNat < 0xA0) ∧
      c.toNat ∉ [0x2028, 0x2029, 0xFEFF, 0xFFFE, 0xFFFF] := by
  obtain ⟨-, -, hcontrol, hunsafe⟩ := h
  simp only [isControl, Bool.or_eq_false_iff, Bool.and_eq_false_iff, decide_eq_false_iff_not]
    at hcontrol
  refine ⟨by omega, by omega, fun hmem => ?_⟩
  have hc : isUnsafe c = true := by simpa [isUnsafe, or_assoc] using hmem
  rw [hc] at hunsafe
  cases hunsafe

theorem IsRaw.isStreamChar {c : Char} (h : IsRaw c) : isStreamChar c = true := by
  obtain ⟨hlow, hmiddle, hunsafe⟩ := h.toNat
  simp only [List.mem_cons, List.not_mem_nil, or_false, not_or] at hunsafe
  simp only [Yaml.isStreamChar, Bool.or_eq_true, Bool.and_eq_true, beq_iff_eq, decide_eq_true_eq]
  omega

/-- A character that stands for itself is not among these. -/
theorem IsRaw.ne {c x : Char} (h : IsRaw c)
    (hx : isControl x = true ∨ isUnsafe x = true ∨ x = '"' ∨ x = '\\') : c ≠ x := by
  rintro rfl
  obtain ⟨hquote, hbackslash, hcontrol, hunsafe⟩ := h
  rcases hx with hx | hx | hx | hx
  · rw [hx] at hcontrol; cases hcontrol
  · rw [hx] at hunsafe; cases hunsafe
  · exact hquote hx
  · exact hbackslash hx

theorem IsRaw.isBreak {c : Char} (h : IsRaw c) : isBreak c = false := by
  have hne := fun x hx => beq_eq_false_iff_ne.2 (h.ne (x := x) hx)
  simp only [Yaml.isBreak, hne '\n' (.inl rfl), hne '\r' (.inl rfl), hne '\u0085' (.inl rfl),
    hne '\u2028' (.inr (.inl rfl)), hne '\u2029' (.inr (.inl rfl)), Bool.or_self]

theorem IsRaw.isLiteral {c : Char} (h : IsRaw c) : IsLiteral c where
  shown := h.isStreamChar
  quote := h.1
  backslash := h.2.1
  tab := h.ne (.inl rfl)
  line := h.isBreak

/-- Between quotes, a character stands for itself or is escaped. -/
theorem spells_escaped (c : Char) : Spells c (escaped c) := by
  rw [escaped]
  split
  · subst c; exact .inr (isEscape_letter rfl rfl rfl)
  rename_i hquote
  split
  · subst c; exact .inr (isEscape_letter rfl rfl rfl)
  rename_i hbackslash
  split
  · subst c; exact .inr (isEscape_letter rfl rfl rfl)
  split
  · subst c; exact .inr (isEscape_letter rfl rfl rfl)
  split
  · subst c; exact .inr (isEscape_letter rfl rfl rfl)
  split
  · rename_i hcontrol
    exact .inr (isEscape_digits rfl rfl rfl rfl (writes_control _ (lt_of_isControl hcontrol)))
  rename_i hcontrol
  split
  · rename_i hunsafe
    exact .inr (isEscape_digits rfl rfl rfl rfl (writes_wide _ (toNat_of_isUnsafe hunsafe)))
  rename_i hunsafe
  have hraw : IsRaw c :=
    ⟨hquote, hbackslash, Bool.eq_false_iff.2 hcontrol, Bool.eq_false_iff.2 hunsafe⟩
  exact .inl ⟨hraw.isLiteral, rfl⟩

end Gitlab

namespace Yaml.Cursor

open Gitlab

variable {c : Cursor} {rest : List Char}

/-- **A text between quotes is read as the text.** -/
theorem readQuoted_quote {s : String} (hsize : c.rest.length ≤ c.size)
    (hrest : c.rest = (quote s).toList ++ rest) :
    c.readQuoted true = .ok (s, c.advance (quote s).length) := by
  have hquote : (quote s).toList = quotedText escaped s.toList := by
    rw [quote, String.toList_ofList, quotedText, List.cons_append]
  have hspelled : Spelled id escaped s.toList := fun x _ => spells_escaped x
  rw [hquote] at hrest
  rw [readQuoted_spelled hspelled hsize hrest, List.map_id,
    String.ofList_toList, ← hquote, String.length_toList]

end Yaml.Cursor

/-! ## Plain keys -/

namespace Gitlab

open Yaml

/-- How a key is written. -/
def keyStyle (name : String) : ScalarStyle := if isPlainKey name then .plain else .doubleQuoted

theorem isPlainKeyChar_of_startsPlainKey {c : Char} (h : startsPlainKey c = true) :
    isPlainKeyChar c = true := by
  simp only [startsPlainKey, isPlainKeyChar, Char.isAlphanum, Bool.or_eq_true] at h ⊢
  tauto

/-- A character of a plain key is not among those that no plain key has. -/
theorem ne_of_isPlainKeyChar {c x : Char} (h : isPlainKeyChar c = true)
    (hx : isPlainKeyChar x = false) : c ≠ x := by
  rintro rfl
  rw [h] at hx
  cases hx

theorem toNat_of_isPlainKeyChar {c : Char} (h : isPlainKeyChar c = true) :
    0x20 < c.toNat ∧ c.toNat < 0x7F := by
  have halphanum : c.isAlphanum = ((decide ('A'.val ≤ c.val ∧ c.val ≤ 'Z'.val)
      || decide ('a'.val ≤ c.val) && decide (c.val ≤ 'z'.val))
        || decide ('0'.val ≤ c.val) && decide (c.val ≤ '9'.val)) := rfl
  have hc : c.toNat = c.val.toNat := rfl
  simp only [isPlainKeyChar, halphanum, Bool.or_eq_true, Bool.and_eq_true, decide_eq_true_eq,
    beq_iff_eq, UInt32.le_iff_toNat_le] at h
  rcases h with (((((⟨h, h'⟩ | ⟨h, h'⟩) | ⟨h, h'⟩) | rfl) | rfl) | rfl) | rfl
  · simp at h h'; omega
  · simp at h h'; omega
  · simp at h h'; omega
  all_goals decide

theorem isStreamChar_of_isPlainKeyChar {c : Char} (h : isPlainKeyChar c = true) :
    isStreamChar c = true := by
  have hc := toNat_of_isPlainKeyChar h
  simp only [Yaml.isStreamChar, Bool.or_eq_true, Bool.and_eq_true, beq_iff_eq, decide_eq_true_eq]
  omega

theorem not_blank_of_isPlainKeyChar {c : Char} (h : isPlainKeyChar c = true) :
    isSpace c = false ∧ isBreak c = false := by
  have hne := fun x hx => beq_eq_false_iff_ne.2 (ne_of_isPlainKeyChar (x := x) h hx)
  exact ⟨by simp only [isSpace, hne ' ' rfl, hne '\t' rfl, Bool.or_self],
    by simp only [Yaml.isBreak, hne '\n' rfl, hne '\r' rfl, hne '\u0085' rfl, hne '\u2028' rfl,
      hne '\u2029' rfl, Bool.or_self]⟩

/-- A plain key is a start and further characters. -/
theorem exists_cons_of_isPlainKey {name : String} (h : isPlainKey name = true) :
    ∃ x cs, name.toList = x :: cs ∧ startsPlainKey x = true ∧
      ∀ y ∈ name.toList, isPlainKeyChar y = true := by
  simp only [isPlainKey, Bool.and_eq_true, List.all_eq_true] at h
  obtain ⟨⟨hstart, hall⟩, -⟩ := h
  cases hname : name.toList with
  | nil => rw [hname] at hstart; cases hstart
  | cons x cs =>
    rw [hname] at hstart
    exact ⟨x, cs, rfl, hstart, hname ▸ hall⟩

end Gitlab

namespace Yaml

open Gitlab

variable {cs rest : List Char}

theorem plainWord?_key (hend : endsWord rest = true) :
    ∀ {cs : List Char}, (∀ y ∈ cs, isPlainKeyChar y = true) →
      Cursor.plainWord? false (cs ++ ':' :: rest) = some cs
  | [], _ => by
    have hcolon : isSpace ':' = false ∧ isBreak ':' = false := ⟨rfl, rfl⟩
    simp [Cursor.plainWord?, hend, hcolon]
  | y :: cs, h => by
    have hy := h y List.mem_cons_self
    have hcs := plainWord?_key hend fun z hz => h z (List.mem_cons_of_mem _ hz)
    have hcolon : y ≠ ':' := ne_of_isPlainKeyChar hy rfl
    simp [Cursor.plainWord?, not_blank_of_isPlainKeyChar hy, hcolon, hcs]

/-- A word with a `:` behind it is no document mark. -/
theorem startsDocumentMark_key {mark : Char} (hmark : mark ≠ ':')
    (h : ∀ y ∈ cs, isPlainKeyChar y = true) :
    startsDocumentMark mark (cs ++ ':' :: rest) = false := by
  have hcolon : (':' == mark) = false := beq_eq_false_iff_ne.2 hmark.symm
  rcases cs with _ | ⟨a, _ | ⟨b, _ | ⟨c, _ | ⟨d, cs⟩⟩⟩⟩
  · rcases rest with _ | ⟨_, _ | ⟨_, rest⟩⟩ <;> simp [startsDocumentMark, hcolon]
  · rcases rest with _ | ⟨_, rest⟩ <;> simp [startsDocumentMark, hcolon]
  · simp [startsDocumentMark, hcolon]
  · have hblank : isSpace ':' = false ∧ isBreak ':' = false := ⟨rfl, rfl⟩
    simp [startsDocumentMark, endsWord, hblank]
  · have hd := not_blank_of_isPlainKeyChar (h d (by simp))
    simp [startsDocumentMark, endsWord, hd]

/-- **A plain key is read as its name.** -/
theorem Cursor.readPlain_key {c : Cursor} {name : String} (indent : Int)
    (hname : isPlainKey name = true) (hend : endsWord rest = true)
    (hrest : c.rest = name.toList ++ ':' :: rest) :
    c.readPlain false indent = .ok (name, false, c.advance name.length) := by
  obtain ⟨x, cs, hcons, -, hall⟩ := exists_cons_of_isPlainKey hname
  have hmark : c.atDocumentMark = false := by
    rw [atDocumentMark, hrest, startsDocumentMark_key (by decide) hall,
      startsDocumentMark_key (by decide) hall, Bool.or_self, Bool.and_false]
  have hx : isPlainKeyChar x = true := hall x (by rw [hcons]; exact List.mem_cons_self)
  have hcomment : c.at? '#' = false := by
    rw [at?_eq hrest, hcons]
    simpa using ne_of_isPlainKeyChar hx rfl
  have hnext : (c.advance name.toList.length).rest = ':' :: rest := rest_advance hrest
  have hstop : (c.advance name.toList.length).sees (fun x => isSpace x || isBreak x) = false := by
    rw [sees_eq hnext]
    rfl
  have hword : c.readPlainWords false indent (c.size + 1) [] {}
      = .ok ([name.toList, []], false, c.advance name.toList.length) := by
    rw [readPlainWords, hmark, hcomment, hrest, plainWord?_key hend hall]
    simp only [Bool.or_self, Bool.false_eq_true, if_false]
    rw [hcons] at hstop ⊢
    simp only [hstop, Bool.not_false, if_true]
    rfl
  rw [readPlain, hword, ← String.length_toList]
  change Except.ok (String.ofList ([] ++ (name.toList ++ [])), false, _) = _
  rw [List.append_nil, List.nil_append, String.ofList_toList]

end Yaml

/-! ## Characters -/

namespace Gitlab

open Yaml

theorem isStreamChar_of_mem_quote {s : String} {x : Char} (hx : x ∈ (quote s).toList) :
    isStreamChar x = true := by
  rw [quote, String.toList_ofList, List.mem_append, List.mem_cons, List.mem_flatMap,
    List.mem_singleton] at hx
  obtain (rfl | ⟨c, -, hx⟩) | rfl := hx
  · rfl
  · exact (spells_escaped _).shown hx
  · rfl

theorem isStreamChar_of_mem_key {name : String} {x : Char} (hx : x ∈ (key name).toList) :
    isStreamChar x = true := by
  rw [key] at hx
  split at hx
  · rename_i hname
    obtain ⟨_, _, -, -, hall⟩ := exists_cons_of_isPlainKey hname
    exact isStreamChar_of_isPlainKeyChar (hall x hx)
  · exact isStreamChar_of_mem_quote hx

/-! ## Lengths -/

theorem length_escaped_le (x : Char) : (escaped x).length ≤ 6 := by
  unfold escaped
  split_ifs with _ _ _ _ _ hcontrol hunsafe
  all_goals try (simp only [List.length_cons, List.length_nil]; omega)
  · have hlength := (writes_control _ (lt_of_isControl hcontrol)).1
    rw [List.length_cons, List.length_cons, hlength]
    omega
  · have hlength := (writes_wide _ (toNat_of_isUnsafe hunsafe)).1
    rw [List.length_cons, List.length_cons, hlength]

theorem escaped_ne_nil (x : Char) : escaped x ≠ [] := by
  unfold escaped
  split_ifs <;> exact List.cons_ne_nil _ _

/-- A key is not much longer than its name. -/
theorem length_key_le (name : String) : (key name).length ≤ 6 * name.length + 2 := by
  have hescaped : ∀ cs : List Char, (cs.flatMap escaped).length ≤ 6 * cs.length := by
    intro cs
    induction cs with
    | nil => exact Nat.le_refl _
    | cons x cs ih =>
      have hx := length_escaped_le x
      rw [List.flatMap_cons, List.length_append, List.length_cons]
      omega
  rw [key]
  split
  · omega
  · have hname := hescaped name.toList
    rw [String.length_toList] at hname
    rw [quote, String.length_ofList, List.cons_append, List.length_cons, List.length_append,
      List.length_singleton]
    omega

/-- A key is not shorter than its name. -/
theorem length_le_length_key (name : String) : name.length ≤ (key name).length := by
  have hescaped : ∀ cs : List Char, cs.length ≤ (cs.flatMap escaped).length := by
    intro cs
    induction cs with
    | nil => exact Nat.le_refl _
    | cons x cs ih =>
      have hx := List.length_pos_iff.2 (escaped_ne_nil x)
      rw [List.flatMap_cons, List.length_append, List.length_cons]
      omega
  rw [key]
  split
  · exact Nat.le_refl _
  · have hname := hescaped name.toList
    rw [String.length_toList] at hname
    rw [quote, String.length_ofList, List.cons_append, List.length_cons, List.length_append]
    omega

end Gitlab

end JobMatrix
