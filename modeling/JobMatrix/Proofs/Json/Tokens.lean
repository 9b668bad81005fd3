import JobMatrix.Proofs.Json.Source
import JobMatrix.Proofs.Yaml.Token.Flow

/-!
# Scanning JSON as YAML

A value of JSON is a flow collection or a double-quoted scalar of YAML, and `Json.tokens` lists its
tokens.  `Source.scans` scans a portable text of the value to these tokens, piece by piece along
the text, and `Document.Portable.tokens_text` a whole text.
-/

set_option autoImplicit false

namespace JobMatrix.Json

open Yaml Yaml.Scanner

/-! ## Tokens of a value -/

mutual

/-- The tokens of a value. -/
def tokens : Json → List Token
  | number n => [.scalar .plain (toString n)]
  | text s => [.scalar .doubleQuoted s]
  | list items => .flowSequenceStart :: itemsTokens true items ++ [.flowSequenceEnd]
  | object fields => .flowMappingStart :: fieldsTokens true fields ++ [.flowMappingEnd]

/-- The tokens of items.  All but the `first` have a comma in front. -/
def itemsTokens (first : Bool) : List Json → List Token
  | [] => []
  | item :: items => (if first then [] else [.flowEntry]) ++ item.tokens ++ itemsTokens false items

/-- The tokens of fields.  All but the `first` have a comma in front. -/
def fieldsTokens (first : Bool) : List (String × Json) → List Token
  | [] => []
  | (name, value) :: fields =>
    (if first then [] else [.flowEntry]) ++ [.key, .scalar .doubleQuoted name, .value]
      ++ value.tokens ++ fieldsTokens false fields

end

/-! ## Characters of strings -/

theorem HexDigit.reads (d : HexDigit) :
    hexValue? d.char = some d.value.val ∧ isStreamChar d.char = true ∧ isBlank d.char = false := by
  have hall : ∀ (value : Fin 16) (upper : Bool),
      hexValue? (HexDigit.char ⟨value, upper⟩) = some value.val ∧
        isStreamChar (HexDigit.char ⟨value, upper⟩) = true ∧
        isBlank (HexDigit.char ⟨value, upper⟩) = false := by
    decide
  exact hall d.value d.upper

theorem CodeUnit.writes (u : CodeUnit) : Writes 4 u.value u.text := by
  refine ⟨rfl, ?_, ?_⟩
  · simp only [text, List.all_cons, HexDigit.reads, List.all_nil, Bool.and_self]
  · simp only [text, hexNumber?, HexDigit.reads, Option.bind_some, value, Nat.mul_zero, Nat.zero_add]

theorem toNat_ofNat {n : Nat} (h : n.isValidChar) : (Char.ofNat n).toNat = n := by
  rw [Char.ofNat, dif_pos h]
  rfl

theorem isEscape_short (e : ShortEscape) : IsEscape e.char ['\\', e.letter] := by
  cases e <;> exact isEscape_letter rfl rfl rfl

theorem isSeparatorText_eq_true_iff {cs : List Char} :
    isSeparatorText cs = true ↔ ∃ c, cs = [c] ∧ IsSeparator c := by
  simp only [isSeparatorText, Bool.or_eq_true, beq_iff_eq]
  constructor
  · rintro (rfl | rfl)
    · exact ⟨_, rfl, .inl rfl⟩
    · exact ⟨_, rfl, .inr rfl⟩
  · rintro ⟨c, rfl, rfl | rfl⟩
    · exact .inl rfl
    · exact .inr rfl

/-- The characters that stand for themselves in JSON and in YAML. -/
theorem isLiteral_of_toNat {c : Char} (hlow : 0x20 ≤ c.toNat) (hquote : c ≠ '"')
    (hbackslash : c ≠ '\\') (hmiddle : ¬(0x7F ≤ c.toNat ∧ c.toNat < 0xA0))
    (hhigh : c.toNat ∉ [0xFFFE, 0xFFFF]) (hline : ¬IsSeparator c) : IsLiteral c where
  shown := by
    simp only [List.mem_cons, List.not_mem_nil, or_false, not_or] at hhigh
    simp only [isStreamChar, Bool.or_eq_true, Bool.and_eq_true, beq_iff_eq, decide_eq_true_eq]
    omega
  quote := hquote
  backslash := hbackslash
  tab := by
    rintro rfl
    exact absurd hlow (by decide)
  line := by
    rw [← Bool.not_eq_true]
    intro h
    simp only [isBreak, Bool.or_eq_true, beq_iff_eq] at h
    rcases h with (((rfl | rfl) | rfl) | rfl) | rfl
    · exact absurd hlow (by decide)
    · exact absurd hlow (by decide)
    · exact hmiddle (by decide)
    · exact hline (.inl rfl)
    · exact hline (.inr rfl)

namespace Spelling

variable {x : Spelling}

/-- A portable spelling is one of YAML for the same character, or a separator. -/
theorem Portable.shows (h : x.Portable) :
    Spells x.char x.text ∨ isSeparatorText x.text = true ∧ x.text = [x.char] := by
  cases x with
  | raw c hc =>
    by_cases hline : IsSeparator c
    · exact .inr ⟨isSeparatorText_eq_true_iff.2 ⟨c, rfl, hline⟩, rfl⟩
    · exact .inl (.inl ⟨isLiteral_of_toNat hc.1 hc.2.1 hc.2.2 h.1 h.2 hline, rfl⟩)
  | short e => exact .inl (.inr (isEscape_short e))
  | unit u hu =>
    refine .inl (.inr (isEscape_digits rfl rfl rfl rfl ?_))
    rw [char, toNat_ofNat hu]
    exact u.writes
  | pair high low hhigh hlow => exact h.elim

theorem Portable.shown (h : x.Portable) {c : Char} (hc : c ∈ x.text) : isStreamChar c = true := by
  rcases h.shows with hspells | ⟨hseparator, -⟩
  · exact hspells.shown hc
  · obtain ⟨y, htext, hy⟩ := isSeparatorText_eq_true_iff.1 hseparator
    rw [htext, List.mem_singleton] at hc
    rcases hy with rfl | rfl <;> rw [hc] <;> rfl

/-- The blanks of YAML among the characters of a portable spelling. -/
theorem Portable.blank (h : x.Portable) {c : Char} (hc : c ∈ x.text) (hblank : isBlank c = true) :
    c = ' ' ∨ IsSeparator c := by
  have hescape (hall : x.text.all (!isBlank ·) = true) : False := by
    have hc := List.all_eq_true.1 hall c hc
    rw [hblank] at hc
    cases hc
  cases x with
  | raw d hd =>
    obtain rfl := List.mem_singleton.1 hc
    simp only [isBlank, isSpace, isBreak, Bool.or_eq_true, beq_iff_eq] at hblank
    rcases hblank with (rfl | rfl) | ((((rfl | rfl) | rfl) | rfl) | rfl)
    · exact .inl rfl
    · exact absurd hd.1 (by decide)
    · exact absurd hd.1 (by decide)
    · exact absurd hd.1 (by decide)
    · exact absurd h.1 (by decide)
    · exact .inr (.inl rfl)
    · exact .inr (.inr rfl)
  | short e => exact (hescape (by cases e <;> rfl)).elim
  | unit u hu =>
    refine (hescape ?_).elim
    simp only [text, CodeUnit.text, List.all_cons, List.all_nil, HexDigit.reads]
    rfl
  | pair high low hhigh hlow => exact h.elim

end Spelling

theorem Blanks.isBlank (b : Blanks) : ∀ c ∈ b.text, isBlank c = true := by
  intro c hc
  rcases b.blank c hc with rfl | rfl | rfl | rfl <;> rfl

theorem Blanks.shown (b : Blanks) {x : Char} (hx : x ∈ b.text) : isStreamChar x = true := by
  rcases b.blank x hx with rfl | rfl | rfl | rfl <;> rfl

/-- The characters that follow each other in a text come from characters of the string. -/
theorem text_append_text_mem {s before after : List Spelling} {x y : Spelling}
    (hs : s = before ++ x :: y :: after) : x.text ++ y.text <:+: s.flatMap Spelling.text :=
  ⟨before.flatMap Spelling.text, after.flatMap Spelling.text, by simp [hs]⟩

/-- A document mark is a word of its own. -/
theorem exists_of_startsDocumentMark {mark : Char} (hmark : mark ≠ '"') :
    ∀ {cs : List Char}, startsDocumentMark mark (cs ++ ['"']) = true →
      ∃ blank tail, cs = mark :: mark :: mark :: blank :: tail ∧ isBlank blank = true
  | [], h => by simp [startsDocumentMark] at h
  | [_], h => by simp [startsDocumentMark] at h
  | [_, _], h => by simp [startsDocumentMark, endsWord, hmark.symm] at h
  | [_, _, _], h => by simp [startsDocumentMark, endsWord, isSpace, isBreak] at h
  | a :: b :: c :: blank :: tail, h => by
    simp only [startsDocumentMark, List.cons_append, endsWord, Bool.and_eq_true, beq_iff_eq] at h
    obtain ⟨⟨⟨rfl, rfl⟩, rfl⟩, hblank⟩ := h
    exact ⟨blank, tail, rfl, hblank⟩

namespace StringPortable

variable {str : List Spelling} (h : StringPortable str)
include h

theorem apart : str.IsChain (Cursor.Apart Spelling.text) := by
  refine List.isChain_iff_forall_rel_of_append_cons_cons.2 fun x y before after hstr => ⟨?_, ?_⟩
  · intro hx hy
    obtain ⟨separator, htext, hseparator⟩ := isSeparatorText_eq_true_iff.1 hx
    refine h.separators _ (.spaceBehind hseparator) ?_
    have := text_append_text_mem hstr
    rwa [htext, hy] at this
  · intro hx
    rw [← Bool.not_eq_true]
    intro hy
    obtain ⟨separator, htext, hseparator⟩ := isSeparatorText_eq_true_iff.1 hy
    refine h.separators _ (.spaceBefore hseparator) ?_
    have := text_append_text_mem hstr
    rwa [htext, hx] at this

theorem unmarked {x : Spelling} {after : List Spelling} (hafter : x :: after <:+ str)
    (hx : isSeparatorText x.text = true) {mark : Char} (hmark : mark ∈ ['-', '.']) :
    startsDocumentMark mark (after.flatMap Spelling.text ++ ['"']) = false := by
  rw [← Bool.not_eq_true]
  intro hstarts
  obtain ⟨separator, htext, hseparator⟩ := isSeparatorText_eq_true_iff.1 hx
  have hquote : mark ≠ '"' := by
    rintro rfl
    exact absurd hmark (by decide)
  obtain ⟨blank, tail, hmarked, hblank⟩ := exists_of_startsDocumentMark hquote hstarts
  obtain ⟨before, rfl⟩ := hafter
  have hmem : blank ∈ after.flatMap Spelling.text := by simp [hmarked]
  obtain ⟨y, hy, hblank'⟩ := List.mem_flatMap.1 hmem
  have hportable := h.spelling y (List.mem_append_right _ (List.mem_cons_of_mem _ hy))
  refine h.separators _ (.mark hseparator hmark (hportable.blank hblank' hblank)) ?_
  exact ⟨before.flatMap Spelling.text, tail, by simp [htext, hmarked]⟩

theorem laid : Cursor.Laid Spelling.char Spelling.text str where
  shows x hx := (h.spelling x hx).shows
  apart := h.apart
  unmarked _ _ hafter hx _ hmark := h.unmarked hafter hx hmark

end StringPortable

/-- A name has no separators. -/
theorem Member.NamePortable.spelled {α : Type} {m : Member α} (h : m.NamePortable) :
    Cursor.Spelled Spelling.char Spelling.text m.name := by
  intro x hx
  refine (h.spelling x hx).shows.resolve_right fun hseparator => ?_
  obtain ⟨c, htext, hc⟩ := isSeparatorText_eq_true_iff.1 hseparator.1
  refine (h.line c (List.mem_append_left _ ?_)).2.2 hc
  refine List.mem_cons_of_mem _ (List.mem_append_left _ (List.mem_flatMap.2 ⟨x, hx, ?_⟩))
  rw [htext]
  exact List.mem_singleton_self c

theorem shown_spelledText {s : List Spelling} (h : ∀ x ∈ s, x.Portable) {x : Char}
    (hx : x ∈ spelledText s) : isStreamChar x = true := by
  simp only [spelledText, List.mem_cons, List.mem_append, List.mem_flatMap, List.not_mem_nil,
    or_false] at hx
  rcases hx with rfl | ⟨y, hy, hx⟩ | rfl
  · rfl
  · exact (h y hy).shown hx
  · rfl

theorem shown_separator {first : Bool} {x : Char} (hx : x ∈ if first then [] else [',']) :
    isStreamChar x = true := by
  cases first with
  | true => cases hx
  | false => rw [List.mem_singleton.1 hx]; rfl

/-! ## Scanning a text -/

variable {s : Scanner} {depth : Nat} {allowed first : Bool} {toks : List Token}
  {cs rest w : List Char}

/-- The comma in front of all items and members but the first. -/
theorem exists_separated (h : s.Amid (depth + 1) allowed toks
      (cs ++ ((if first then [] else [',']) ++ w)))
    (hcs : ∀ x ∈ cs, isBlank x = true) (hfirst : first = true → allowed = true) :
    ∃ s' cs', Leads s s' ∧ (∀ x ∈ cs', isBlank x = true) ∧
      s'.Amid (depth + 1) true (toks ++ if first then [] else [.flowEntry]) (cs' ++ w) := by
  cases first with
  | true =>
    obtain rfl := hfirst rfl
    exact ⟨s, cs, .refl s, hcs, by rwa [if_pos rfl, List.append_nil]⟩
  | false =>
    obtain ⟨s', hleads, h'⟩ := h.comma hcs
    exact ⟨s', [], hleads, fun _ hx => (nomatch hx), h'⟩

/-- A name and its colon. -/
theorem exists_named {m : Member Source} (hm : m.NamePortable)
    (h : s.Amid (depth + 1) true toks
      (cs ++ (spelledText m.name ++ (m.gap.text ++ ':' :: rest))))
    (hcs : ∀ x ∈ cs, isBlank x = true) :
    ∃ s', Leads s s' ∧ s'.Amid (depth + 1) false
      (toks ++ [.key, .scalar .doubleQuoted (spelledValue m.name), .value]) rest := by
  refine Amid.key hm.spelled h hcs (fun x hx => ?_) hm.near
  obtain ⟨hfeed, hreturn, -⟩ := hm.line x (List.mem_append_right _ hx)
  rcases m.gap.blank x hx with rfl | rfl | rfl | rfl
  · rfl
  · rfl
  · exact absurd rfl hfeed
  · exact absurd rfl hreturn

theorem append_isBlank (hcs : ∀ x ∈ cs, isBlank x = true) (b : Blanks) :
    ∀ x ∈ cs ++ b.text, isBlank x = true := by
  intro x hx
  rcases List.mem_append.1 hx with hx | hx
  · exact hcs x hx
  · exact b.isBlank x hx

namespace Source

mutual

/-- **A portable text is scanned** to the tokens of its value. -/
theorem scans : ∀ (src : Source) {s : Scanner} {depth : Nat} {allowed : Bool} {toks : List Token}
    {cs rest : List Char}, src.Portable → s.Amid depth allowed toks (cs ++ (src.text ++ rest)) →
      (∀ x ∈ cs, isBlank x = true) → TabsPass (depth != 0) allowed cs →
      ∃ s', Leads s s' ∧ s'.Amid depth false (toks ++ src.value.tokens) rest
  | .string str, s, depth, allowed, toks, cs, rest, hsrc, h, hcs, htabs => by
    rw [text] at h
    rw [value, Json.tokens]
    exact ⟨_, Amid.quoted hsrc.laid h hcs htabs⟩
  | .array blanks items, s, depth, allowed, toks, cs, rest, hsrc, h, hcs, htabs => by
    rw [text, List.append_assoc, List.append_assoc, List.cons_append, List.singleton_append] at h
    obtain ⟨s₁, hleads₁, h₁⟩ := h.opening (.inl ⟨rfl, rfl, rfl, rfl⟩) hcs htabs
    obtain ⟨s₂, allowed', cs', hleads₂, hcs', h₂⟩ :=
      scansItems items true hsrc h₁ blanks.isBlank fun _ => rfl
    obtain ⟨s₃, hleads₃, h₃⟩ := h₂.closing (.inl ⟨rfl, rfl, rfl, rfl⟩) hcs'
    refine ⟨s₃, (hleads₁.trans hleads₂).trans hleads₃, ?_⟩
    simpa [value, Json.tokens] using h₃
  | .object blanks members, s, depth, allowed, toks, cs, rest, hsrc, h, hcs, htabs => by
    rw [text, List.append_assoc, List.append_assoc, List.cons_append, List.singleton_append] at h
    obtain ⟨s₁, hleads₁, h₁⟩ := h.opening brackets_braces hcs htabs
    obtain ⟨s₂, allowed', cs', hleads₂, hcs', h₂⟩ :=
      scansMembers members true hsrc h₁ blanks.isBlank fun _ => rfl
    obtain ⟨s₃, hleads₃, h₃⟩ := h₂.closing brackets_braces hcs'
    refine ⟨s₃, (hleads₁.trans hleads₂).trans hleads₃, ?_⟩
    simpa [value, Json.tokens] using h₃

/-- Items leave the blanks behind the last of them. -/
theorem scansItems : ∀ (items : List (Padded Source)) (first : Bool) {s : Scanner} {depth : Nat}
    {allowed : Bool} {toks : List Token} {cs rest : List Char}, itemsPortable items →
      s.Amid (depth + 1) allowed toks (cs ++ (itemsText first items ++ rest)) →
      (∀ x ∈ cs, isBlank x = true) → (first = true → allowed = true) →
      ∃ s' allowed' cs', Leads s s' ∧ (∀ x ∈ cs', isBlank x = true) ∧
        s'.Amid (depth + 1) allowed' (toks ++ Json.itemsTokens first (itemsValue items))
          (cs' ++ rest)
  | [], first, s, depth, allowed, toks, cs, rest, _, h, hcs, _ => by
    refine ⟨s, allowed, cs, .refl s, hcs, ?_⟩
    rwa [itemsValue, Json.itemsTokens, List.append_nil]
  | ⟨before, item, after⟩ :: items, first, s, depth, allowed, toks, cs, rest, hitems, h, hcs,
      hfirst => by
    simp only [itemsText, List.append_assoc] at h
    obtain ⟨s₁, cs₁, hleads₁, hcs₁, h₁⟩ := exists_separated h hcs hfirst
    rw [← List.append_assoc cs₁] at h₁
    obtain ⟨s₂, hleads₂, h₂⟩ := scans item hitems.1 h₁ (append_isBlank hcs₁ before) (.inl rfl)
    obtain ⟨s₃, allowed', cs', hleads₃, hcs', h₃⟩ :=
      scansItems items false hitems.2 h₂ after.isBlank nofun
    refine ⟨s₃, allowed', cs', (hleads₁.trans hleads₂).trans hleads₃, hcs', ?_⟩
    simpa only [itemsValue, Json.itemsTokens, List.append_assoc] using h₃

/-- Members leave the blanks behind the last of them. -/
theorem scansMembers : ∀ (members : List (Blanks × Member Source)) (first : Bool) {s : Scanner}
    {depth : Nat} {allowed : Bool} {toks : List Token} {cs rest : List Char},
      membersPortable members →
      s.Amid (depth + 1) allowed toks (cs ++ (membersText first members ++ rest)) →
      (∀ x ∈ cs, isBlank x = true) → (first = true → allowed = true) →
      ∃ s' allowed' cs', Leads s s' ∧ (∀ x ∈ cs', isBlank x = true) ∧
        s'.Amid (depth + 1) allowed' (toks ++ Json.fieldsTokens first (membersValue members))
          (cs' ++ rest)
  | [], first, s, depth, allowed, toks, cs, rest, _, h, hcs, _ => by
    refine ⟨s, allowed, cs, .refl s, hcs, ?_⟩
    rwa [membersValue, Json.fieldsTokens, List.append_nil]
  | (lead, ⟨name, gap, before, value, after⟩) :: members, first, s, depth, allowed, toks, cs, rest,
      hmembers, h, hcs, hfirst => by
    obtain ⟨hname, hvalue, hmembers⟩ := hmembers
    simp only [membersText, List.append_assoc, List.singleton_append] at h
    obtain ⟨s₁, cs₁, hleads₁, hcs₁, h₁⟩ := exists_separated h hcs hfirst
    rw [← List.append_assoc cs₁] at h₁
    obtain ⟨s₂, hleads₂, h₂⟩ := exists_named hname h₁ (append_isBlank hcs₁ lead)
    obtain ⟨s₃, hleads₃, h₃⟩ := scans value hvalue h₂ before.isBlank (.inl rfl)
    obtain ⟨s₄, allowed', cs', hleads₄, hcs', h₄⟩ :=
      scansMembers members false hmembers h₃ after.isBlank nofun
    refine ⟨s₄, allowed', cs',
      ((hleads₁.trans hleads₂).trans hleads₃).trans hleads₄, hcs', ?_⟩
    simpa only [membersValue, Json.fieldsTokens, List.append_assoc] using h₄

end

/-! ## Characters -/

mutual

/-- A portable text has no characters that YAML refuses. -/
theorem shown : ∀ (src : Source), src.Portable → ∀ x ∈ src.text, isStreamChar x = true
  | .string str, hsrc, x, hx => shown_spelledText hsrc.spelling hx
  | .array blanks items, hsrc, x, hx => by
    simp only [text, List.mem_append, List.mem_cons, List.not_mem_nil, or_false] at hx
    rcases hx with ((rfl | hx) | hx) | rfl
    · rfl
    · exact blanks.shown hx
    · exact shownItems items true hsrc x hx
    · rfl
  | .object blanks members, hsrc, x, hx => by
    simp only [text, List.mem_append, List.mem_cons, List.not_mem_nil, or_false] at hx
    rcases hx with ((rfl | hx) | hx) | rfl
    · rfl
    · exact blanks.shown hx
    · exact shownMembers members true hsrc x hx
    · rfl

theorem shownItems : ∀ (items : List (Padded Source)) (first : Bool), itemsPortable items →
    ∀ x ∈ itemsText first items, isStreamChar x = true
  | [], _, _, _, hx => nomatch hx
  | ⟨before, item, after⟩ :: items, first, hitems, x, hx => by
    simp only [itemsText, List.mem_append] at hx
    rcases hx with (((hx | hx) | hx) | hx) | hx
    · exact shown_separator hx
    · exact before.shown hx
    · exact shown item hitems.1 x hx
    · exact after.shown hx
    · exact shownItems items false hitems.2 x hx

theorem shownMembers : ∀ (members : List (Blanks × Member Source)) (first : Bool),
    membersPortable members → ∀ x ∈ membersText first members, isStreamChar x = true
  | [], _, _, _, hx => nomatch hx
  | (lead, ⟨name, gap, before, value, after⟩) :: members, first, hmembers, x, hx => by
    obtain ⟨hname, hvalue, hmembers⟩ := hmembers
    simp only [membersText, List.mem_append] at hx
    rcases hx with ((((((((hx | hx) | hx) | hx) | hx) | hx) | hx) | hx) | hx)
    · exact shown_separator hx
    · exact lead.shown hx
    · exact shown_spelledText hname.spelling hx
    · exact gap.shown hx
    · rw [List.mem_singleton.1 hx]; rfl
    · exact before.shown hx
    · exact shown value hvalue x hx
    · exact after.shown hx
    · exact shownMembers members false hmembers x hx

end

end Source

/-! ## Whole texts -/

theorem Document.Portable.tabsPass {d : Document} (h : d.Portable) :
    TabsPass false true d.before.text ∧ TabsPass false false d.after.text := by
  refine ⟨.inr h.before, .inr fun hmem => ?_⟩
  rw [if_neg Bool.false_ne_true] at hmem
  -- what is left after the first line is nothing, or starts with a line break
  have hpairs := h.after.sublist (List.dropWhile_sublist (!isBreak ·))
  have hhead := List.head?_dropWhile_not (!isBreak ·) d.after.text
  have hblank : ∀ x ∈ d.after.text.dropWhile (!isBreak ·), x ∈ d.after.text :=
    fun x hx => (List.dropWhile_sublist _).subset hx
  rcases hdrop : d.after.text.dropWhile (!isBreak ·) with _ | ⟨x, cs⟩
  · rw [hdrop] at hmem
    cases hmem
  · rw [hdrop] at hmem hpairs hhead hblank
    have hbreak : isBreak x = true := by simpa using hhead
    have hx : x = '\n' ∨ x = '\r' := by
      rcases d.after.blank x (hblank x List.mem_cons_self) with rfl | rfl | rfl | rfl
      · cases hbreak
      · cases hbreak
      · exact .inl rfl
      · exact .inr rfl
    rcases List.mem_cons.1 hmem with rfl | hmem
    · cases hbreak
    · exact (List.pairwise_cons.1 hpairs).1 _ hmem hx rfl

/-- **The tokens of a portable text.** -/
theorem Document.Portable.tokens_text {d : Document} (h : d.Portable) :
    ∃ ls, Yaml.tokens d.text = .ok ls ∧ ls.map (·.token) = d.value.tokens ++ [.streamEnd] := by
  have hshown : d.text.toList.all isStreamChar = true := by
    rw [List.all_eq_true, text, String.toList_ofList]
    intro x hx
    rcases List.mem_append.1 hx with hx | hx
    · rcases List.mem_append.1 hx with hx | hx
      · exact d.before.shown hx
      · exact d.content.shown h.content x hx
    · exact d.after.shown hx
  have hstart := amid_ofText d.text.toList
  have hchars : d.text.toList = d.before.text ++ (d.content.text ++ d.after.text) := by
    rw [text, String.toList_ofList, List.append_assoc]
  have hstart' : Amid { cursor := Cursor.ofText d.text.toList } 0 true []
      (d.before.text ++ (d.content.text ++ d.after.text)) := { hstart with rest_eq := hchars }
  obtain ⟨s, hleads, hend⟩ := d.content.scans h.content hstart' d.before.isBlank h.tabsPass.1
  obtain ⟨n, hn, hrun⟩ := hleads.run (d.text.toList.length + 2) (Nat.le_refl _)
  obtain ⟨ls, hls, htokens⟩ := hend.run_end d.after.isBlank h.tabsPass.2 (n := n) (by omega)
  refine ⟨ls, ?_, htokens⟩
  rw [Yaml.tokens, if_pos hshown]
  exact hrun.trans hls

end JobMatrix.Json
