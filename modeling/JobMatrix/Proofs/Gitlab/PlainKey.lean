import JobMatrix.Proofs.Binary64.Numeral
import JobMatrix.Proofs.Gitlab.Scalar
import JobMatrix.Yaml.Scalar
import Mathlib.Data.List.TakeWhile

/-!
# The types of plain keys

A key that stays plain has the type that a reader gives its text.  It starts with a letter, `_` or
`.`, and is none of the reserved words, so that it is no null, no boolean and no integer
(`resolvePlain_of_isPlainKey`).  It is a floating-point number only if it is one behind a point
(`IsPointNumber`), and a text otherwise (`resolvePlain_eq_string_iff`).
-/

set_option autoImplicit false

namespace JobMatrix.Gitlab

open Yaml
open Binary64 (ne_of_isDigit parseDecimal? parseExponent?)

/-! ## Neither null nor boolean nor integer -/

/-- The first character of a plain key is no sign, no `~` and no decimal digit. -/
theorem startsPlainKey_spec {x : Char} (hx : startsPlainKey x = true) :
    (∀ y ∈ ['-', '+', '0', '~'], x ≠ y) ∧ x.isDigit = false ∧ baseDigit? 10 x = none := by
  have hcases : x.isAlpha = true ∨ x = '_' ∨ x = '.' := by
    simpa [startsPlainKey, or_assoc] using hx
  have hdigit : x.isDigit = false := by
    rw [← Bool.not_eq_true, Char.isDigit_iff_toNat]
    rcases hcases with halpha | rfl | rfl
    · have := isAlpha_iff.1 halpha
      simp only [Char.reduceToNat]
      omega
    · decide
    · decide
  refine ⟨fun y hy => ?_, hdigit, ?_⟩
  · have hother : ∀ y ∈ ['-', '+', '0', '~'], startsPlainKey y = false := by
      simp [startsPlainKey]
    rintro rfl
    rw [hother x hy] at hx
    cases hx
  · rw [baseDigit?, hdigit, if_neg Bool.false_ne_true]
    split
    · exact Option.filter_eq_none_iff.2 fun n hn => by cases hn; simp
    · rfl

/-- **A plain key is a number behind a point, or a text.** -/
theorem resolvePlain_of_isPlainKey {name : String} (hplain : isPlainKey name = true) :
    resolvePlain name = (parseFloat? name).elim (.string name) .float := by
  obtain ⟨x, cs, hname, hx, -⟩ := exists_cons_of_isPlainKey hplain
  obtain ⟨hne, hdigit, hbase⟩ := startsPlainKey_spec hx
  -- the words for null and the booleans do not stay plain
  have hwords : ∀ words : List String, words.all (fun word => !isPlainKey word) = true →
      words.contains name = false := by
    intro words hwords
    rw [← Bool.not_eq_true, List.contains_iff_mem]
    intro hmem
    have hword := List.all_eq_true.1 hwords name hmem
    rw [hplain] at hword
    cases hword
  have hother : ∀ y ∈ ['-', '+', '0', '~'], ∀ ds, x :: cs ≠ y :: ds :=
    fun y hy ds h => hne y hy (List.cons.inj h).1
  have hempty : (name.isEmpty || isNullText name) = false := by
    rw [isNullText, hwords _ (by decide), Bool.or_false, ← Bool.not_eq_true, String.isEmpty_iff]
    rintro rfl
    cases hname
  have hboolean : parseBoolean? name = none := by
    rw [parseBoolean?, hwords _ (by decide), hwords _ (by decide)]
    rfl
  have hpadded : isZeroPadded name.toList = false := by
    rw [hname]
    unfold isZeroPadded
    split
    · exact absurd ‹_› (hother _ (by decide) _)
    · exact absurd ‹_› (hother _ (by decide) _)
    · dsimp only
      split
      · exact absurd ‹_› (hother _ (by decide) _)
      · rfl
  have hbased : parseBased? (x :: cs) = none := by
    unfold parseBased?
    split
    · exact absurd ‹_› (hother _ (by decide) _)
    · exact absurd ‹_› (hother _ (by decide) _)
    · exact absurd ‹_› (hother _ (by decide) _)
    · rw [parseDigits?, List.foldlM_cons, hbase]
      · rfl
      · simp
  have hinteger : parseInteger? name = none := by
    rw [parseInteger?, hpadded, hname, if_neg Bool.false_ne_true]
    split
    · exact absurd ‹_› (hother _ (by decide) _)
    · exact absurd ‹_› (hother _ (by decide) _)
    · rw [hbased]
      rfl
  rw [resolvePlain, hempty, hboolean, hinteger, hpadded]
  cases parseFloat? name <;> rfl

/-! ## Numbers behind a point -/

/-- Nothing, or `e` with an optional sign and digits. -/
def IsExponent (cs : List Char) : Prop :=
  cs = [] ∨ ∃ e sign ds, cs = e :: (sign ++ ds) ∧ e ∈ ['e', 'E'] ∧ sign ∈ [[], ['-'], ['+']] ∧
    ds ≠ [] ∧ ∀ d ∈ ds, d.isDigit = true

/-- A point, digits and an optional exponent. -/
def IsPointDecimal (cs : List Char) : Prop :=
  ∃ ds es, cs = '.' :: (ds ++ es) ∧ ds ≠ [] ∧ (∀ d ∈ ds, d.isDigit = true) ∧ IsExponent es

/-- The spellings of infinity and not-a-number. -/
def pointWords : List String := [".inf", ".Inf", ".INF", ".nan", ".NaN", ".NAN"]

/-- What is read as a floating-point number though it starts with a point: one of the special words,
or a decimal number that is not too large. -/
def IsPointNumber (name : String) : Prop :=
  name ∈ pointWords ∨
    IsPointDecimal name.toList ∧ ∀ x ∈ Binary64.parse? name.toList, x.isFinite = true

/-- An exponent is what stands behind its letter and sign. -/
theorem parseExponent?_cons (e : Char) (rest : List Char) :
    ∃ (negative : Bool) (sign ds : List Char), rest = sign ++ ds ∧ sign ∈ [[], ['-'], ['+']] ∧
      parseExponent? (e :: rest) = if e = 'e' ∨ e = 'E' then
        (if ds.isEmpty || !ds.all Char.isDigit then none
          else some (if negative then -(Binary64.natOfDigits ds : Int)
            else Binary64.natOfDigits ds)) else none := by
  rcases rest with _ | ⟨y, ds⟩
  · exact ⟨false, [], [], rfl, by simp, rfl⟩
  by_cases hminus : y = '-'
  · subst hminus
    exact ⟨true, ['-'], ds, rfl, by simp, rfl⟩
  by_cases hplus : y = '+'
  · subst hplus
    exact ⟨false, ['+'], ds, rfl, by simp, rfl⟩
  · exact ⟨false, [], y :: ds, rfl, by simp, by simp [parseExponent?, hminus, hplus]⟩

theorem isExponent_of_isSome {cs : List Char} (h : (parseExponent? cs).isSome) : IsExponent cs := by
  rcases cs with _ | ⟨e, rest⟩
  · exact .inl rfl
  obtain ⟨negative, sign, ds, rfl, hsign, heq⟩ := parseExponent?_cons e rest
  by_cases he : e = 'e' ∨ e = 'E'
  · by_cases hempty : (ds.isEmpty || !ds.all Char.isDigit) = true
    · simp [heq, he, hempty] at h
    · have hds : ds ≠ [] ∧ ∀ d ∈ ds, d.isDigit = true := by simpa using hempty
      exact .inr ⟨e, sign, ds, rfl, by simpa using he, hsign, hds.1, hds.2⟩
  · simp [heq, he] at h

theorem IsExponent.isSome {cs : List Char} (h : IsExponent cs) : (parseExponent? cs).isSome := by
  obtain rfl | ⟨e, sign, ds, rfl, he, hsign, hne, hdigits⟩ := h
  · rfl
  · have he : e = 'e' ∨ e = 'E' := by simpa using he
    obtain ⟨d, ds', rfl⟩ := List.exists_cons_of_ne_nil hne
    have hminus : d ≠ '-' := ne_of_isDigit (hdigits d List.mem_cons_self) rfl
    have hplus : d ≠ '+' := ne_of_isDigit (hdigits d List.mem_cons_self) rfl
    simp only [List.mem_cons, List.not_mem_nil, or_false] at hsign
    rcases hsign with rfl | rfl | rfl
    · simpa [parseExponent?, he, hminus, hplus] using hdigits
    · simpa [parseExponent?, he] using hdigits
    · simpa [parseExponent?, he] using hdigits

/-- Where digits end, an exponent may start. -/
theorem IsExponent.digits {cs ds : List Char} (h : IsExponent cs)
    (hds : ∀ d ∈ ds, d.isDigit = true) :
    (ds ++ cs).takeWhile Char.isDigit = ds ∧ (ds ++ cs).dropWhile Char.isDigit = cs := by
  rw [List.takeWhile_append_of_pos hds, List.dropWhile_append_of_pos hds]
  obtain rfl | ⟨e, sign, es, rfl, he, -⟩ := h
  · simp
  · have hletter : ¬e.isDigit = true := by
      simp only [List.mem_cons, List.not_mem_nil, or_false] at he
      rcases he with rfl | rfl <;> decide
    simp [List.takeWhile_cons_of_neg hletter, List.dropWhile_cons_of_neg hletter]

/-- What is read behind a point: digits and an exponent. -/
theorem parseDecimal?_point (cs : List Char) :
    parseDecimal? false ('.' :: cs) = if cs.takeWhile Char.isDigit = [] then none
      else (parseExponent? (cs.dropWhile Char.isDigit)).map fun exponent =>
        Binary64.ofDecimal false (Binary64.natOfDigits (cs.takeWhile Char.isDigit))
          (exponent - (cs.takeWhile Char.isDigit).length) := by
  simp [parseDecimal?]

theorem isSome_parseDecimal?_point (cs : List Char) :
    (parseDecimal? false ('.' :: cs)).isSome ↔ IsPointDecimal ('.' :: cs) := by
  have hsome : (parseDecimal? false ('.' :: cs)).isSome ↔ cs.takeWhile Char.isDigit ≠ [] ∧
      (parseExponent? (cs.dropWhile Char.isDigit)).isSome := by
    rw [parseDecimal?_point]
    split <;> simp_all
  rw [hsome]
  constructor
  · rintro ⟨hdigits, hexponent⟩
    exact ⟨_, _, by rw [List.takeWhile_append_dropWhile], hdigits,
      fun d hd => List.mem_takeWhile_imp hd, isExponent_of_isSome hexponent⟩
  · rintro ⟨ds, es, heq, hne, hds, hes⟩
    obtain rfl := (List.cons.inj heq).2
    rw [(hes.digits hds).1, (hes.digits hds).2]
    exact ⟨hne, hes.isSome⟩

/-! ## The type of a plain key -/

/-- What starts with a point is a decimal number or none. -/
theorem parse?_point (cs : List Char) :
    Binary64.parse? ('.' :: cs) = parseDecimal? false ('.' :: cs) := by
  simp [Binary64.parse?, Binary64.parseUnsigned?]

/-- What starts with neither a digit nor a sign nor a point is no finite number. -/
theorem parse?_word {x : Char} (hx : ∀ y ∈ ['-', '+', '.'], x ≠ y) (hdigit : x.isDigit = false)
    (cs : List Char) : (Binary64.parse? (x :: cs)).filter Binary64.isFinite = none := by
  have hminus : x ≠ '-' := hx _ (by simp)
  have hplus : x ≠ '+' := hx _ (by simp)
  have hpoint : x ≠ '.' := hx _ (by simp)
  have hdecimal : parseDecimal? false (x :: cs) = none := by
    simp [parseDecimal?, hdigit, hpoint]
  have hparse : Binary64.parse? (x :: cs) = Binary64.parseUnsigned? false (x :: cs) := by
    simp [Binary64.parse?, hminus, hplus]
  -- the words that are left stand for no finite number
  rw [hparse, Binary64.parseUnsigned?, hdecimal]
  split_ifs <;> rfl

/-- The special words are numbers, and the other plain keys are decimal numbers or none. -/
theorem parseFloat?_of_isPlainKey {name : String} (hplain : isPlainKey name = true) :
    (name ∈ pointWords ∧ (parseFloat? name).isSome) ∨
      (name ∉ pointWords ∧
        parseFloat? name = (Binary64.parse? name.toList).filter Binary64.isFinite) := by
  by_cases hword : name ∈ pointWords
  · refine .inl ⟨hword, ?_⟩
    have hall : pointWords.all (fun word => (parseFloat? word).isSome) = true := by decide
    exact List.all_eq_true.1 hall name hword
  · refine .inr ⟨hword, ?_⟩
    -- words with a sign do not stay plain, and the others are those of the list
    have hwords : ∀ words : List String,
        words.all (fun word => !isPlainKey word || pointWords.contains word) = true →
          ¬words.contains name = true := by
      intro words hwords hmem
      have hother := List.all_eq_true.1 hwords name (List.contains_iff_mem.1 hmem)
      rw [hplain] at hother
      exact hword (List.contains_iff_mem.1 hother)
    rw [parseFloat?, if_neg (hwords _ (by decide)), if_neg (hwords _ (by decide)),
      if_neg (hwords _ (by decide))]

/-- **A plain key is read as a number** exactly if it is one behind a point. -/
theorem isSome_parseFloat? {name : String} (hplain : isPlainKey name = true) :
    (parseFloat? name).isSome ↔ IsPointNumber name := by
  obtain ⟨hword, hsome⟩ | ⟨hword, hparse⟩ := parseFloat?_of_isPlainKey hplain
  · exact ⟨fun _ => .inl hword, fun _ => hsome⟩
  obtain ⟨x, cs, hname, hx, -⟩ := exists_cons_of_isPlainKey hplain
  rw [hparse, IsPointNumber, hname]
  by_cases hpoint : x = '.'
  · subst hpoint
    rw [parse?_point, ← isSome_parseDecimal?_point]
    cases hdecimal : parseDecimal? false ('.' :: cs) <;> simp [hword, Option.filter_some]
  · obtain ⟨hne, hdigit, -⟩ := startsPlainKey_spec hx
    have hstart : ∀ y ∈ ['-', '+', '.'], x ≠ y := by
      simpa [hpoint] using ⟨hne '-' (by simp), hne '+' (by simp)⟩
    have hdecimal : ¬IsPointDecimal (x :: cs) := by
      rintro ⟨ds, es, heq, -⟩
      exact hpoint (List.cons.inj heq).1
    simp [parse?_word hstart hdigit, hword, hdecimal]

/-- **The type of a plain key.**  It is a text unless it is a number behind a point. -/
theorem resolvePlain_key_iff {name : String} (hplain : isPlainKey name = true) :
    (IsPointNumber name → ∃ x, resolvePlain name = .float x) ∧
      (¬IsPointNumber name → resolvePlain name = .string name) := by
  rw [resolvePlain_of_isPlainKey hplain, ← isSome_parseFloat? hplain]
  cases parseFloat? name <;> simp

/-! ## Numbers behind a point stay plain -/

theorem isPlainKeyChar_of_isDigit {c : Char} (h : c.isDigit = true) : isPlainKeyChar c = true := by
  simp [isPlainKeyChar, Char.isAlphanum, h]

theorem IsExponent.isPlainKeyChar {cs : List Char} (h : IsExponent cs) :
    ∀ c ∈ cs, isPlainKeyChar c = true := by
  obtain rfl | ⟨e, sign, ds, rfl, he, hsign, -, hds⟩ := h
  · exact fun _ hc => absurd hc List.not_mem_nil
  · have hletter : ∀ e ∈ ['e', 'E'], Gitlab.isPlainKeyChar e = true := by
      simp [Gitlab.isPlainKeyChar]
    have hsigns : ∀ sign ∈ [[], ['-'], ['+']], ∀ c ∈ sign, Gitlab.isPlainKeyChar c = true := by
      simp [Gitlab.isPlainKeyChar]
    intro c hc
    rcases List.mem_cons.1 hc with rfl | hc
    · exact hletter c he
    rcases List.mem_append.1 hc with hc | hc
    · exact hsigns sign hsign c hc
    · exact isPlainKeyChar_of_isDigit (hds c hc)

theorem IsPointDecimal.isPlainKeyChar {cs : List Char} (h : IsPointDecimal cs) :
    ∀ c ∈ cs, isPlainKeyChar c = true := by
  obtain ⟨ds, es, rfl, -, hds, hes⟩ := h
  intro c hc
  rcases List.mem_cons.1 hc with rfl | hc
  · rfl
  rcases List.mem_append.1 hc with hc | hc
  · exact isPlainKeyChar_of_isDigit (hds c hc)
  · exact hes.isPlainKeyChar c hc

/-- No reserved word starts with a point. -/
theorem IsPointNumber.isPlainKey {name : String} (h : IsPointNumber name) :
    isPlainKey name = true := by
  obtain hword | ⟨hdecimal, -⟩ := h
  · have hall : pointWords.all Gitlab.isPlainKey = true := by decide
    exact List.all_eq_true.1 hall name hword
  · have hchars := hdecimal.isPlainKeyChar
    obtain ⟨ds, es, hname, -⟩ := hdecimal
    have hreserved : reservedWords.contains (String.ofList (name.toList.map Char.toLower)) = false := by
      rw [← Bool.not_eq_true, List.contains_iff_mem]
      intro hmem
      have hall : ∀ word ∈ reservedWords, word.toList.head? ≠ some '.' := by decide
      refine hall _ hmem ?_
      simp [hname]
    rw [Gitlab.isPlainKey, hreserved, Bool.not_false, Bool.and_true, Bool.and_eq_true]
    exact ⟨by simp [hname, startsPlainKey], List.all_eq_true.2 hchars⟩

end JobMatrix.Gitlab
