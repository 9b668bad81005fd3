import JobMatrix.Binary64.Decimal
import JobMatrix.Proofs.Binary64.Rounding
import JobMatrix.Text.Blank
import Mathlib.Data.List.Induction
import Mathlib.Data.List.TakeWhile
import Mathlib.Data.Nat.Digits.Defs

/-!
# Reading numerals

A `Numeral` is a number in plain notation: digits, and possibly a point with digits behind it.  It is
read as the number nearest to it (`Numeral.parse?_text`, `exists_ofDecimal`), with blanks around it
or not (`Numeral.trim_text`).
-/

set_option autoImplicit false

namespace JobMatrix

/-! ## Blanks around a text -/

theorem Text.dropWhile_isBlank {blanks rest : List Char} (hblanks : ∀ c ∈ blanks, isBlank c = true)
    (hrest : ∀ c ∈ rest, isBlank c = false) : (blanks ++ rest).dropWhile isBlank = rest := by
  rw [List.dropWhile_append_of_pos hblanks]
  cases rest with
  | nil => rfl
  | cons c rest => simp [hrest c List.mem_cons_self]

/-- What has blanks around it, but none inside, is found by trimming. -/
theorem Text.trim_append {before cs behind : List Char} (hbefore : ∀ c ∈ before, isBlank c = true)
    (hcs : ∀ c ∈ cs, isBlank c = false) (hbehind : ∀ c ∈ behind, isBlank c = true) :
    trim (before ++ cs ++ behind) = cs := by
  have hfront : (before ++ cs ++ behind).dropWhile isBlank = (cs ++ behind).dropWhile isBlank := by
    rw [List.append_assoc, List.dropWhile_append_of_pos hbefore]
  have hback : (cs ++ behind).reverse.dropWhile isBlank = cs.reverse := by
    rw [List.reverse_append]
    exact dropWhile_isBlank (by simpa using hbehind) (by simpa using hcs)
  rw [trim, hfront]
  cases cs with
  | nil => simp [List.dropWhile_eq_nil_iff.2 hbehind]
  | cons c cs =>
    rw [List.cons_append, List.dropWhile_cons_of_neg (by simp [hcs c List.mem_cons_self]),
      ← List.cons_append, hback, List.reverse_reverse]

theorem Text.trim_eq_self {cs : List Char} (h : ∀ c ∈ cs, isBlank c = false) : trim cs = cs := by
  have hnil : ∀ c ∈ [], isBlank c = true := List.forall_mem_nil _
  simpa using trim_append hnil h hnil

namespace Binary64

/-! ## Digits -/

theorem digitValue_lt {c : Char} (h : c.isDigit = true) : digitValue c < 10 := by
  have hbounds := Char.isDigit_iff_toNat.1 h
  simp only [digitValue, Char.reduceToNat] at hbounds ⊢
  omega

theorem toLower_of_isDigit {c : Char} (h : c.isDigit = true) : c.toLower = c := by
  have hbounds := Char.isDigit_iff_toNat.1 h
  simp only [Char.reduceToNat] at hbounds
  refine dif_neg fun hupper => ?_
  have hfrom : 'A'.toNat ≤ c.toNat := UInt32.le_iff_toNat_le.1 hupper.1
  simp only [Char.reduceToNat] at hfrom
  omega

/-- The number that digits write, the first of which weighs most. -/
theorem natOfDigits_eq (ds : List Char) :
    natOfDigits ds = Nat.ofDigits 10 (ds.map digitValue).reverse := by
  induction ds using List.reverseRecOn with
  | nil => rfl
  | append_singleton ds c ih =>
    rw [natOfDigits, List.foldl_append, List.foldl_cons, List.foldl_nil, ← natOfDigits, ih]
    simp [Nat.ofDigits_cons, Nat.add_comm]

theorem natOfDigits_append (ds es : List Char) :
    natOfDigits (ds ++ es) = natOfDigits ds * 10 ^ es.length + natOfDigits es := by
  simp only [natOfDigits_eq, List.map_append, List.reverse_append, Nat.ofDigits_append,
    List.length_reverse, List.length_map]
  ring

theorem natOfDigits_lt {ds : List Char} (h : ∀ c ∈ ds, c.isDigit = true) :
    natOfDigits ds < 10 ^ ds.length := by
  have hlt := Nat.ofDigits_lt_base_pow_length (b := 10) (l := (ds.map digitValue).reverse)
    (by decide) (by simpa using fun c hc => digitValue_lt (h c hc))
  rwa [natOfDigits_eq, ← List.length_map (f := digitValue), ← List.length_reverse]

/-- A digit is no sign and no letter. -/
theorem ne_of_isDigit {x y : Char} (hx : x.isDigit = true) (hy : y.isDigit = false) : x ≠ y := by
  rintro rfl
  rw [hx] at hy
  cases hy

/-- What starts with a digit is no word. -/
theorem parseUnsigned?_of_isDigit (negative : Bool) {x : Char} (hx : x.isDigit = true)
    (xs : List Char) : parseUnsigned? negative (x :: xs) = parseDecimal? negative (x :: xs) := by
  simp [parseUnsigned?, toLower_of_isDigit hx, ne_of_isDigit hx (y := 'i') rfl,
    ne_of_isDigit hx (y := 'n') rfl]

/-- What starts with a digit has no sign. -/
theorem parse?_of_isDigit {x : Char} (hx : x.isDigit = true) (xs : List Char) :
    parse? (x :: xs) = parseUnsigned? false (x :: xs) := by
  unfold parse?
  split
  · exact absurd (List.cons.inj ‹_›).1 (ne_of_isDigit hx (y := '-') rfl)
  · exact absurd (List.cons.inj ‹_›).1 (ne_of_isDigit hx (y := '+') rfl)
  · rfl

/-! ## Decimal numbers -/

/-- A number with finitely many places is rounded to the nearest magnitude. -/
theorem exists_ofDecimal (negative : Bool) {digits places b : Nat} (hb : b ≤ 1023)
    (hdigits : digits < 2 ^ b) (hplaces : places ≤ 330) :
    ∃ m : Magnitude, ofDecimal negative digits (-(places : Int)) = .finite negative m ∧
      m.units = nearest (digits * unitsOfOne) (10 ^ places) := by
  have hten : 0 < 10 ^ places := Nat.pow_pos (by decide)
  have hratio : ∃ m : Magnitude,
      ofUnitRatio negative (digits * unitsOfOne) (10 ^ places) = .finite negative m ∧
        m.units = nearest (digits * unitsOfOne) (10 ^ places) := by
    refine exists_ofUnitRatio negative (e := b + 1074) (by omega) hten ?_
    calc digits * unitsOfOne < 2 ^ b * unitsOfOne :=
          Nat.mul_lt_mul_of_pos_right hdigits unitsOfOne_pos
      _ = 2 ^ (b + 1074) := two_pow_mul_unitsOfOne b
      _ ≤ 10 ^ places * 2 ^ (b + 1074) := Nat.le_mul_of_pos_left _ hten
  rw [ofDecimal]
  split
  · -- zero is its own magnitude
    rename_i hzero
    have hnearest := nearest_exact (c := 0) (k := 0) (by decide) hten
    rw [Nat.zero_mul, Nat.zero_mul] at hnearest
    rw [hzero, Nat.zero_mul, hnearest]
    exact ⟨.zero, rfl, Nat.zero_mul _⟩
  · rw [if_neg (by omega), if_neg (by omega)]
    split
    · -- no places at all
      have hnone : places = 0 := by omega
      subst hnone
      simpa [ofRatio_eq] using hratio
    · rwa [ofRatio_eq, neg_neg, Int.toNat_natCast]

end Binary64

/-! ## Numerals -/

/-- A number in plain notation. -/
structure Numeral where
  /-- The digits in front of the point. -/
  whole : List Char
  /-- The digits behind the point, if there is one. -/
  fraction? : Option (List Char) := none
  whole_ne_nil : whole ≠ []
  isDigit : ∀ c ∈ whole ++ fraction?.getD [], c.isDigit = true

namespace Numeral

open Binary64

variable (n : Numeral)

def fraction : List Char := n.fraction?.getD []

/-- All digits. -/
def digits : List Char := n.whole ++ n.fraction

def text : List Char := n.whole ++ n.fraction?.elim [] ('.' :: ·)

theorem isDigit_of_mem {c : Char} (hc : c ∈ n.text) (hpoint : c ≠ '.') : c.isDigit = true := by
  refine n.isDigit c ?_
  rw [text] at hc
  cases hfraction : n.fraction? with
  | none => simpa [hfraction] using hc
  | some ds => simpa [hfraction, hpoint] using hc

theorem isBlank_of_mem {c : Char} (hc : c ∈ n.text) : Text.isBlank c = false := by
  by_cases hpoint : c = '.'
  · subst hpoint
    rfl
  · have hdigit := Char.isDigit_iff_toNat.1 (n.isDigit_of_mem hc hpoint)
    simp only [Char.reduceToNat] at hdigit
    simp only [Text.isBlank, Bool.or_eq_false_iff, Bool.and_eq_false_iff, decide_eq_false_iff_not,
      beq_eq_false_iff_ne]
    omega

theorem trim_text {before behind : List Char} (hbefore : ∀ c ∈ before, Text.isBlank c = true)
    (hbehind : ∀ c ∈ behind, Text.isBlank c = true) :
    Text.trim (before ++ n.text ++ behind) = n.text :=
  Text.trim_append hbefore (fun _ => n.isBlank_of_mem) hbehind

/-- The digits in front of the point, and what comes behind them. -/
theorem span_text : n.text.takeWhile Char.isDigit = n.whole ∧
    n.text.dropWhile Char.isDigit = n.fraction?.elim [] ('.' :: ·) := by
  have hwhole : ∀ c ∈ n.whole, c.isDigit = true := fun c hc =>
    n.isDigit c (List.mem_append_left _ hc)
  rw [text, List.takeWhile_append_of_pos hwhole, List.dropWhile_append_of_pos hwhole]
  cases n.fraction? <;> simp

theorem exists_text_eq_cons : ∃ x xs, n.text = x :: xs ∧ x.isDigit = true := by
  obtain ⟨x, xs, hwhole⟩ := List.exists_cons_of_ne_nil n.whole_ne_nil
  refine ⟨x, xs ++ n.fraction?.elim [] ('.' :: ·), ?_, n.isDigit x (by simp [hwhole])⟩
  rw [text, hwhole, List.cons_append]

theorem parseUnsigned?_text (negative : Bool) : parseUnsigned? negative n.text
    = some (ofDecimal negative (natOfDigits n.digits) (-(n.fraction.length : Int))) := by
  have hparse : parseUnsigned? negative n.text = parseDecimal? negative n.text := by
    obtain ⟨x, xs, htext, hx⟩ := n.exists_text_eq_cons
    rw [htext]
    exact parseUnsigned?_of_isDigit negative hx xs
  have hspan : n.fraction.takeWhile Char.isDigit = n.fraction ∧
      n.fraction.dropWhile Char.isDigit = [] := by
    have hfraction : ∀ c ∈ n.fraction, c.isDigit = true := fun c hc =>
      n.isDigit c (List.mem_append_right _ hc)
    exact ⟨List.takeWhile_eq_self_iff.2 hfraction, List.dropWhile_eq_nil_iff.2 hfraction⟩
  rw [hparse, parseDecimal?, n.span_text.1, n.span_text.2]
  rw [digits]
  rw [fraction] at hspan ⊢
  cases hfraction : n.fraction? with
  | none => simp [parseExponent?, n.whole_ne_nil]
  | some ds =>
    rw [hfraction, Option.getD_some] at hspan
    simp [parseExponent?, n.whole_ne_nil, hspan]

/-- **A numeral is read** as the number nearest to it. -/
theorem parse?_text :
    parse? n.text = some (ofDecimal false (natOfDigits n.digits) (-(n.fraction.length : Int))) := by
  obtain ⟨x, xs, htext, hx⟩ := n.exists_text_eq_cons
  rw [← n.parseUnsigned?_text, htext, parse?_of_isDigit hx]

end Numeral

end JobMatrix
