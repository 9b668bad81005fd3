import JobMatrix.Binary64.Basic
import Mathlib.Tactic.Common
import Mathlib.Tactic.Positivity
import Mathlib.Tactic.Ring

/-!
# Rounding to binary64

Magnitudes are counted in units of `2^-1074`, so `Binary64.ofUnitRatio` rounds a quotient of natural
numbers.  `nearest num den` is the number of units it rounds to, and everything here is about it:

* `nearest_mono`: rounding is monotone in the quotient, whatever fractions stand for it;
* `nearest_exact`: what has a mantissa of 53 bits is not changed;
* `nearest_near`: the relative error is at most `2^-53` from the least normal number on;
* `exists_ofUnitRatio`: the magnitude with these units, for quotients that are not too large.

A finite number is told by its parts and by its word (`ofParts_magnitude`, `toBits_ofBits`).
-/

set_option autoImplicit false

namespace JobMatrix.Binary64

variable {num den num' den' n s s' : Nat}

/-- The units of the number one. -/
def unitsOfOne : Nat := 2 ^ 1074

theorem pow_unitsOfOne : Nat.pow 2 1074 = unitsOfOne := rfl

theorem ofRatio_eq (negative : Bool) (num den : Nat) :
    ofRatio negative num den = ofUnitRatio negative (num * unitsOfOne) den := by
  rw [ofRatio, pow_unitsOfOne]

theorem unitsOfOne_pos : 0 < unitsOfOne := by
  rw [unitsOfOne]
  positivity

theorem unitsOfOne_eq {k : Nat} (h : k ≤ 1074) : unitsOfOne = 2 ^ (1074 - k) * 2 ^ k := by
  rw [unitsOfOne, Nat.pow_sub_mul_pow 2 h]

theorem two_pow_mul_unitsOfOne (k : Nat) : 2 ^ k * unitsOfOne = 2 ^ (k + 1074) := by
  rw [unitsOfOne, ← Nat.pow_add]

theorem two_pow_le_unitsOfOne {k : Nat} (h : k ≤ 1074) : 2 ^ k ≤ unitsOfOne := by
  rw [unitsOfOne_eq h]
  exact Nat.le_mul_of_pos_left _ (Nat.two_pow_pos _)

theorem two_pow_le_mul_unitsOfOne {a k : Nat} (h : a ≤ k + 1074) :
    2 ^ a ≤ 2 ^ k * unitsOfOne := by
  rw [two_pow_mul_unitsOfOne]
  exact Nat.pow_le_pow_right Nat.two_pos h

theorem mul_unitsOfOne_le_two_pow {a k : Nat} (h : k + 1074 ≤ a) :
    2 ^ k * unitsOfOne ≤ 2 ^ a := by
  rw [two_pow_mul_unitsOfOne]
  exact Nat.pow_le_pow_right Nat.two_pos h

/-! ## Rounding to an integer -/

theorem roundHalfEven_cases (num den : Nat) :
    (2 * (num % den) < den ∧ roundHalfEven num den = num / den) ∨
      (den < 2 * (num % den) ∧ roundHalfEven num den = num / den + 1) ∨
      (2 * (num % den) = den ∧ roundHalfEven num den = num / den + num / den % 2) := by
  rw [roundHalfEven]
  split_ifs with hbelow habove
  · exact .inl ⟨hbelow, rfl⟩
  · exact .inr (.inl ⟨habove, rfl⟩)
  · exact .inr (.inr ⟨by omega, rfl⟩)

/-- The nearest integer is at most a half away. -/
theorem roundHalfEven_near (num : Nat) (hden : 0 < den) :
    2 * num ≤ 2 * (roundHalfEven num den * den) + den ∧
      2 * (roundHalfEven num den * den) ≤ 2 * num + den := by
  have hdivision := Nat.div_add_mod num den
  have hmod := Nat.mod_lt num hden
  have hone : (num / den + 1) * den = den * (num / den) + den := by ring
  have hzero : num / den * den = den * (num / den) := Nat.mul_comm _ _
  rcases roundHalfEven_cases num den with ⟨h, hr⟩ | ⟨h, hr⟩ | ⟨h, hr⟩
  · rw [hr, hzero]
    omega
  · rw [hr, hone]
    omega
  · rcases Nat.mod_two_eq_zero_or_one (num / den) with hparity | hparity
    · rw [hr, hparity, Nat.add_zero, hzero]
      omega
    · rw [hr, hparity, hone]
      omega

theorem roundHalfEven_mono (h : num ≤ num') : roundHalfEven num den ≤ roundHalfEven num' den := by
  have hquotient : num / den ≤ num' / den := Nat.div_le_div_right h
  have hdivision := Nat.div_add_mod num den
  have hdivision' := Nat.div_add_mod num' den
  rcases Nat.lt_or_eq_of_le hquotient with hlt | heq
  · have hle : roundHalfEven num den ≤ num / den + 1 := by
      rcases roundHalfEven_cases num den with ⟨-, hr⟩ | ⟨-, hr⟩ | ⟨-, hr⟩ <;> omega
    have hge : num' / den ≤ roundHalfEven num' den := by
      rcases roundHalfEven_cases num' den with ⟨-, hr⟩ | ⟨-, hr⟩ | ⟨-, hr⟩ <;> omega
    omega
  · -- with the same quotient the remainder decides
    rw [← heq] at hdivision'
    have hcases := roundHalfEven_cases num den
    have hcases' := roundHalfEven_cases num' den
    rw [← heq] at hcases'
    omega

/-- A multiple of the denominator is not changed. -/
theorem roundHalfEven_mul (n : Nat) (hden : 0 < den) : roundHalfEven (n * den) den = n := by
  simp [roundHalfEven, hden]

theorem le_roundHalfEven (hden : 0 < den) (h : n * den ≤ num) : n ≤ roundHalfEven num den := by
  rw [← roundHalfEven_mul n hden]
  exact roundHalfEven_mono h

theorem roundHalfEven_le (hden : 0 < den) (h : num ≤ n * den) : roundHalfEven num den ≤ n := by
  conv_rhs => rw [← roundHalfEven_mul n hden]
  exact roundHalfEven_mono h

/-- An even integer wins up to the ties on both sides of it. -/
theorem roundHalfEven_eq_of_even (hden : 0 < den) (heven : n % 2 = 0)
    (hlow : 2 * (n * den) ≤ 2 * num + den) (hhigh : 2 * num ≤ 2 * (n * den) + den) :
    roundHalfEven num den = n := by
  have hdivision := Nat.div_add_mod num den
  have hmod := Nat.mod_lt num hden
  rcases Nat.lt_or_ge num (n * den) with hlt | hge
  · -- the quotient is one less, and the remainder at least a half
    have hpos : 0 < n := Nat.pos_of_mul_pos_right (Nat.zero_lt_of_lt hlt)
    have hsplit : n * den = (n - 1) * den + den := by
      rw [← Nat.succ_mul, Nat.succ_eq_add_one, Nat.sub_add_cancel hpos]
    have hquotient : num / den = n - 1 := by
      refine Nat.div_eq_of_lt_le ?_ ?_
      · rw [hsplit] at hlow
        omega
      · rwa [Nat.sub_add_cancel hpos]
    have hproduct : den * (num / den) = (n - 1) * den := by rw [hquotient, Nat.mul_comm]
    rcases roundHalfEven_cases num den with ⟨h, hr⟩ | ⟨h, hr⟩ | ⟨h, hr⟩ <;> omega
  · have hquotient : num / den = n := by
      refine Nat.div_eq_of_lt_le hge ?_
      rw [Nat.succ_mul]
      omega
    have hproduct : den * (num / den) = n * den := by rw [hquotient, Nat.mul_comm]
    rcases roundHalfEven_cases num den with ⟨h, hr⟩ | ⟨h, hr⟩ | ⟨h, hr⟩ <;> omega

/-- The only integer within less than a half is the nearest one. -/
theorem roundHalfEven_eq_of_lt (hlow : 2 * (n * den) < 2 * num + den)
    (hhigh : 2 * num < 2 * (n * den) + den) : roundHalfEven num den = n := by
  have hden : 0 < den := by omega
  obtain ⟨habove, hbelow⟩ := roundHalfEven_near num hden
  generalize roundHalfEven num den = r at *
  have hle : r < n + 1 := by
    refine Nat.lt_of_mul_lt_mul_right (a := den) ?_
    rw [Nat.succ_mul]
    omega
  have hge : n < r + 1 := by
    refine Nat.lt_of_mul_lt_mul_right (a := den) ?_
    rw [Nat.succ_mul]
    omega
  omega

/-- Only the quotient counts. -/
theorem roundHalfEven_mul_right {c : Nat} (hc : 0 < c) :
    roundHalfEven (num * c) (den * c) = roundHalfEven num den := by
  have hdouble : 2 * (num % den * c) = 2 * (num % den) * c := by ring
  simp only [roundHalfEven, Nat.mul_div_mul_right _ _ hc, Nat.mul_mod_mul_right, hdouble,
    Nat.mul_lt_mul_right hc]

/-! ## The scale -/

/-- The scale of the magnitudes around a quotient: the mantissas there have 53 bits, or fewer at
scale zero. -/
structure IsScale (num den s : Nat) : Prop where
  lt : num < den * 2 ^ (s + 53)
  le : s = 0 ∨ den * 2 ^ (s + 52) ≤ num

/-- The scale that rounding chooses. -/
def scaleOf (num den : Nat) : Nat := (num / den).log2 + 1 - 53

theorem isScale_scaleOf (num : Nat) (hden : 0 < den) : IsScale num den (scaleOf num den) where
  lt := by
    have hlog : num / den < 2 ^ (scaleOf num den + 53) := by
      refine Nat.lt_of_lt_of_le Nat.lt_log2_self (Nat.pow_le_pow_right Nat.two_pos ?_)
      rw [scaleOf]
      omega
    rwa [Nat.div_lt_iff_lt_mul hden, Nat.mul_comm] at hlog
  le := by
    rcases Nat.eq_zero_or_pos (scaleOf num den) with hzero | hpos
    · exact .inl hzero
    · right
      have hlog : 52 < (num / den).log2 := by
        rw [scaleOf] at hpos
        omega
      have hne : num / den ≠ 0 := by
        intro h
        rw [h] at hlog
        simp at hlog
      have hexponent : scaleOf num den + 52 = (num / den).log2 := by
        rw [scaleOf]
        omega
      rw [hexponent, Nat.mul_comm]
      exact (Nat.le_div_iff_mul_le hden).1 (Nat.log2_self_le hne)

/-- A greater quotient has no smaller scale. -/
theorem IsScale.mono (h : IsScale num den s) (h' : IsScale num' den s')
    (hle : num ≤ num') : s ≤ s' := by
  rcases h.le with rfl | hs
  · exact Nat.zero_le _
  · have hpow : 2 ^ (s + 52) < 2 ^ (s' + 53) :=
      Nat.lt_of_mul_lt_mul_left (Nat.lt_of_le_of_lt (Nat.le_trans hs hle) h'.lt)
    have := (Nat.pow_lt_pow_iff_right Nat.one_lt_two).1 hpow
    omega

/-- There is one scale for each quotient. -/
theorem IsScale.unique {s : Nat} (hden : 0 < den) (h : IsScale num den s) : scaleOf num den = s := by
  have hscale := isScale_scaleOf num hden
  exact Nat.le_antisymm (hscale.mono h le_rfl) (h.mono hscale le_rfl)

/-- The mantissa has at most 53 bits before a last carry, and exactly so many above scale zero. -/
theorem IsScale.mantissa (hden : 0 < den) (h : IsScale num den s) :
    roundHalfEven num (den * 2 ^ s) ≤ 2 ^ 53 ∧
      (s = 0 ∨ 2 ^ 52 ≤ roundHalfEven num (den * 2 ^ s)) := by
  have hgrid : 0 < den * 2 ^ s := Nat.mul_pos hden (Nat.two_pow_pos s)
  constructor
  · refine roundHalfEven_le hgrid ?_
    have hpow : 2 ^ 53 * (den * 2 ^ s) = den * 2 ^ (s + 53) := by ring
    rw [hpow]
    exact h.lt.le
  · refine h.le.imp_right fun hs => le_roundHalfEven hgrid ?_
    have hpow : 2 ^ 52 * (den * 2 ^ s) = den * 2 ^ (s + 52) := by ring
    rwa [hpow]

/-! ## The nearest magnitude -/

/-- The units of the magnitude nearest to a quotient. -/
def nearest (num den : Nat) : Nat :=
  roundHalfEven num (den * 2 ^ scaleOf num den) * 2 ^ scaleOf num den

theorem nearest_mul_right (num den : Nat) {c : Nat} (hc : 0 < c) :
    nearest (num * c) (den * c) = nearest num den := by
  have hscale : scaleOf (num * c) (den * c) = scaleOf num den := by
    rw [scaleOf, Nat.mul_div_mul_right _ _ hc, scaleOf]
  have hgrid : den * c * 2 ^ scaleOf num den = den * 2 ^ scaleOf num den * c := by ring
  rw [nearest, hscale, hgrid, roundHalfEven_mul_right hc, nearest]

theorem nearest_mono_num (hden : 0 < den) (h : num ≤ num') :
    nearest num den ≤ nearest num' den := by
  have hs := isScale_scaleOf num hden
  have hs' := isScale_scaleOf num' hden
  rw [nearest, nearest]
  rcases Nat.lt_or_eq_of_le (hs.mono hs' h) with hlt | heq
  · -- a power of two lies between the two
    have hbelow := (hs.mantissa hden).1
    have habove := (hs'.mantissa hden).2.resolve_left (Nat.ne_zero_of_lt hlt)
    calc roundHalfEven num (den * 2 ^ scaleOf num den) * 2 ^ scaleOf num den
        ≤ 2 ^ 53 * 2 ^ scaleOf num den := Nat.mul_le_mul_right _ hbelow
      _ = 2 ^ 52 * 2 ^ (scaleOf num den + 1) := by ring
      _ ≤ 2 ^ 52 * 2 ^ scaleOf num' den :=
          Nat.mul_le_mul_left _ (Nat.pow_le_pow_right Nat.two_pos hlt)
      _ ≤ roundHalfEven num' (den * 2 ^ scaleOf num' den) * 2 ^ scaleOf num' den :=
          Nat.mul_le_mul_right _ habove
  · rw [← heq]
    exact Nat.mul_le_mul_right _ (roundHalfEven_mono h)

/-- **Rounding is monotone.** -/
theorem nearest_mono (hden : 0 < den) (hden' : 0 < den') (h : num * den' ≤ num' * den) :
    nearest num den ≤ nearest num' den' := by
  rw [← nearest_mul_right num den hden', ← nearest_mul_right num' den' hden, Nat.mul_comm den' den]
  exact nearest_mono_num (Nat.mul_pos hden hden') h

/-- **A magnitude is its own nearest one.** -/
theorem nearest_exact {c k : Nat} (hc : c < 2 ^ 53) (hden : 0 < den) :
    nearest (c * 2 ^ k * den) den = c * 2 ^ k := by
  have hscale : scaleOf (c * 2 ^ k * den) den ≤ k := by
    rcases (isScale_scaleOf (c * 2 ^ k * den) hden).le with hzero | hle
    · omega
    · rw [Nat.mul_comm den] at hle
      have hlt : 2 ^ (scaleOf (c * 2 ^ k * den) den + 52) < 2 ^ (53 + k) :=
        calc 2 ^ (scaleOf (c * 2 ^ k * den) den + 52) ≤ c * 2 ^ k :=
              Nat.le_of_mul_le_mul_right hle hden
          _ < 2 ^ 53 * 2 ^ k := Nat.mul_lt_mul_of_pos_right hc (Nat.two_pow_pos k)
          _ = 2 ^ (53 + k) := (Nat.pow_add ..).symm
      have := (Nat.pow_lt_pow_iff_right Nat.one_lt_two).1 hlt
      omega
  rw [nearest]
  generalize scaleOf (c * 2 ^ k * den) den = s at hscale
  obtain ⟨e, rfl⟩ := Nat.exists_eq_add_of_le hscale
  have hgrid : c * 2 ^ (s + e) * den = c * 2 ^ e * (den * 2 ^ s) := by ring
  rw [hgrid, roundHalfEven_mul _ (Nat.mul_pos hden (Nat.two_pow_pos s))]
  ring

/-- Integers with a mantissa of 53 bits are not changed. -/
theorem nearest_integer {c : Nat} (k : Nat) (hc : c < 2 ^ 53) :
    nearest (c * 2 ^ k * unitsOfOne) 1 = c * 2 ^ k * unitsOfOne := by
  have hexact := nearest_exact (k := k + 1074) hc Nat.one_pos
  rwa [Nat.mul_one, ← two_pow_mul_unitsOfOne, ← Nat.mul_assoc] at hexact

@[simp] theorem nearest_zero (den : Nat) : nearest 0 den = 0 := by
  simp [nearest, roundHalfEven]

/-- The error is at most half the distance of two magnitudes, which is at most `2^-52` of the
quotient. -/
theorem nearest_near (hden : 0 < den) (hnormal : den * 2 ^ 52 ≤ num) :
    2 ^ 53 * (nearest num den * den) ≤ (2 ^ 53 + 1) * num ∧
      2 ^ 53 * num ≤ 2 ^ 53 * (nearest num den * den) + num := by
  have hgap : den * 2 ^ scaleOf num den * 2 ^ 52 ≤ num := by
    rcases (isScale_scaleOf num hden).le with hzero | hle
    · rw [hzero]
      simpa using hnormal
    · rwa [Nat.pow_add, ← Nat.mul_assoc] at hle
  rw [nearest]
  generalize scaleOf num den = s at hgap
  obtain ⟨hlow, hhigh⟩ := roundHalfEven_near num (Nat.mul_pos hden (Nat.two_pow_pos s))
  have hproduct : roundHalfEven num (den * 2 ^ s) * 2 ^ s * den
      = roundHalfEven num (den * 2 ^ s) * (den * 2 ^ s) := by ring
  rw [hproduct]
  omega

/-- What is at least a power of two is not rounded below it. -/
theorem two_pow_le_nearest {b : Nat} (hden : 0 < den) (h : 2 ^ b * den ≤ num) :
    2 ^ b ≤ nearest num den := by
  have hexact := nearest_exact (c := 1) (k := b) (by decide) hden
  rw [Nat.one_mul] at hexact
  rw [← hexact]
  exact nearest_mono_num hden h

/-- What is at most a power of two is not rounded above it. -/
theorem nearest_le_two_pow {b : Nat} (hden : 0 < den) (h : num ≤ 2 ^ b * den) :
    nearest num den ≤ 2 ^ b := by
  have hexact := nearest_exact (c := 1) (k := b) (by decide) hden
  rw [Nat.one_mul] at hexact
  rw [← hexact]
  exact nearest_mono_num hden h

/-! ## The number -/

theorem ofParts_eq (negative : Bool) (mantissa scale : Nat) (hmantissa : mantissa < 2 ^ 53)
    (hscale : scale ≤ 2045) (hcanonical : mantissa < 2 ^ 52 → scale = 0) :
    ∃ m : Magnitude, ofParts negative mantissa scale = .finite negative m ∧
      m.units = mantissa * 2 ^ scale :=
  ⟨_, dif_pos ⟨hmantissa, hscale, hcanonical⟩, rfl⟩

/-- **Rounding gives the nearest magnitude.** -/
theorem exists_ofUnitRatio (negative : Bool) {e : Nat} (he : e ≤ 2097) (hden : 0 < den)
    (hsize : num < den * 2 ^ e) :
    ∃ m : Magnitude, ofUnitRatio negative num den = .finite negative m ∧
      m.units = nearest num den := by
  have hscale := isScale_scaleOf num hden
  obtain ⟨hmantissa, hnormal⟩ := hscale.mantissa hden
  have hbound : scaleOf num den ≤ 2044 := by
    rcases hscale.le with hzero | hle
    · omega
    · have hpow : 2 ^ (scaleOf num den + 52) < 2 ^ e :=
        Nat.lt_of_mul_lt_mul_left (Nat.lt_of_le_of_lt hle hsize)
      have := (Nat.pow_lt_pow_iff_right Nat.one_lt_two).1 hpow
      omega
  rw [ofUnitRatio, nearest, ← scaleOf]
  simp only [Nat.pow_eq]
  split
  · rename_i hlt
    exact ofParts_eq negative _ _ hlt (by omega) fun h => by omega
  · -- a carry gives the least mantissa of the next scale
    rename_i hnot
    have hcarry : roundHalfEven num (den * 2 ^ scaleOf num den) = 2 ^ 53 := by omega
    rw [hcarry]
    obtain ⟨m, hm, hunits⟩ := ofParts_eq negative (2 ^ 53 / 2) (scaleOf num den + 1)
      (by decide) (by omega) fun h => absurd h (by decide)
    refine ⟨m, hm, hunits.trans ?_⟩
    rw [Nat.pow_succ 2 (scaleOf num den)]
    omega

/-! ## Parts and words -/

theorem ofParts_magnitude (negative : Bool) (m : Magnitude) :
    ofParts negative m.mantissa m.scale = .finite negative m :=
  dif_pos ⟨m.mantissa_lt, m.scale_le, m.canonical⟩

theorem ofParts_eq_finite_iff {negative negative' : Bool} {mantissa scale : Nat} {m : Magnitude} :
    ofParts negative mantissa scale = .finite negative' m ↔
      negative = negative' ∧ mantissa = m.mantissa ∧ scale = m.scale := by
  constructor
  · intro h
    rw [ofParts] at h
    split at h
    · cases h
      exact ⟨rfl, rfl, rfl⟩
    · cases h
  · rintro ⟨rfl, rfl, rfl⟩
    exact ofParts_magnitude negative m

/-- **A word of a finite number** is the word of the number it stands for. -/
theorem toBits_ofBits {word : Nat} (hword : word < 2 ^ 64) (hfinite : (ofBits word).isFinite = true) :
    (ofBits word).toBits = word := by
  cases h : ofBits word with
  | infinite negative => rw [h] at hfinite; cases hfinite
  | nan => rw [h] at hfinite; cases hfinite
  | finite negative m =>
    rw [ofBits] at h
    dsimp only [Nat.pow_eq] at h
    rw [toBits]
    split at h
    · split at h <;> cases h
    · split at h
      · obtain ⟨rfl, hmantissa, hscale⟩ := ofParts_eq_finite_iff.1 h
        rw [← hmantissa, ← hscale]
        simp only [beq_iff_eq, Nat.pow_eq]
        split <;> omega
      · obtain ⟨rfl, hmantissa, hscale⟩ := ofParts_eq_finite_iff.1 h
        rw [← hmantissa, ← hscale]
        simp only [beq_iff_eq, Nat.pow_eq]
        split <;> omega

/-! ## Zeros -/

theorem Magnitude.eq_zero_of_mantissa {m : Magnitude} (h : m.mantissa = 0) : m = zero := by
  obtain ⟨mantissa, scale, _, _, hcanonical⟩ := m
  obtain rfl : mantissa = 0 := h
  obtain rfl : scale = 0 := hcanonical (by decide)
  rfl

/-- Two zeros of one sign are equal. -/
theorem eq_of_isZero {x y : Binary64} (hx : x.isZero = true) (hy : y.isZero = true)
    (hsign : x.isNegative = y.isNegative) : x = y := by
  cases x with
  | infinite negative => cases hx
  | nan => cases hx
  | finite a m =>
    cases y with
    | infinite negative => cases hy
    | nan => cases hy
    | finite b n =>
      obtain rfl : a = b := hsign
      rw [Magnitude.eq_zero_of_mantissa (beq_iff_eq.1 hx),
        Magnitude.eq_zero_of_mantissa (beq_iff_eq.1 hy)]

end JobMatrix.Binary64
