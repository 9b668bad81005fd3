import JobMatrix.Binary64.Decimal
import JobMatrix.Binary64.Shortest
import JobMatrix.Proofs.Binary64.Rounding

/-!
# What is rounded to a magnitude

The quotients that are rounded to a magnitude lie between the midpoints to its two neighbours, with
the midpoints themselves if its mantissa is even.  `Magnitude.Attracts` says so of a quotient of
units, and `Magnitude.AttractsDecimal` of a decimal.

* `Magnitude.Attracts.ofUnitRatio_eq`: what a magnitude attracts is rounded to it.  Below a power of
  two the mantissas have one place more there than the magnitude has, so rounding ends with a carry
  (`Magnitude.Attracts.carry`).
* `Magnitude.AttractsDecimal.ofDecimal_eq`: a decimal that a magnitude attracts is read as it, and
  is neither too large nor too small for that.
-/

set_option autoImplicit false

namespace JobMatrix.Binary64

namespace Magnitude

variable {m : Magnitude} {num den : Nat}

/-! ## The rounding interval -/

/-- The distance from a magnitude to the next one above it. -/
def gap (m : Magnitude) : Nat := 2 ^ m.scale

theorem gap_pos (m : Magnitude) : 0 < m.gap := Nat.two_pow_pos m.scale

theorem units_eq (m : Magnitude) : m.units = m.mantissa * m.gap := rfl

theorem units_mul (m : Magnitude) (den : Nat) :
    m.units * den = m.mantissa * (m.gap * den) := by
  rw [units_eq, Nat.mul_assoc]

theorem two_pow_mul_gap (m : Magnitude) (k den : Nat) :
    2 ^ k * (m.gap * den) = den * 2 ^ (m.scale + k) := by
  rw [gap]
  ring

/-- The way from a magnitude to the midpoint below it, in quarters of a unit.  Below a power of two
the magnitudes are twice as close. -/
def reach (m : Magnitude) : Nat :=
  if m.mantissa = 2 ^ 52 ∧ 0 < m.scale then m.gap else 2 * m.gap

/-- The quotient `num / den`, in units, lies in the rounding interval of a magnitude. -/
def Attracts (m : Magnitude) (num den : Nat) : Prop :=
  if m.mantissa % 2 = 0 then
    4 * (m.units * den) ≤ 4 * num + m.reach * den ∧ 2 * num ≤ 2 * (m.units * den) + m.gap * den
  else
    4 * (m.units * den) < 4 * num + m.reach * den ∧ 2 * num < 2 * (m.units * den) + m.gap * den

theorem reach_le (m : Magnitude) : m.reach ≤ 2 * m.gap := by
  rw [reach]
  split <;> omega

theorem reach_pos (m : Magnitude) : 0 < m.reach := by
  have := m.gap_pos
  rw [reach]
  split <;> omega

/-- The midpoints themselves bound what a magnitude attracts. -/
theorem Attracts.near (h : m.Attracts num den) :
    4 * (m.units * den) ≤ 4 * num + m.reach * den ∧
      2 * num ≤ 2 * (m.units * den) + m.gap * den := by
  rw [Attracts] at h
  split at h <;> omega

/-- What a magnitude attracts is not further below it than the midpoint above it is away. -/
theorem Attracts.low (h : m.Attracts num den) :
    2 * (m.units * den) ≤ 2 * num + m.gap * den := by
  have hreach := Nat.mul_le_mul_right den m.reach_le
  have := h.near.1
  rw [Nat.mul_assoc] at hreach
  omega

/-! ## Rounding -/

/-- On the grid of the magnitude, what it attracts is nearest to its own mantissa. -/
theorem Attracts.roundHalfEven_eq (h : m.Attracts num den) (hden : 0 < den) :
    roundHalfEven num (den * m.gap) = m.mantissa := by
  have hlow := h.low
  rw [Nat.mul_comm]
  rcases Nat.mod_two_eq_zero_or_one m.mantissa with heven | hodd
  · refine roundHalfEven_eq_of_even (Nat.mul_pos m.gap_pos hden) heven ?_ ?_
    · rwa [← units_mul]
    · rw [← units_mul]
      exact h.near.2
  · -- the midpoints do not belong to the interval
    have hreach := Nat.mul_le_mul_right den m.reach_le
    rw [Nat.mul_assoc] at hreach
    rw [Attracts, if_neg (by omega)] at h
    refine roundHalfEven_eq_of_lt ?_ ?_
    · rw [← units_mul]
      omega
    · rw [← units_mul]
      exact h.2

/-- What a magnitude attracts has the same scale, unless it lies below a power of two. -/
theorem Attracts.isScale (h : m.Attracts num den) (hden : 0 < den)
    (hpower : m.mantissa = 2 ^ 52 → 0 < m.scale → m.units * den ≤ num) :
    IsScale num den m.scale where
  lt := by
    have hhigh := h.near.2
    have hgap : 0 < m.gap * den := Nat.mul_pos m.gap_pos hden
    have hle : m.mantissa * (m.gap * den) ≤ (2 ^ 53 - 1) * (m.gap * den) :=
      Nat.mul_le_mul_right _ (Nat.le_sub_one_of_lt m.mantissa_lt)
    rw [units_mul] at hhigh
    rw [← two_pow_mul_gap]
    omega
  le := by
    rcases Nat.eq_zero_or_pos m.scale with hzero | hpos
    · exact .inl hzero
    · right
      have hnormal : 2 ^ 52 ≤ m.mantissa := by
        by_contra hlt
        exact absurd (m.canonical (Nat.lt_of_not_le hlt)) (Nat.ne_of_gt hpos)
      rw [← two_pow_mul_gap]
      rcases Nat.eq_or_lt_of_le hnormal with heq | hlt
      · rw [heq, ← units_mul]
        exact hpower heq.symm hpos
      · have hlow := h.low
        have hle : (2 ^ 52 + 1) * (m.gap * den) ≤ m.mantissa * (m.gap * den) :=
          Nat.mul_le_mul_right _ hlt
        rw [units_mul] at hlow
        omega

/-- Just below a power of two the grid is twice as fine, and rounding carries into the next scale. -/
theorem Attracts.carry (h : m.Attracts num den) (hden : 0 < den) (hmantissa : m.mantissa = 2 ^ 52)
    (hpos : 0 < m.scale) (hlt : num < m.units * den) :
    scaleOf num den = m.scale - 1 ∧ roundHalfEven num (den * 2 ^ (m.scale - 1)) = 2 ^ 53 := by
  have hgap : m.gap * den = 2 * (den * 2 ^ (m.scale - 1)) := by
    rw [gap]
    conv_lhs => rw [← Nat.sub_add_cancel hpos, Nat.pow_succ]
    ring
  have hunits : m.units * den = 2 ^ 53 * (den * 2 ^ (m.scale - 1)) := by
    rw [units_mul, hgap, hmantissa]
    ring
  have hreach : m.reach * den = 2 * (den * 2 ^ (m.scale - 1)) := by
    rw [reach, if_pos ⟨hmantissa, hpos⟩, hgap]
  have hlow := h.near.1
  have hhalf : 0 < den * 2 ^ (m.scale - 1) := Nat.mul_pos hden (Nat.two_pow_pos _)
  rw [hunits] at hlow hlt
  rw [hreach] at hlow
  constructor
  · refine IsScale.unique hden ⟨?_, .inr ?_⟩
    · rw [Nat.pow_add, ← Nat.mul_assoc]
      omega
    · rw [Nat.pow_add, ← Nat.mul_assoc]
      omega
  · exact roundHalfEven_eq_of_even hhalf (by decide) (by omega) (by omega)

/-- **What a magnitude attracts is rounded to it.** -/
theorem Attracts.ofUnitRatio_eq (h : m.Attracts num den) (hden : 0 < den) (negative : Bool) :
    ofUnitRatio negative num den = .finite negative m := by
  by_cases hbelow : m.mantissa = 2 ^ 52 ∧ 0 < m.scale ∧ num < m.units * den
  · obtain ⟨hmantissa, hpos, hlt⟩ := hbelow
    obtain ⟨hscale, hround⟩ := h.carry hden hmantissa hpos hlt
    rw [ofUnitRatio, ← scaleOf, hscale]
    simp only [Nat.pow_eq, hround, Nat.lt_irrefl, if_false]
    rw [Nat.sub_add_cancel hpos, show 2 ^ 53 / 2 = m.mantissa from hmantissa ▸ rfl,
      ofParts_magnitude]
  · have hscale := (h.isScale hden fun hmantissa hpos =>
      Nat.le_of_not_lt fun hlt => hbelow ⟨hmantissa, hpos, hlt⟩).unique hden
    rw [ofUnitRatio, ← scaleOf, hscale]
    have hround := h.roundHalfEven_eq hden
    rw [gap] at hround
    simp only [Nat.pow_eq, hround]
    rw [if_pos m.mantissa_lt, ofParts_magnitude]

/-- A magnitude attracts itself. -/
theorem attracts_self (m : Magnitude) (hden : 0 < den) : m.Attracts (m.units * den) den := by
  have hgap : 0 < m.gap * den := Nat.mul_pos m.gap_pos hden
  have hreach : 0 < m.reach * den := Nat.mul_pos m.reach_pos hden
  rw [Attracts]
  split <;> omega

/-! ## Decimal numbers -/

/-- The value of a decimal lies in the rounding interval of a magnitude. -/
def AttractsDecimal (m : Magnitude) (digits : Nat) (exponent : Int) : Prop :=
  m.Attracts (digits * 10 ^ exponent.toNat * unitsOfOne) (10 ^ (-exponent).toNat)

/-- What a magnitude attracts is not greater than the magnitudes of the next scale. -/
theorem Attracts.lt (h : m.Attracts num den) (hden : 0 < den) :
    num < 2 ^ (m.scale + 54) * den := by
  have hhigh := h.near.2
  have hgap : 0 < m.gap * den := Nat.mul_pos m.gap_pos hden
  have hunits : m.units * den ≤ 2 ^ 53 * (m.gap * den) := by
    rw [units_mul]
    exact Nat.mul_le_mul_right _ m.mantissa_lt.le
  rw [Nat.mul_comm, ← two_pow_mul_gap]
  omega

/-- What a magnitude other than zero attracts is a quarter of a unit at least. -/
theorem Attracts.le (h : m.Attracts num den) (hne : m.mantissa ≠ 0) : den ≤ 4 * num := by
  have hlow := h.low
  have hgap := Nat.mul_le_mul_right den (Nat.succ_le_of_lt m.gap_pos)
  have hunits : m.gap * den ≤ m.units * den :=
    Nat.mul_le_mul_right den (Nat.le_mul_of_pos_left _ (Nat.pos_of_ne_zero hne))
  omega

/-- Powers of ten and of two, compared in steps of `2^93 < 10^28`. -/
theorem two_pow_le_ten_pow (k : Nat) {a b : Nat} (h : 2 ^ a ≤ 10 ^ b) :
    2 ^ (93 * k + a) ≤ 10 ^ (28 * k + b) := by
  rw [Nat.pow_add, Nat.pow_mul, Nat.pow_add, Nat.pow_mul]
  exact Nat.mul_le_mul (Nat.pow_le_pow_left (by decide) k) h

/-- What a magnitude attracts is not so large that it is read as infinite. -/
theorem AttractsDecimal.exponent_le {digits : Nat} {exponent : Int}
    (h : m.AttractsDecimal digits exponent) (hdigits : digits ≠ 0) : exponent ≤ 310 := by
  by_contra hlarge
  have hnone : (-exponent).toNat = 0 := by omega
  rw [AttractsDecimal, hnone] at h
  have hlt := h.lt (Nat.pow_pos (by decide))
  have hscale := m.scale_le
  have hten : 2 ^ (93 * 11 + 9) ≤ 10 ^ exponent.toNat := by
    calc 2 ^ (93 * 11 + 9) ≤ 10 ^ (28 * 11 + 3) := two_pow_le_ten_pow 11 (by decide)
      _ ≤ 10 ^ exponent.toNat := Nat.pow_le_pow_right (by decide) (by omega)
  refine absurd hlt (Nat.not_lt.2 ?_)
  calc 2 ^ (m.scale + 54) * 10 ^ 0 ≤ 2 ^ (93 * 11 + 9) * unitsOfOne := by
        rw [Nat.pow_zero, Nat.mul_one]
        exact two_pow_le_mul_unitsOfOne (by omega)
    _ ≤ digits * 10 ^ exponent.toNat * unitsOfOne :=
        Nat.mul_le_mul_right _
          (Nat.le_trans hten (Nat.le_mul_of_pos_left _ (Nat.pos_of_ne_zero hdigits)))

/-- What a magnitude other than zero attracts is not so small that it is read as zero. -/
theorem AttractsDecimal.le_exponent {digits : Nat} {exponent : Int}
    (h : m.AttractsDecimal digits exponent) (hne : m.mantissa ≠ 0) :
    -330 ≤ exponent + (digits.log2 + 1 : Nat) := by
  by_contra hsmall
  have hnone : exponent.toNat = 0 := by omega
  rw [AttractsDecimal, hnone, Nat.pow_zero, Nat.mul_one] at h
  have hle := h.le hne
  have hlog : digits < 10 ^ (digits.log2 + 1) :=
    Nat.lt_of_lt_of_le Nat.lt_log2_self (Nat.pow_le_pow_left (by decide) _)
  have hten : 2 ^ 2 * unitsOfOne ≤ 10 ^ (28 * 11 + 23) := by
    calc 2 ^ 2 * unitsOfOne ≤ 2 ^ (93 * 11 + 76) := mul_unitsOfOne_le_two_pow (by decide)
      _ ≤ 10 ^ (28 * 11 + 23) := two_pow_le_ten_pow 11 (by decide)
  refine absurd hle (Nat.not_le.2 ?_)
  calc 4 * (digits * unitsOfOne) = digits * (2 ^ 2 * unitsOfOne) := by ring
    _ < 10 ^ (digits.log2 + 1) * 10 ^ (28 * 11 + 23) :=
        Nat.mul_lt_mul_of_lt_of_le hlog hten (by positivity)
    _ ≤ 10 ^ (-exponent).toNat := by
        rw [← Nat.pow_add]
        exact Nat.pow_le_pow_right (by decide) (by omega)

theorem AttractsDecimal.mantissa_eq_zero {exponent : Int} (h : m.AttractsDecimal 0 exponent) :
    m.mantissa = 0 := by
  by_contra hne
  have hle := h.le hne
  rw [Nat.zero_mul, Nat.zero_mul] at hle
  exact absurd hle (Nat.not_le.2 (Nat.pow_pos (by decide)))

/-- **A decimal is read** as the magnitude whose rounding interval it lies in. -/
theorem AttractsDecimal.ofDecimal_eq {digits : Nat} {exponent : Int}
    (h : m.AttractsDecimal digits exponent) (negative : Bool) :
    ofDecimal negative digits exponent = .finite negative m := by
  have hrounded := h.ofUnitRatio_eq (Nat.pow_pos (by decide)) negative
  rw [ofDecimal]
  split
  · rename_i hzero
    have hmantissa : m.mantissa = 0 := by
      subst hzero
      exact h.mantissa_eq_zero
    rw [eq_zero_of_mantissa hmantissa]
  · rename_i hdigits
    rw [if_neg (Int.not_lt.2 (h.exponent_le hdigits))]
    split
    · rename_i hsmall
      have hzero : m.mantissa = 0 := by
        by_contra hne
        exact absurd (h.le_exponent hne) (Int.not_le.2 hsmall)
      rw [eq_zero_of_mantissa hzero]
    · split
      · rename_i hwhole
        rwa [Int.toNat_of_nonpos (by omega : -exponent ≤ 0), ← ofRatio_eq] at hrounded
      · rename_i hfraction
        rwa [Int.toNat_of_nonpos (by omega : exponent ≤ 0), Nat.pow_zero, Nat.mul_one,
          ← ofRatio_eq] at hrounded

end Magnitude

end JobMatrix.Binary64
