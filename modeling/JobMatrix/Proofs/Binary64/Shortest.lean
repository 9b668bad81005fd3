import JobMatrix.Binary64.Notation
import JobMatrix.Proofs.Binary64.Interval
import JobMatrix.Proofs.Binary64.Numeral

/-!
# Shortest decimals read back

The search for the shortest decimal of a magnitude only answers with decimals in its rounding
interval, so each of them is read back as the magnitude (`Magnitude.attractsDecimal_shortest`).  That
holds of every step of the search, and of the exact decimal with which it would end.

Digits behind the point are there exactly for fractions: a magnitude whose interval has an integer in
it is an integer (`Magnitude.AttractsDecimal.isWhole`), so the shortest decimal of any other one has
places, and is written as a numeral with as many (`ShortDecimal.exists_numeral`).
-/

set_option autoImplicit false

namespace JobMatrix.Binary64

namespace Magnitude

/-! ## The grid -/

variable {m : Magnitude} {tie : Tie} {exponent : Int} {c : Nat}

/-- The multiple `c` of `10^exponent` passes the test of the grid. -/
def gridTest (m : Magnitude) (exponent : Int) (c : Nat) : Bool :=
  let (low, _, high) := m.interval
  let stretch := Nat.pow 10 (-exponent).toNat
  let step := Nat.pow 2 1076 * Nat.pow 10 exponent.toNat
  if m.mantissa % 2 = 0 then low * stretch ≤ c * step && c * step ≤ high * stretch
  else low * stretch < c * step && c * step < high * stretch

theorem gridTest_of_onGrid? (h : m.onGrid? tie exponent = some c) :
    m.gridTest exponent c = true := by
  rw [onGrid?] at h
  dsimp only at h
  generalize hlower : m.interval.2.1 * Nat.pow 10 (-exponent).toNat
    / (Nat.pow 2 1076 * Nat.pow 10 exponent.toNat) = lower at h
  split at h
  case h_1 => cases h
  case h_2 hlow _ => cases h; exact hlow
  case h_3 _ hhigh => cases h; exact hhigh
  case h_4 hlow hhigh =>
    split at h
    · cases h; exact hlow
    · split at h
      · cases h; exact hhigh
      · cases tie with
        | up => cases h; exact hhigh
        | toEven =>
          rcases Nat.mod_two_eq_zero_or_one lower with heven | hodd
          · rw [heven] at h; cases h; exact hlow
          · rw [hodd] at h; cases h; exact hhigh

theorem interval_eq (m : Magnitude) :
    m.interval = (4 * m.units - m.reach, 4 * m.units, 4 * m.units + 2 * m.gap) := rfl

theorem step_eq (exponent : Int) : Nat.pow 2 1076 * Nat.pow 10 exponent.toNat
    = 4 * (10 ^ exponent.toNat * unitsOfOne) := by
  rw [Nat.pow_eq, Nat.pow_eq, show 1076 = 2 + 1074 from rfl, ← two_pow_mul_unitsOfOne]
  ring

/-- A point of the grid is inside if the magnitude attracts it. -/
theorem attractsDecimal_of_gridTest (h : m.gridTest exponent c = true) :
    m.AttractsDecimal c exponent := by
  have hstep : c * (4 * (10 ^ exponent.toNat * unitsOfOne))
      = 4 * (c * 10 ^ exponent.toNat * unitsOfOne) := by ring
  rw [AttractsDecimal, Attracts]
  rw [gridTest, interval_eq] at h
  dsimp only at h
  rw [step_eq, hstep, Nat.pow_eq] at h
  generalize c * 10 ^ exponent.toNat * unitsOfOne = num at h ⊢
  generalize 10 ^ (-exponent).toNat = den at h ⊢
  have hlow : (4 * m.units - m.reach) * den = 4 * (m.units * den) - m.reach * den := by
    rw [Nat.sub_mul, Nat.mul_assoc]
  have hhigh : (4 * m.units + 2 * m.gap) * den = 4 * (m.units * den) + 2 * (m.gap * den) := by ring
  rw [hlow, hhigh] at h
  split at h <;> rename_i hparity <;> simp only [Bool.and_eq_true, decide_eq_true_eq] at h
  · rw [if_pos hparity]
    omega
  · rw [if_neg hparity]
    omega

/-! ## The search -/

/-- A unit of `2^-k` is a multiple of `10^-k`. -/
theorem attractsDecimal_exact (m : Magnitude) {k : Nat} (hk : unitsOfOne = 2 ^ k) :
    m.AttractsDecimal (m.units * 5 ^ k) (-(k : Int)) := by
  have hexact : m.units * 5 ^ k * 10 ^ 0 * 2 ^ k = m.units * 10 ^ k := by
    rw [Nat.pow_zero, Nat.mul_one, Nat.mul_assoc, ← Nat.mul_pow]
  rw [AttractsDecimal, Int.toNat_neg_natCast, neg_neg, Int.toNat_natCast, hk, hexact]
  exact m.attracts_self (Nat.pow_pos (by decide))

theorem attractsDecimal_search (m : Magnitude) (tie : Tie) : ∀ (fuel : Nat) (exponent : Int),
    m.AttractsDecimal (m.search tie fuel exponent).digits (m.search tie fuel exponent).exponent
  | 0, _ => m.attractsDecimal_exact rfl
  | fuel + 1, exponent => by
    rw [search]
    cases h : m.onGrid? tie exponent with
    | some c => exact attractsDecimal_of_gridTest (gridTest_of_onGrid? h)
    | none => exact attractsDecimal_search m tie fuel (exponent - 1)

theorem attractsDecimal_zero : zero.AttractsDecimal 0 0 := by
  simpa [AttractsDecimal, units, zero] using zero.attracts_self Nat.one_pos

/-- **The shortest decimal** of a magnitude lies in its rounding interval. -/
theorem attractsDecimal_shortest (m : Magnitude) (tie : Tie) :
    m.AttractsDecimal (m.shortest tie).digits (m.shortest tie).exponent := by
  rw [shortest]
  split
  · rename_i hzero
    rw [eq_zero_of_mantissa hzero]
    exact attractsDecimal_zero
  · exact attractsDecimal_search m tie _ _

/-! ## Integers -/

/-- Of the multiples of its own spacing, a magnitude attracts only itself. -/
theorem Attracts.eq_mantissa {a den : Nat} (h : m.Attracts (a * m.gap * den) den) (hden : 0 < den) :
    a = m.mantissa := by
  have hround := h.roundHalfEven_eq hden
  rw [Nat.mul_assoc, Nat.mul_comm m.gap, roundHalfEven_mul _ (Nat.mul_pos hden m.gap_pos)] at hround
  exact hround

theorem isWhole_iff : m.isWhole = true ↔ unitsOfOne ∣ m.units := by
  rw [isWhole, beq_iff_eq, pow_unitsOfOne, Nat.dvd_iff_mod_eq_zero]

/-- A magnitude that attracts an integer is the integer, or has no fraction at all. -/
theorem AttractsDecimal.isWhole {digits : Nat} (h : m.AttractsDecimal digits exponent)
    (hexponent : 0 ≤ exponent) : m.isWhole = true := by
  rw [isWhole_iff]
  rcases Nat.le_total 1074 m.scale with hcoarse | hfine
  · rw [units_eq, gap, ← Nat.sub_add_cancel hcoarse, ← two_pow_mul_unitsOfOne, ← Nat.mul_assoc]
    exact Nat.dvd_mul_left ..
  · have hgrid : digits * 10 ^ exponent.toNat * unitsOfOne
        = digits * 10 ^ exponent.toNat * 2 ^ (1074 - m.scale) * m.gap * 1 := by
      rw [unitsOfOne_eq hfine, gap]
      ring
    rw [AttractsDecimal, Int.toNat_of_nonpos (by omega : -exponent ≤ 0), Nat.pow_zero, hgrid] at h
    rw [units_eq, ← h.eq_mantissa Nat.one_pos, ← Nat.mul_one (_ * m.gap), ← hgrid]
    exact Nat.dvd_mul_left ..

end Magnitude

/-! ## Positional notation -/

theorem natOfDigits_digitsOf (n : Nat) : natOfDigits (digitsOf n) = n :=
  Nat.ofDigitChars_ten_toDigits

theorem natOfDigits_zeros (k : Nat) : natOfDigits (List.replicate k '0') = 0 :=
  Nat.ofDigitChars_replicate_zero.trans (Nat.mul_zero _)

theorem isDigit_of_mem_digitsOf {n : Nat} {c : Char} (h : c ∈ digitsOf n) : c.isDigit = true :=
  Nat.isDigit_of_mem_toDigits (by decide) (by decide) h

theorem isDigit_of_mem_zeros {k : Nat} {c : Char} (h : c ∈ List.replicate k '0') :
    c.isDigit = true := by
  rw [List.eq_of_mem_replicate h]
  rfl

/-- Digits with a point among them. -/
theorem exists_numeral_among {ds : List Char} (hds : ∀ c ∈ ds, c.isDigit = true) {places : Nat}
    (hlt : places < ds.length) :
    ∃ n : Numeral, n.text = ds.take (ds.length - places) ++ '.' :: ds.drop (ds.length - places) ∧
      n.digits = ds ∧ n.fraction.length = places := by
  refine ⟨{ whole := ds.take (ds.length - places)
            fraction? := some (ds.drop (ds.length - places))
            whole_ne_nil := ?_, isDigit := ?_ }, rfl, List.take_append_drop .., ?_⟩
  · refine List.ne_nil_of_length_pos ?_
    rw [List.length_take]
    omega
  · rwa [Option.getD_some, List.take_append_drop]
  · rw [Numeral.fraction, Option.getD_some, List.length_drop]
    omega

/-- Digits behind the point, with zeros that fill up the places. -/
theorem exists_numeral_behind {ds : List Char} (hds : ∀ c ∈ ds, c.isDigit = true) {places : Nat}
    (hle : ds.length ≤ places) :
    ∃ n : Numeral, n.text = '0' :: '.' :: (List.replicate (places - ds.length) '0' ++ ds) ∧
      n.digits = List.replicate 1 '0' ++ (List.replicate (places - ds.length) '0' ++ ds) ∧
      n.fraction.length = places := by
  refine ⟨{ whole := ['0']
            fraction? := some (List.replicate (places - ds.length) '0' ++ ds)
            whole_ne_nil := List.cons_ne_nil _ _, isDigit := ?_ }, rfl, rfl, ?_⟩
  · simp only [Option.getD_some, List.mem_append, List.mem_singleton]
    rintro c (rfl | hc | hc)
    · rfl
    · exact isDigit_of_mem_zeros hc
    · exact hds c hc
  · rw [Numeral.fraction, Option.getD_some, List.length_append, List.length_replicate]
    omega

/-- **A decimal with places is written as a numeral** with its digits and its places. -/
theorem ShortDecimal.exists_numeral (d : ShortDecimal) (h : d.exponent < 0) :
    ∃ n : Numeral, n.text = d.positional ∧ natOfDigits n.digits = d.digits ∧
      -(n.fraction.length : Int) = d.exponent := by
  obtain ⟨places, hexponent⟩ : ∃ places : Nat, d.exponent = -(places : Int) :=
    ⟨(-d.exponent).toNat, by omega⟩
  have hdigits := natOfDigits_digitsOf d.digits
  have hisDigit := fun c => isDigit_of_mem_digitsOf (n := d.digits) (c := c)
  rw [positional, if_neg (Int.not_le.2 h), hexponent, neg_neg, Int.toNat_natCast]
  generalize digitsOf d.digits = ds at *
  dsimp only
  split
  · rename_i hlt
    obtain ⟨n, htext, hn, hlength⟩ := exists_numeral_among hisDigit hlt
    exact ⟨n, htext, by rw [hn, hdigits], by rw [hlength]⟩
  · rename_i hge
    obtain ⟨n, htext, hn, hlength⟩ := exists_numeral_behind hisDigit (Nat.le_of_not_lt hge)
    refine ⟨n, htext, ?_, by rw [hlength]⟩
    rw [hn, natOfDigits_append, natOfDigits_append, natOfDigits_zeros, natOfDigits_zeros, hdigits]
    omega

end JobMatrix.Binary64
