import JobMatrix.Job.Image
import JobMatrix.Proofs.Binary64.Numeral
import Mathlib.Tactic.Linarith

/-!
# The tag of a CUDA version

The tag of a version is ten times the version, truncated.  Both the version and the product are
rounded, and most versions are no binary64 numbers, so that a rounding could miss an integer from
either side.  Neither happens:

* ten times the number nearest to a tenth of an integer is rounded to that integer
  (`nearest_tenth_mul_ten`), so by monotonicity the product never falls below an integer that it
  should reach;
* what stays below an integer stays below it by more than the two errors together
  (`nearest_mul_ten_lt`).
-/

set_option autoImplicit false

namespace JobMatrix

namespace Binary64

/-! ## Ten times a tenth -/

/-- Numbers of few bits are small. -/
theorem lt_of_two_pow_le {n b k : Nat} (hn : n < 2 ^ b) (h : 2 ^ k ≤ n * unitsOfOne) :
    k < b + 1074 := by
  have hlt : 2 ^ k < 2 ^ (b + 1074) := by
    rw [← two_pow_mul_unitsOfOne]
    exact Nat.lt_of_le_of_lt h (Nat.mul_lt_mul_of_pos_right hn unitsOfOne_pos)
  exact (Nat.pow_lt_pow_iff_right Nat.one_lt_two).1 hlt

/-- An integer is an even multiple of every grid finer than the integers. -/
theorem exists_even_mul (n : Nat) {s : Nat} (h : s + 1 ≤ 1074) :
    ∃ a, n * unitsOfOne = 2 * a * 2 ^ s := by
  refine ⟨n * 2 ^ (1074 - (s + 1)), ?_⟩
  rw [unitsOfOne_eq h]
  ring

/-- The tenth of an integer is rounded in a grid much finer than the integers. -/
theorem scaleOf_tenth {n : Nat} (hpos : 0 < n) (hn : n < 2 ^ 50) :
    scaleOf (n * unitsOfOne) 10 ≠ 0 ∧ scaleOf (n * unitsOfOne) 10 + 1 ≤ 1074 := by
  have hscale := isScale_scaleOf (n * unitsOfOne) (by decide : 0 < 10)
  have hone : unitsOfOne ≤ n * unitsOfOne := Nat.le_mul_of_pos_left _ hpos
  constructor
  · intro hzero
    have hlt := hscale.lt
    rw [hzero] at hlt
    have hbig : 2 ^ 57 ≤ unitsOfOne := two_pow_le_unitsOfOne (by decide)
    omega
  · rcases hscale.le with hzero | hle
    · omega
    · have := lt_of_two_pow_le hn (Nat.le_trans (Nat.le_mul_of_pos_left _ (by decide)) hle)
      omega

/-- Ten times the number nearest to a tenth of an integer misses the integer by five halves of the
spacing there at most.  Both are even multiples of half the spacing, so it is two spacings. -/
theorem exists_nearest_tenth {n : Nat} (hpos : 0 < n) (hn : n < 2 ^ 50) :
    ∃ s r a, nearest (n * unitsOfOne) 10 = r * 2 ^ s ∧ n * unitsOfOne = 2 * a * 2 ^ s ∧
      2 ^ 52 ≤ r ∧ a ≤ 5 * r + 2 ∧ 5 * r ≤ a + 2 := by
  obtain ⟨hne, hfine⟩ := scaleOf_tenth hpos hn
  have hmantissa := ((isScale_scaleOf (n * unitsOfOne) (by decide : 0 < 10)).mantissa
    (by decide)).2.resolve_left hne
  rw [nearest]
  generalize scaleOf (n * unitsOfOne) 10 = s at *
  have hgrid : 0 < 2 ^ s := Nat.two_pow_pos s
  obtain ⟨a, ha⟩ := exists_even_mul n hfine
  have hnear := roundHalfEven_near (n * unitsOfOne) (Nat.mul_pos (by decide : 0 < 10) hgrid)
  generalize roundHalfEven (n * unitsOfOne) (10 * 2 ^ s) = r at *
  have hlow : 4 * a * 2 ^ s ≤ (20 * r + 10) * 2 ^ s := by
    calc 4 * a * 2 ^ s = 2 * (n * unitsOfOne) := by rw [ha]; ring
      _ ≤ 2 * (r * (10 * 2 ^ s)) + 10 * 2 ^ s := hnear.1
      _ = (20 * r + 10) * 2 ^ s := by ring
  have hhigh : 20 * r * 2 ^ s ≤ (4 * a + 10) * 2 ^ s := by
    calc 20 * r * 2 ^ s = 2 * (r * (10 * 2 ^ s)) := by ring
      _ ≤ 2 * (n * unitsOfOne) + 10 * 2 ^ s := hnear.2
      _ = (4 * a + 10) * 2 ^ s := by rw [ha]; ring
  have hlow := Nat.le_of_mul_le_mul_right hlow hgrid
  have hhigh := Nat.le_of_mul_le_mul_right hhigh hgrid
  exact ⟨s, r, a, rfl, ha, hmantissa, by omega, by omega⟩

variable {n s r a : Nat}

/-- The product is rounded in a grid that is eight times coarser than that of its factor, and still
finer than the integers. -/
theorem scaleOf_mul_ten (hn : n < 2 ^ 50) (ha : n * unitsOfOne = 2 * a * 2 ^ s) (hr : 2 ^ 52 ≤ r)
    (hhigh : 5 * r ≤ a + 2) :
    8 * 2 ^ s ≤ 2 ^ scaleOf (r * 2 ^ s * 10) 1 ∧ scaleOf (r * 2 ^ s * 10) 1 + 1 ≤ 1074 := by
  have hscale := isScale_scaleOf (r * 2 ^ s * 10) Nat.one_pos
  generalize scaleOf (r * 2 ^ s * 10) 1 = s' at *
  constructor
  · have hlt : 2 ^ (s + 55) < 2 ^ (s' + 53) := by
      calc 2 ^ (s + 55) = 8 * 2 ^ 52 * 2 ^ s := by ring
        _ ≤ 10 * r * 2 ^ s := Nat.mul_le_mul_right _ (by omega)
        _ = r * 2 ^ s * 10 := by ring
        _ < 2 ^ (s' + 53) := by simpa using hscale.lt
    have := (Nat.pow_lt_pow_iff_right Nat.one_lt_two).1 hlt
    calc 8 * 2 ^ s = 2 ^ (s + 3) := by ring
      _ ≤ 2 ^ s' := Nat.pow_le_pow_right Nat.two_pos (by omega)
  · rcases hscale.le with hzero | hle
    · omega
    · have hdouble : 2 ^ (s' + 52) ≤ 2 * n * unitsOfOne := by
        calc 2 ^ (s' + 52) ≤ r * 2 ^ s * 10 := by simpa using hle
          _ = 10 * r * 2 ^ s := by ring
          _ ≤ 2 * (2 * a) * 2 ^ s := Nat.mul_le_mul_right _ (by omega)
          _ = 2 * n * unitsOfOne := by rw [Nat.mul_assoc 2 n, ha]; ring
      have := lt_of_two_pow_le (b := 51) (by omega) hdouble
      omega

/-- A product that misses an integer by two spacings of its factor is rounded to the integer. -/
theorem nearest_mul_ten (hn : n < 2 ^ 50) (ha : n * unitsOfOne = 2 * a * 2 ^ s) (hr : 2 ^ 52 ≤ r)
    (hlow : a ≤ 5 * r + 2) (hhigh : 5 * r ≤ a + 2) :
    nearest (r * 2 ^ s * 10) 1 = n * unitsOfOne := by
  obtain ⟨hcoarse, hfine⟩ := scaleOf_mul_ten hn ha hr hhigh
  rw [nearest, Nat.one_mul]
  generalize scaleOf (r * 2 ^ s * 10) 1 = s' at *
  obtain ⟨b, hb⟩ := exists_even_mul n hfine
  have hround : roundHalfEven (r * 2 ^ s * 10) (2 ^ s') = 2 * b := by
    refine roundHalfEven_eq_of_even (Nat.two_pow_pos s') (Nat.mul_mod_right 2 b) ?_ ?_
    · calc 2 * (2 * b * 2 ^ s') = 4 * a * 2 ^ s := by rw [← hb, ha]; ring
        _ ≤ (20 * r + 8) * 2 ^ s := Nat.mul_le_mul_right _ (by omega)
        _ = 2 * (r * 2 ^ s * 10) + 8 * 2 ^ s := by ring
        _ ≤ 2 * (r * 2 ^ s * 10) + 2 ^ s' := Nat.add_le_add_left hcoarse _
    · calc 2 * (r * 2 ^ s * 10) = 20 * r * 2 ^ s := by ring
        _ ≤ (4 * a + 8) * 2 ^ s := Nat.mul_le_mul_right _ (by omega)
        _ = 2 * (2 * b * 2 ^ s') + 8 * 2 ^ s := by rw [← hb, ha]; ring
        _ ≤ 2 * (2 * b * 2 ^ s') + 2 ^ s' := Nat.add_le_add_left hcoarse _
  rw [hround, hb]

/-- **Ten times the number nearest to a tenth of an integer is rounded to the integer.** -/
theorem nearest_tenth_mul_ten (hn : n < 2 ^ 50) :
    nearest (nearest (n * unitsOfOne) 10 * 10) 1 = n * unitsOfOne := by
  rcases Nat.eq_zero_or_pos n with rfl | hpos
  · simp [nearest_zero]
  · obtain ⟨s, r, a, hr, ha, hmantissa, hlow, hhigh⟩ := exists_nearest_tenth hpos hn
    rw [hr]
    exact nearest_mul_ten hn ha hmantissa hlow hhigh

/-! ## Ten times a decimal number -/

variable {digits places : Nat}

theorem two_pow_le_nearest_decimal (hpos : 0 < digits) (hplaces : 10 ^ places ≤ 2 ^ 50) :
    2 ^ 100 ≤ nearest (digits * unitsOfOne) (10 ^ places) := by
  refine two_pow_le_nearest (Nat.pow_pos (by decide)) ?_
  calc 2 ^ 100 * 10 ^ places ≤ 2 ^ 100 * 2 ^ 50 := Nat.mul_le_mul_left _ hplaces
    _ ≤ unitsOfOne := two_pow_le_unitsOfOne (k := 150) (by decide)
    _ ≤ digits * unitsOfOne := Nat.le_mul_of_pos_left _ hpos

theorem nearest_decimal_le (places : Nat) (hdigits : digits < 2 ^ 50) :
    nearest (digits * unitsOfOne) (10 ^ places) ≤ 2 ^ (50 + 1074) := by
  have hten : 0 < 10 ^ places := Nat.pow_pos (by decide)
  refine nearest_le_two_pow hten ?_
  rw [← two_pow_mul_unitsOfOne]
  calc digits * unitsOfOne ≤ 2 ^ 50 * unitsOfOne := Nat.mul_le_mul_right _ hdigits.le
    _ ≤ 2 ^ 50 * unitsOfOne * 10 ^ places := Nat.le_mul_of_pos_right _ hten

/-- **The two roundings do not reach an integer from below.**  Their relative errors are `2^-53`, and
the number falls short by one unit of its last place, with fewer than `2^50` of them. -/
theorem nearest_mul_ten_lt (hdigits : digits < 2 ^ 50) (hplaces : 10 ^ (places + 1) ≤ 2 ^ 50)
    (hlt : digits < n * 10 ^ places) :
    nearest (nearest (digits * unitsOfOne) (10 ^ (places + 1)) * 10) 1 < n * unitsOfOne := by
  rcases Nat.eq_zero_or_pos digits with rfl | hpos
  · have hn : 0 < n := Nat.pos_of_mul_pos_right (Nat.zero_lt_of_lt hlt)
    simpa using ⟨hn, unitsOfOne_pos⟩
  have hbelow := two_pow_le_nearest_decimal hpos hplaces
  have hten : 0 < 10 ^ (places + 1) := Nat.pow_pos (by decide)
  have hnormal : 10 ^ (places + 1) * 2 ^ 52 ≤ digits * unitsOfOne := by
    calc 10 ^ (places + 1) * 2 ^ 52 ≤ 2 ^ 50 * 2 ^ 52 := Nat.mul_le_mul_right _ hplaces
      _ ≤ unitsOfOne := two_pow_le_unitsOfOne (k := 102) (by decide)
      _ ≤ digits * unitsOfOne := Nat.le_mul_of_pos_left _ hpos
  have hfirst := (nearest_near hten hnormal).1
  generalize nearest (digits * unitsOfOne) (10 ^ (places + 1)) = x at *
  have hnormal' : 1 * 2 ^ 52 ≤ x * 10 := by
    calc 1 * 2 ^ 52 ≤ 2 ^ 100 := by decide
      _ ≤ x := hbelow
      _ ≤ x * 10 := Nat.le_mul_of_pos_right _ (by decide)
  have hsecond := (nearest_near Nat.one_pos hnormal').1
  generalize nearest (x * 10) 1 = y at *
  refine Nat.lt_of_mul_lt_mul_left (a := 2 ^ 106 * 10 ^ places) ?_
  calc 2 ^ 106 * 10 ^ places * y = 2 ^ 53 * 10 ^ places * (2 ^ 53 * (y * 1)) := by ring
    _ ≤ 2 ^ 53 * 10 ^ places * ((2 ^ 53 + 1) * (x * 10)) := Nat.mul_le_mul_left _ hsecond
    _ = (2 ^ 53 + 1) * (2 ^ 53 * (x * 10 ^ (places + 1))) := by ring
    _ ≤ (2 ^ 53 + 1) * ((2 ^ 53 + 1) * (digits * unitsOfOne)) := Nat.mul_le_mul_left _ hfirst
    _ = (2 ^ 53 + 1) ^ 2 * digits * unitsOfOne := by ring
    _ < 2 ^ 106 * (digits + 1) * unitsOfOne :=
        Nat.mul_lt_mul_of_pos_right (by omega) unitsOfOne_pos
    _ ≤ 2 ^ 106 * (n * 10 ^ places) * unitsOfOne :=
        Nat.mul_le_mul_right _ (Nat.mul_le_mul_left _ hlt)
    _ = 2 ^ 106 * 10 ^ places * (n * unitsOfOne) := by ring

/-- **Ten times a decimal number is truncated exactly**, though it is rounded twice. -/
theorem nearest_mul_ten_div (hdigits : digits < 10 ^ 15) (hplaces : places ≤ 15) :
    nearest (nearest (digits * unitsOfOne) (10 ^ places) * 10) 1 / unitsOfOne
      = 10 * digits / 10 ^ places := by
  have hbits : digits < 2 ^ 50 := Nat.lt_trans hdigits (by decide)
  have hpower : 10 ^ places ≤ 2 ^ 50 :=
    Nat.le_trans (Nat.pow_le_pow_right (by decide) hplaces) (by decide)
  cases places with
  | zero =>
    -- neither the number nor its tenfold is changed by rounding
    have hfirst := nearest_integer (c := digits) 0 (by omega)
    have hsecond := nearest_integer (c := 5 * digits) 1 (by omega)
    have htenfold : digits * 2 ^ 0 * unitsOfOne * 10 = 5 * digits * 2 ^ 1 * unitsOfOne := by ring
    rw [Nat.pow_zero, Nat.mul_one] at hfirst htenfold
    rw [Nat.pow_zero, hfirst, htenfold, hsecond, Nat.mul_div_cancel _ unitsOfOne_pos, Nat.div_one]
    ring
  | succ places =>
    rw [Nat.pow_succ', Nat.mul_div_mul_left _ _ (by decide : 0 < 10), ← Nat.pow_succ']
    have hten : 0 < 10 ^ places := Nat.pow_pos (by decide)
    refine Nat.div_eq_of_lt_le ?_ ?_
    · have hle : digits / 10 ^ places < 2 ^ 50 := Nat.lt_of_le_of_lt (Nat.div_le_self ..) hbits
      rw [← nearest_tenth_mul_ten hle]
      refine nearest_mono_num Nat.one_pos (Nat.mul_le_mul_right _ ?_)
      refine nearest_mono (by decide) (Nat.pow_pos (by decide)) ?_
      calc digits / 10 ^ places * unitsOfOne * 10 ^ (places + 1)
          = digits / 10 ^ places * 10 ^ places * (unitsOfOne * 10) := by ring
        _ ≤ digits * (unitsOfOne * 10) := Nat.mul_le_mul_right _ (Nat.div_mul_le_self ..)
        _ = digits * unitsOfOne * 10 := by ring
    · refine nearest_mul_ten_lt hbits hpower ?_
      exact Nat.lt_mul_of_div_lt (Nat.lt_succ_self _) hten

theorem mul_ten_lt {x b : Nat} (h : x ≤ 2 ^ b) : x * 10 < 2 ^ (b + 4) := by
  have hpos := Nat.two_pow_pos b
  rw [Nat.pow_add]
  omega

/-- The integer that ten times a decimal number is truncated to. -/
theorem truncate?_scaleBy_ofDecimal (hdigits : digits < 10 ^ 15) (hplaces : places ≤ 15) :
    ((ofDecimal false digits (-(places : Int))).scaleBy 10).truncate?
      = some ((10 * digits / 10 ^ places : Nat) : Int) := by
  have hbits : digits < 2 ^ 50 := Nat.lt_trans hdigits (by decide)
  obtain ⟨m, hm, hunits⟩ := exists_ofDecimal false (b := 50) (by decide) hbits
    (Nat.le_trans hplaces (by decide))
  have hsize : m.units * 10 < 1 * 2 ^ (50 + 1074 + 4) := by
    rw [hunits, Nat.one_mul]
    exact mul_ten_lt (nearest_decimal_le places hbits)
  obtain ⟨m', hm', hunits'⟩ := exists_ofUnitRatio false (by decide) Nat.one_pos hsize
  rw [hm, scaleBy, hm', truncate?, Magnitude.floor, hunits', hunits]
  exact congrArg (fun tag : Nat => some (tag : Int)) (nearest_mul_ten_div hdigits hplaces)

end Binary64

/-! ## The tag -/

open Binary64

namespace Numeral

variable (n : Numeral)

theorem digits_lt {k : Nat} (h : n.digits.length ≤ k) : natOfDigits n.digits < 10 ^ k :=
  Nat.lt_of_lt_of_le (natOfDigits_lt n.isDigit) (Nat.pow_le_pow_right (by decide) h)

/-- Ten times a numeral, truncated, by its digits. -/
theorem tenfold_div : 10 * natOfDigits n.digits / 10 ^ n.fraction.length
    = 10 * natOfDigits n.whole + n.fraction.head?.elim 0 digitValue := by
  rw [digits, natOfDigits_append]
  cases hfraction : n.fraction with
  | nil => simp [natOfDigits]
  | cons d ds =>
    have htail : natOfDigits ds < 10 ^ ds.length := natOfDigits_lt fun c hc =>
      n.isDigit c (List.mem_append_right _ (by
        rw [fraction] at hfraction
        simp [hfraction, hc]))
    have hfront : natOfDigits (d :: ds) = digitValue d * 10 ^ ds.length + natOfDigits ds := by
      rw [← List.singleton_append, natOfDigits_append]
      simp [natOfDigits]
    rw [hfront, List.length_cons, List.head?_cons, Option.elim_some, Nat.pow_succ']
    rw [Nat.mul_div_mul_left _ _ (by decide : 0 < 10)]
    refine Nat.div_eq_of_lt_le ?_ ?_
    · linarith
    · rw [Nat.succ_mul]
      linarith

end Numeral

/-- **The tag of a CUDA version is ten times the version, truncated.**  For a numeral of at most
fifteen digits, with blanks around it or not, these are the digits in front of the point followed by
the first digit behind it. -/
theorem cudaTag_numeral (n : Numeral) {version : String} {before behind : List Char}
    (hversion : version.toList = before ++ n.text ++ behind)
    (hbefore : ∀ c ∈ before, Text.isBlank c = true) (hbehind : ∀ c ∈ behind, Text.isBlank c = true)
    (hlength : n.digits.length ≤ 15) :
    cudaTag version = .ok (10 * Nat.ofDigits 10 (n.whole.map digitValue).reverse
      + n.fraction.head?.elim 0 digitValue : Nat) := by
  have hplaces : n.fraction.length ≤ 15 := by
    rw [Numeral.digits, List.length_append] at hlength
    omega
  have hdigits := n.digits_lt hlength
  have hscaled := truncate?_scaleBy_ofDecimal hdigits hplaces
  have hbound : 10 * natOfDigits n.digits / 10 ^ n.fraction.length < 10 ^ 16 :=
    Nat.lt_of_le_of_lt (Nat.div_le_self ..) (by omega)
  rw [n.tenfold_div] at hscaled hbound
  rw [cudaTag, hversion, n.trim_text hbefore hbehind, n.parse?_text, Option.bind_some, hscaled,
    ← natOfDigits_eq]
  generalize 10 * natOfDigits n.whole + n.fraction.head?.elim 0 digitValue = tag at *
  have hfits : (-(Nat.pow 2 63 : Nat) ≤ (tag : Int) && (tag : Int) < (Nat.pow 2 63 : Nat)) = true := by
    simp only [Bool.and_eq_true, decide_eq_true_eq]
    exact ⟨by omega, by exact_mod_cast Nat.lt_trans hbound (by decide)⟩
  rw [Option.filter_some, if_pos hfits]

/-- A version with two places, an ideographic space in front of it and a line feed behind it. -/
theorem cudaTag_spaced :
    let n : Numeral := ⟨['1', '1'], some ['2', '7'], by simp, by simp⟩
    "\u3000 11.27\n".toList = ['\u3000', ' '] ++ n.text ++ ['\n'] ∧
      n.digits.length ≤ 15 ∧ cudaTag "\u3000 11.27\n" = .ok 112 := by
  intro n
  have hversion : "\u3000 11.27\n".toList = ['\u3000', ' '] ++ n.text ++ ['\n'] := by decide
  exact ⟨hversion, by decide, cudaTag_numeral n hversion (by simp [Text.isBlank])
    (by simp [Text.isBlank]) (by decide)⟩

end JobMatrix
