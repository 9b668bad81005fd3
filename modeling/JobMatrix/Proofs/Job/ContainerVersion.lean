import JobMatrix.Job.Image
import JobMatrix.Proofs.Binary64.Shortest

/-!
# Tags of container versions

The tag of a version is a numeral with a fraction: the whole part and `.0`, or the shortest decimal
that reads back, which has places because the version is no integer (`exists_numeral_tag`).  Hence a
tag tells its version, to the last bit (`ofText_tag`, `tag_round_trip`).

Tags are plain decimals, all but one: the zero with a sign is a version too, and shows its sign.  It is
the same number as the other zero, so versions that are the same number have the same tag unless
exactly one of them is this zero (`tag_is_plain_decimal`).
-/

set_option autoImplicit false

namespace JobMatrix

namespace ContainerVersion

open Binary64

/-! ## The numbers that are versions -/

theorem ext {v w : ContainerVersion} (h : v.value = w.value) : v = w := by
  cases v
  cases w
  cases h
  rfl

/-- Versions are finite, and only zero may be negative. -/
theorem exists_finite (v : ContainerVersion) : ∃ negative m, v.value = .finite negative m ∧
    (negative = true → m = .zero) := by
  obtain ⟨x, hx⟩ := v
  cases x with
  | infinite negative => cases hx
  | nan => cases hx
  | finite negative m =>
    refine ⟨negative, m, rfl, ?_⟩
    rintro rfl
    refine Magnitude.eq_zero_of_mantissa ?_
    simpa [admits, isZero] using hx

theorem ofNumber_eq_ok_iff {x : Binary64} {v : ContainerVersion} :
    ofNumber x = .ok v ↔ v.value = x := by
  rw [ofNumber]
  constructor
  · intro h
    split at h
    · cases h
      rfl
    · cases h
  · rintro rfl
    exact dif_pos v.admitted

/-! ## The numeral of a tag -/

/-- A numeral is the tag of a number, apart from the sign. -/
structure IsTagOf (n : Numeral) (negative : Bool) (m : Magnitude) : Prop where
  fraction_ne_nil : n.fraction ≠ []
  tagOf_eq : tagOf (.finite negative m) = signed negative n.text
  /-- The numeral is read back as the number. -/
  attracts : m.AttractsDecimal (natOfDigits n.digits) (-(n.fraction.length : Int))

/-- A whole number is attracted by its digits with a zero behind the point. -/
theorem attractsDecimal_floor {m : Magnitude} (hwhole : m.isWhole = true) :
    m.AttractsDecimal (natOfDigits (digitsOf m.floor ++ ['0'])) (-1) := by
  have hunits : m.floor * unitsOfOne = m.units := by
    rw [Magnitude.floor, pow_unitsOfOne]
    exact Nat.div_mul_cancel (Magnitude.isWhole_iff.1 hwhole)
  have hdigits : natOfDigits (digitsOf m.floor ++ ['0']) = m.floor * 10 := by
    rw [natOfDigits_append, natOfDigits_digitsOf]
    rfl
  have hself : m.Attracts (m.units * 10) 10 := m.attracts_self (by decide)
  rw [← hunits, Nat.mul_right_comm] at hself
  rw [hdigits, Magnitude.AttractsDecimal]
  simpa using hself

theorem exists_isTagOf_whole (negative : Bool) {m : Magnitude} (hwhole : m.isWhole = true) :
    ∃ n, IsTagOf n negative m := by
  refine ⟨{ whole := digitsOf m.floor, fraction? := some ['0'],
            whole_ne_nil := Nat.toDigits_ne_nil, isDigit := ?_ }, ?_, ?_, ?_⟩
  · simp only [Option.getD_some, List.mem_append, List.mem_singleton]
    rintro c (hc | rfl)
    · exact isDigit_of_mem_digitsOf hc
    · rfl
  · exact List.cons_ne_nil _ _
  · rw [tagOf, if_pos hwhole, ← String.toList_inj, signed]
    cases negative <;> simp [Numeral.text, digitsOf]
  · exact attractsDecimal_floor hwhole

/-- The shortest decimal of a fraction has places, which is why it is written as a numeral. -/
theorem exists_isTagOf_fraction (negative : Bool) {m : Magnitude} (hwhole : ¬m.isWhole = true) :
    ∃ n, IsTagOf n negative m := by
  have hexponent : (m.shortest .up).exponent < 0 := by
    by_contra hnonneg
    exact hwhole ((m.attractsDecimal_shortest .up).isWhole (Int.not_lt.1 hnonneg))
  obtain ⟨n, htext, hdigits, hplaces⟩ := (m.shortest .up).exists_numeral hexponent
  refine ⟨n, ?_, ?_, ?_⟩
  · intro hnil
    rw [hnil] at hplaces
    simp at hplaces
    omega
  · rw [tagOf, if_neg hwhole, positional, htext]
  · rw [hdigits, hplaces]
    exact m.attractsDecimal_shortest .up

/-- The tag of a finite number is a numeral with a fraction that is read back as it. -/
theorem exists_isTagOf (negative : Bool) (m : Magnitude) : ∃ n, IsTagOf n negative m :=
  if hwhole : m.isWhole = true then exists_isTagOf_whole negative hwhole
  else exists_isTagOf_fraction negative hwhole

theorem parse?_signed (negative : Bool) (n : Numeral) :
    parse? (signed negative n.text).toList = parseUnsigned? negative n.text := by
  rw [signed, String.toList_ofList]
  cases negative with
  | true => rfl
  | false =>
    obtain ⟨x, xs, htext, hx⟩ := n.exists_text_eq_cons
    rw [if_neg Bool.false_ne_true, htext, parse?_of_isDigit hx]

theorem trim_signed (negative : Bool) (n : Numeral) :
    Text.trim (signed negative n.text).toList = (signed negative n.text).toList := by
  refine Text.trim_eq_self ?_
  rw [signed, String.toList_ofList]
  cases negative with
  | true => exact List.forall_mem_cons.2 ⟨rfl, fun _ => n.isBlank_of_mem⟩
  | false => exact fun _ => n.isBlank_of_mem

/-- **The tag of a version** is a numeral with a fraction, behind a sign if the version is negative. -/
theorem exists_numeral_tag (v : ContainerVersion) : ∃ n : Numeral, n.fraction ≠ [] ∧
    v.tag = signed v.value.isNegative n.text ∧
      parseUnsigned? v.value.isNegative n.text = some v.value := by
  obtain ⟨negative, m, hv, -⟩ := v.exists_finite
  obtain ⟨n, hfraction, htag, hattracts⟩ := exists_isTagOf negative m
  refine ⟨n, hfraction, ?_, ?_⟩
  · rw [tag, hv, htag, isNegative]
  · rw [hv, isNegative, n.parseUnsigned?_text, hattracts.ofDecimal_eq]

/-! ## Reading tags -/

/-- **A version is read back from its tag.** -/
theorem ofText_tag (v : ContainerVersion) : ofText v.tag = .ok v := by
  obtain ⟨n, -, htag, hparse⟩ := v.exists_numeral_tag
  rw [ofText, htag, trim_signed, parse?_signed, hparse]
  exact ofNumber_eq_ok_iff.2 rfl

theorem tag_injective : Function.Injective tag := fun v w h => by
  have hread := v.ofText_tag
  rw [h, w.ofText_tag] at hread
  exact (Except.ok.inj hread).symm

/-- **Tags and versions go one to one.** -/
theorem tag_round_trip :
    (∀ word < 2 ^ 64, ∀ v, ofNumber (.ofBits word) = .ok v →
      ∃ w, ofText v.tag = .ok w ∧ w.value.toBits = word) ∧
    (∀ v w : ContainerVersion, v.value.toBits ≠ w.value.toBits → v.tag ≠ w.tag) ∧
    Function.Injective tag := by
  refine ⟨fun word hword v hv => ⟨v, v.ofText_tag, ?_⟩, fun v w hbits htag => ?_, tag_injective⟩
  · have hvalue := ofNumber_eq_ok_iff.1 hv
    obtain ⟨negative, m, hfinite, -⟩ := v.exists_finite
    rw [hvalue]
    refine toBits_ofBits hword ?_
    rw [← hvalue, hfinite, isFinite]
  · exact hbits (congrArg (fun u : ContainerVersion => u.value.toBits) (tag_injective htag))

/-- A version and the next number above it, which is another version with another tag. -/
theorem tag_round_trip_neighbours :
    ∃ v w : ContainerVersion, ofNumber (.ofBits 0x400999999999999A) = .ok v ∧
      ofNumber (.ofBits 0x400999999999999B) = .ok w ∧
      (∃ u, ofText v.tag = .ok u ∧ u.value.toBits = 0x400999999999999A) ∧ v.tag ≠ w.tag := by
  let v : ContainerVersion := ⟨.ofBits 0x400999999999999A, by decide +kernel⟩
  let w : ContainerVersion := ⟨.ofBits 0x400999999999999B, by decide +kernel⟩
  have hv : ofNumber (.ofBits 0x400999999999999A) = .ok v := ofNumber_eq_ok_iff.2 rfl
  have hw : ofNumber (.ofBits 0x400999999999999B) = .ok w := ofNumber_eq_ok_iff.2 rfl
  exact ⟨v, w, hv, hw, tag_round_trip.1 _ (by decide) v hv,
    tag_round_trip.2.1 v w (by decide +kernel)⟩

/-! ## Plain decimal notation -/

/-- One or more digits, a point, and one or more digits. -/
def IsPlainDecimal (cs : List Char) : Prop :=
  ∃ whole fraction : List Char, whole ≠ [] ∧ fraction ≠ [] ∧
    (∀ c ∈ whole ++ fraction, c.isDigit = true) ∧ cs = whole ++ '.' :: fraction

theorem isPlainDecimal_text {n : Numeral} (h : n.fraction ≠ []) : IsPlainDecimal n.text := by
  refine ⟨n.whole, n.fraction, n.whole_ne_nil, h, n.isDigit, ?_⟩
  rw [Numeral.fraction] at h
  rw [Numeral.text, Numeral.fraction]
  cases hfraction : n.fraction? with
  | none => exact absurd (by rw [hfraction]; rfl) h
  | some ds => rfl

/-- The zero with a sign. -/
def negativeZero : ContainerVersion where
  value := .finite true .zero
  admitted := by decide +kernel

theorem tag_negativeZero : negativeZero.tag = "-0.0" := by decide +kernel

theorem not_isPlainDecimal_negativeZero : ¬IsPlainDecimal negativeZero.tag.toList := by
  rintro ⟨whole, fraction, hne, -, hdigits, htag⟩
  have htext : negativeZero.tag.toList = ['-', '0', '.', '0'] := by
    rw [tag_negativeZero]
    rfl
  obtain ⟨c, cs, rfl⟩ := List.exists_cons_of_ne_nil hne
  rw [htext, List.cons_append] at htag
  have hsign : '-'.isDigit = true := by
    rw [(List.cons.inj htag).1]
    exact hdigits c List.mem_cons_self
  exact absurd hsign (by decide)

theorem isNegative_iff {v : ContainerVersion} : v.value.isNegative = true ↔ v = negativeZero := by
  constructor
  · intro h
    obtain ⟨negative, m, hv, hzero⟩ := v.exists_finite
    rw [hv] at h
    obtain rfl : negative = true := h
    exact ext (hv.trans (congrArg _ (hzero rfl)))
  · rintro rfl
    rfl

/-- Versions are the same number only if they are equal, or both are zero. -/
theorem eq_of_sameNumber {v w : ContainerVersion} (h : v.value.sameNumber w.value = true)
    (hzero : v = negativeZero ↔ w = negativeZero) : v = w := by
  rw [sameNumber, Bool.or_eq_true, Bool.and_eq_true, beq_iff_eq] at h
  rcases h with ⟨hv, hw⟩ | hvalue
  · rw [← isNegative_iff, ← isNegative_iff, ← Bool.eq_iff_iff] at hzero
    exact ext (eq_of_isZero hv hw hzero)
  · exact ext hvalue

/-- **Tags are plain decimals**, all but that of the negative zero.  Versions that are the same number
have the same tag, and so give the same images, unless exactly one of them is the negative zero. -/
theorem tag_is_plain_decimal (v : ContainerVersion) :
    (IsPlainDecimal v.tag.toList ↔ v ≠ negativeZero) ∧ (v = negativeZero → v.tag = "-0.0") ∧
    ∀ w : ContainerVersion, v.value.sameNumber w.value = true →
      ((v.tag = w.tag ∧ ∀ r : Record, r.image v = r.image w) ↔
        (v = negativeZero ↔ w = negativeZero)) := by
  refine ⟨⟨?_, fun hv => ?_⟩, ?_, fun w hsame => ⟨fun ⟨htag, _⟩ => ?_, fun hzero => ?_⟩⟩
  · rintro hplain rfl
    exact not_isPlainDecimal_negativeZero hplain
  · obtain ⟨n, hfraction, htag, -⟩ := v.exists_numeral_tag
    have hsign : v.value.isNegative = false := by
      rw [← Bool.not_eq_true]
      exact fun h => hv (isNegative_iff.1 h)
    rw [htag, hsign, signed, String.toList_ofList]
    exact isPlainDecimal_text hfraction
  · rintro rfl
    exact tag_negativeZero
  · rw [tag_injective htag]
  · rw [eq_of_sameNumber hsame hzero]
    exact ⟨rfl, fun _ => rfl⟩

/-- Two spellings of one number. -/
theorem tag_is_plain_decimal_spelled :
    ∃ v w : ContainerVersion, ofText "3.20" = .ok v ∧ ofText " 32e-1" = .ok w ∧
      v ≠ negativeZero ∧ w ≠ negativeZero ∧ v.value.sameNumber w.value = true ∧
      IsPlainDecimal v.tag.toList ∧ v.tag = w.tag := by
  let v : ContainerVersion := ⟨.ofBits 0x400999999999999A, by decide +kernel⟩
  have hv : ofText "3.20" = .ok v := by decide +kernel
  have hw : ofText " 32e-1" = .ok v := by decide +kernel
  have hne : v ≠ negativeZero := by decide +kernel
  have hsame : v.value.sameNumber v.value = true := by decide +kernel
  obtain ⟨hplain, -, hequal⟩ := tag_is_plain_decimal v
  exact ⟨v, v, hv, hw, hne, hne, hsame, hplain.2 hne, ((hequal v hsame).2 Iff.rfl).1⟩

/-- **The negative zero is a version with a sign in its tag**, and the same number as the other zero,
which has none. -/
theorem tag_of_negativeZero :
    ∃ v w : ContainerVersion, ofText "-0" = .ok v ∧ ofText "0" = .ok w ∧
      v.value.sameNumber w.value = true ∧ ¬IsPlainDecimal v.tag.toList ∧ v.tag ≠ w.tag := by
  let zero : ContainerVersion := ⟨.finite false .zero, by decide +kernel⟩
  exact ⟨negativeZero, zero, by decide +kernel, by decide +kernel, by decide +kernel,
    not_isPlainDecimal_negativeZero, by decide +kernel⟩

end ContainerVersion

end JobMatrix
