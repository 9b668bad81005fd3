import JobMatrix.Text.Hex
import Mathlib.Tactic.Common

/-!
# The characters of hexadecimal numbers
-/

set_option autoImplicit false

namespace JobMatrix.Text

/-- The digits and the first six capital letters. -/
def upperHexDigits : List Char :=
  ['0', '1', '2', '3', '4', '5', '6', '7', '8', '9', 'A', 'B', 'C', 'D', 'E', 'F']

theorem toUpper_digitChar : ∀ d < 16, (Nat.digitChar d).toUpper ∈ upperHexDigits := by decide

theorem toUpper_mem_of_mem_hexDigits {n : Nat} {c : Char} (h : c ∈ hexDigits n) :
    c.toUpper ∈ upperHexDigits := by
  induction n using Nat.strongRecOn with
  | _ n ih =>
    rw [hexDigits, Nat.toDigits_eq_if (by decide)] at h
    split at h
    · rename_i hlt
      rw [List.mem_singleton.1 h]
      exact toUpper_digitChar n hlt
    · rename_i hge
      rcases List.mem_append.1 h with h | h
      · exact ih (n / 16) (by omega) h
      · rw [List.mem_singleton.1 h]
        exact toUpper_digitChar (n % 16) (by omega)

theorem mem_upperHexDigits {width n : Nat} {c : Char} (h : c ∈ upperHex width n) :
    c ∈ upperHexDigits := by
  rw [upperHex, padded] at h
  rcases List.mem_append.1 h with h | h
  · rw [List.eq_of_mem_replicate h]
    decide
  · obtain ⟨d, hd, rfl⟩ := List.mem_map.1 h
    exact toUpper_mem_of_mem_hexDigits hd

end JobMatrix.Text
