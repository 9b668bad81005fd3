import JobMatrix.Yaml.Token.Cursor
import Mathlib.Tactic.Common

/-!
# Moving a cursor
-/

set_option autoImplicit false

namespace JobMatrix.Yaml

/-- The letters of ASCII. -/
theorem isAlpha_iff {x : Char} :
    x.isAlpha = true ↔ (65 ≤ x.toNat ∧ x.toNat ≤ 90) ∨ (97 ≤ x.toNat ∧ x.toNat ≤ 122) := by
  have hupper : x.isUpper = true ↔ 65 ≤ x.toNat ∧ x.toNat ≤ 90 := by
    change decide (x.val ≥ 'A'.val ∧ x.val ≤ 'Z'.val) = true ↔ _
    rw [decide_eq_true_iff]
    exact Iff.rfl
  have hlower : x.isLower = true ↔ 97 ≤ x.toNat ∧ x.toNat ≤ 122 := by
    change (decide (x.val ≥ 'a'.val) && decide (x.val ≤ 'z'.val)) = true ↔ _
    rw [Bool.and_eq_true, decide_eq_true_iff, decide_eq_true_iff]
    exact Iff.rfl
  change (x.isUpper || x.isLower) = true ↔ _
  rw [Bool.or_eq_true, hupper, hlower]

namespace Cursor

variable {c : Cursor} {w rest : List Char}

@[simp] theorem advance_rest (n : Nat) (c : Cursor) : (c.advance n).rest = c.rest.drop n := rfl

@[simp] theorem advance_index (n : Nat) (c : Cursor) : (c.advance n).index = c.index + n := rfl

@[simp] theorem advance_line (n : Nat) (c : Cursor) : (c.advance n).line = c.line := rfl

@[simp] theorem advance_column (n : Nat) (c : Cursor) : (c.advance n).column = c.column + n := rfl

@[simp] theorem advance_size (n : Nat) (c : Cursor) : (c.advance n).size = c.size := rfl

@[simp] theorem advance_zero (c : Cursor) : c.advance 0 = c := rfl

theorem advance_advance (m n : Nat) (c : Cursor) : (c.advance m).advance n = c.advance (m + n) := by
  simp only [advance, List.drop_drop, Nat.add_assoc]

/-- Behind a text that the rest starts with is what follows the text. -/
theorem rest_advance (h : c.rest = w ++ rest) : (c.advance w.length).rest = rest := by
  rw [advance_rest, h, List.drop_left]

theorem sees_eq (h : c.rest = w) (p : Char → Bool) : c.sees p = w.head?.any p := by
  rw [sees, h]

theorem at?_eq (h : c.rest = w) (x : Char) : c.at? x = (w.head? == some x) := by
  rw [at?, h]

/-- To skip a run of characters is to move over it. -/
theorem skip_eq {p : Char → Bool} (h : c.rest = w ++ rest) (hw : ∀ x ∈ w, p x = true)
    (hrest : rest.head?.any p = false) : c.skip p = c.advance w.length := by
  have hstop : rest.takeWhile p = [] ∧ rest.dropWhile p = rest := by
    cases rest with
    | nil => exact ⟨rfl, rfl⟩
    | cons x rest =>
      have hx : p x = false := hrest
      exact ⟨by rw [List.takeWhile_cons, hx]; rfl, by rw [List.dropWhile_cons, hx]; rfl⟩
  simp only [skip, span, advance, h, List.takeWhile_append_of_pos hw, hstop.1,
    List.dropWhile_append_of_pos hw, hstop.2, List.append_nil, List.drop_left]

/-! ## Reading on -/

/-- The second cursor is at the place of the first one, or behind it. -/
structure Behind (c d : Cursor) : Prop where
  le : d.rest.length ≤ c.rest.length
  line : c.line ≤ d.line

theorem Behind.refl (c : Cursor) : Behind c c := ⟨Nat.le_refl _, Nat.le_refl _⟩

theorem Behind.trans {d f : Cursor} (h : Behind c d) (h' : Behind d f) : Behind c f :=
  ⟨Nat.le_trans h'.le h.le, Nat.le_trans h.line h'.line⟩

theorem behind_advance (c : Cursor) (n : Nat) : Behind c (c.advance n) := by
  refine ⟨?_, Nat.le_refl _⟩
  rw [advance_rest, List.length_drop]
  exact Nat.sub_le _ _

theorem behind_skip (c : Cursor) (p : Char → Bool) : Behind c (c.skip p) :=
  ⟨(List.dropWhile_suffix p).length_le, Nat.le_refl _⟩

/-- A line break is read. -/
theorem length_rest_nextLine (h : c.sees isBreak = true) :
    c.nextLine.rest.length < c.rest.length := by
  rw [nextLine]
  split
  · rename_i heq
    simp only [heq, List.length_cons]
    omega
  · rename_i heq
    simp only [heq, List.length_cons]
    omega
  · rename_i heq
    rw [sees_eq heq] at h
    cases h

/-- At a line break the next line is further on. -/
theorem behind_nextLine (h : c.sees isBreak = true) : Behind c c.nextLine := by
  refine ⟨Nat.le_of_lt (length_rest_nextLine h), ?_⟩
  rw [nextLine]
  split
  · exact Nat.le_succ _
  · exact Nat.le_succ _
  · exact Nat.le_refl _

theorem behind_skipBreak (c : Cursor) : Behind c c.skipBreak := by
  rw [skipBreak]
  split
  · exact behind_nextLine ‹_›
  · exact .refl c

theorem behind_skipTrailer (c : Cursor) : Behind c c.skipTrailer := by
  rw [skipTrailer]
  split
  · exact (behind_skip c _).trans (behind_skip _ _)
  · exact behind_skip c _

end Cursor

end JobMatrix.Yaml
