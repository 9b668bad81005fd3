import JobMatrix.Proofs.Gitlab.Scalar
import JobMatrix.Proofs.Text.Hex

/-!
# Quoted texts

`quote` writes a text so that a reader finds its end without knowing what follows, and reads the
text back (`quote_self_delimiting`).  What it writes stays on one line, and holds only characters
that a stream may contain raw (`isVisible_of_mem_quote`).
-/

set_option autoImplicit false

namespace JobMatrix.Gitlab

open Yaml

/-- A character that a stream may contain raw, and that breaks no line. -/
structure IsVisible (c : Char) : Prop where
  raw : c = '\t' ∨ (0x20 ≤ c.toNat ∧ c.toNat ≤ 0x7E) ∨ (0xA0 ≤ c.toNat ∧ c.toNat ≤ 0xD7FF) ∨
    (0xE000 ≤ c.toNat ∧ c.toNat ≤ 0xFFFD ∧ c.toNat ≠ 0xFEFF) ∨ 0x10000 ≤ c.toNat
  unbroken : c ∉ ['\n', '\r', '\u0085', '\u2028', '\u2029']

/-- The printable characters of ASCII. -/
theorem isVisible_ascii {c : Char} (hlow : 0x20 ≤ c.toNat) (hhigh : c.toNat ≤ 0x7E) :
    IsVisible c where
  raw := .inr (.inl ⟨hlow, hhigh⟩)
  unbroken := by
    intro hc
    have hout : ∀ x ∈ ['\n', '\r', '\u0085', '\u2028', '\u2029'],
        x.toNat < 0x20 ∨ 0x7E < x.toNat := by simp
    have := hout c hc
    omega

theorem IsRaw.isVisible {c : Char} (h : IsRaw c) : IsVisible c where
  raw := by
    obtain ⟨hlow, hmiddle, hunsafe⟩ := h.toNat
    simp only [List.mem_cons, List.not_mem_nil, or_false, not_or] at hunsafe
    have hvalid : c.toNat < 0xD800 ∨ 0xDFFF < c.toNat ∧ c.toNat < 0x110000 := c.valid
    omega
  unbroken := by
    intro hc
    have hbreaks : ∀ x ∈ ['\n', '\r', '\u0085', '\u2028', '\u2029'], Yaml.isBreak x = true := by
      simp [Yaml.isBreak]
    have hbreak := hbreaks c hc
    rw [h.isBreak] at hbreak
    cases hbreak

/-- The characters of an escape: a backslash, a letter and maybe digits. -/
theorem isVisible_of_mem_escape (letter : Char) {digits : List Char} {x : Char}
    (hletter : 0x20 ≤ letter.toNat ∧ letter.toNat ≤ 0x7E)
    (hdigits : ∀ d ∈ digits, d ∈ Text.upperHexDigits) (hx : x ∈ '\\' :: letter :: digits) :
    IsVisible x := by
  have hascii : ∀ d ∈ Text.upperHexDigits, 0x20 ≤ d.toNat ∧ d.toNat ≤ 0x7E := by
    simp [Text.upperHexDigits]
  rcases List.mem_cons.1 hx with rfl | hx
  · exact isVisible_ascii (by decide) (by decide)
  rcases List.mem_cons.1 hx with rfl | hx
  · exact isVisible_ascii hletter.1 hletter.2
  · have hdigit := hascii x (hdigits x hx)
    exact isVisible_ascii hdigit.1 hdigit.2

theorem isVisible_of_mem_escaped {c x : Char} (hx : x ∈ escaped c) : IsVisible x := by
  rw [escaped] at hx
  split_ifs at hx with hquote hbackslash hline htab hreturn hcontrol hunsafe
  · exact isVisible_of_mem_escape '"' (by decide) (by simp) hx
  · exact isVisible_of_mem_escape '\\' (by decide) (by simp) hx
  · exact isVisible_of_mem_escape 'n' (by decide) (by simp) hx
  · exact isVisible_of_mem_escape 't' (by decide) (by simp) hx
  · exact isVisible_of_mem_escape 'r' (by decide) (by simp) hx
  · exact isVisible_of_mem_escape 'x' (by decide) (fun _ => Text.mem_upperHexDigits) hx
  · exact isVisible_of_mem_escape 'u' (by decide) (fun _ => Text.mem_upperHexDigits) hx
  · rw [List.mem_singleton.1 hx]
    exact IsRaw.isVisible
      ⟨hquote, hbackslash, Bool.eq_false_iff.2 hcontrol, Bool.eq_false_iff.2 hunsafe⟩

/-- **Whatever is quoted, no character of it is special to a stream**, and there is no line break. -/
theorem isVisible_of_mem_quote {s : String} {x : Char} (hx : x ∈ (quote s).toList) :
    IsVisible x := by
  rw [quote, String.toList_ofList, List.mem_append, List.mem_cons, List.mem_flatMap,
    List.mem_singleton] at hx
  obtain (rfl | ⟨c, -, hx⟩) | rfl := hx
  · exact isVisible_ascii (by decide) (by decide)
  · exact isVisible_of_mem_escaped hx
  · exact isVisible_ascii (by decide) (by decide)

/-- **Quoting is self-delimiting.**  Wherever a quoted text stands and whatever follows it, it is read
as the text, up to its end; and it is written with visible characters. -/
theorem quote_self_delimiting (s : String) (rest : List Char) (index line column before : Nat) :
    let size := before + ((quote s).toList ++ rest).length
    let length := (quote s).length
    Cursor.readQuoted ⟨(quote s).toList ++ rest, index, line, column, size⟩ true
        = .ok (s, ⟨rest, index + length, line, column + length, size⟩) ∧
      ∀ x ∈ (quote s).toList, IsVisible x := by
  refine ⟨?_, fun x => isVisible_of_mem_quote⟩
  rw [Cursor.readQuoted_quote (Nat.le_add_left _ _) rfl, Cursor.advance, ← String.length_toList]
  simp

end JobMatrix.Gitlab
