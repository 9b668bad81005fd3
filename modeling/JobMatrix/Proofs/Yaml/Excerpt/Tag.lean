import JobMatrix.Proofs.Log
import JobMatrix.Proofs.Yaml.Excerpt.Scalar
import JobMatrix.Yaml.Token.Tag

/-!
# Tags and anchors of an excerpt

The readers of tags and anchors never come to the end of the text, because it ends with a line
break and they stay on one line.
-/

set_option autoImplicit false

namespace JobMatrix.Yaml.Cursor

namespace Inside

variable {e : Excerpt} {b c c' : Cursor}

/-! ## Octets -/

/-- The escape of an octet has three characters, and what follows them does not matter. -/
theorem escapedOctet?_spec (after : List Char) {cs : List Char} {octet : Nat}
    (h : escapedOctet? cs = some octet) : escapedOctet? (cs ++ after) = some octet ∧
      ∃ w r, cs = w ++ r ∧ w.length = 3 ∧ ∀ x ∈ w, isBreak x = false := by
  unfold escapedOctet? at h
  split at h
  · rename_i a b r
    obtain ⟨-, w, r', hsplit, hlength, hw⟩ := hexNumber?_spec [] h
    have hall : w = [a, b] := by
      have htake := congrArg (List.take 2) hsplit
      rw [List.take_append_of_le_length (Nat.le_of_eq hlength.symm),
        List.take_of_length_le (Nat.le_of_eq hlength)] at htake
      exact htake.symm
    subst hall
    refine ⟨h, ['%', a, b], r, rfl, rfl, fun x hx => ?_⟩
    rcases List.mem_cons.1 hx with rfl | hx
    · rfl
    · exact hw x hx
  · cases h

/-- Over the escape of an octet. -/
theorem advance_octet {octet : Nat} (h : Inside e c c') (hoctet : escapedOctet? c.rest = some octet) :
    escapedOctet? c'.rest = some octet ∧
      Amid e (c.advance 1) (c.advance 3) (c'.advance 3) := by
  obtain ⟨happend, w, r, hsplit, hlength, hw⟩ := escapedOctet?_spec e.after hoctet
  have hd := h.advance hsplit hw
  rw [hlength] at hd
  rw [h.rest]
  have hbehind := behind_advance (c.advance 1) 2
  rw [advance_advance] at hbehind
  exact ⟨happend, ⟨hd, hbehind⟩, Nat.succ_ne_zero _⟩

/-- The octets behind the first one of an encoded character. -/
theorem readTrailingOctets :
    ∀ {n : Nat} {c c' : Cursor}, Amid e b c c' →
      Agrees (Alike (Amid e b)) (c.readTrailingOctets n) (c'.readTrailingOctets n)
  | 0, c, c', h => .ok ⟨rfl, h⟩
  | n + 1, c, c', h => by
    rw [Cursor.readTrailingOctets, Cursor.readTrailingOctets]
    cases hoctet : escapedOctet? c.rest with
    | none => exact .error
    | some octet =>
      obtain ⟨hoctet', hd⟩ := h.toInside.advance_octet hoctet
      rw [hoctet']
      dsimp only
      split
      · exact .error
      · have hbehind := h.behind.trans (behind_advance c 1)
        refine (readTrailingOctets (hd.mono hbehind)).bind ?_
        rintro ⟨_, d⟩ ⟨octets, d'⟩ ⟨rfl, hd⟩
        exact .ok ⟨rfl, hd⟩

theorem readEscapedOctets (h : Inside e c c') :
    Agrees (Alike (Amid e (c.advance 1))) c.readEscapedOctets c'.readEscapedOctets := by
  rw [Cursor.readEscapedOctets, Cursor.readEscapedOctets]
  cases hoctet : escapedOctet? c.rest with
  | none => exact .error
  | some octet =>
    obtain ⟨hoctet', hd⟩ := h.advance_octet hoctet
    rw [hoctet']
    dsimp only
    cases octetCount? octet with
    | none => exact .error
    | some count =>
      refine (readTrailingOctets hd).bind ?_
      rintro ⟨_, d⟩ ⟨octets, d'⟩ ⟨rfl, hd⟩
      exact .ok ⟨rfl, hd⟩

/-- No character of a tag ends a line. -/
theorem isBreak_of_isTagChar {verbatim : Bool} {x : Char} (h : isTagChar verbatim x = true) :
    isBreak x = false := by
  cases hx : isBreak x with
  | false => rfl
  | true =>
    simp only [isBreak, Bool.or_eq_true, beq_iff_eq] at hx
    cases verbatim <;> obtain (((rfl | rfl) | rfl) | rfl) | rfl := hx <;> cases h

theorem readTagOctets (verbatim : Bool) :
    ∀ {n n' : Nat} {octets : List UInt8} {b c c' : Cursor}, Amid e b c c' → c.rest.length < n →
      c'.rest.length < n' → Agrees (Alike (Amid e b)) (c.readTagOctets verbatim n octets)
        (c'.readTagOctets verbatim n' octets)
  | n + 1, n' + 1, octets, b, c, c', h, hn, hn' => by
    obtain ⟨x, r, hrest⟩ := List.exists_cons_of_ne_nil (h.rest_ne_nil h.column_ne)
    -- The loop goes on from a place behind.
    have hnext : ∀ {d d' : Cursor} (octets : List UInt8), Amid e (c.advance 1) d d' →
        Agrees (Alike (Amid e b)) (d.readTagOctets verbatim n octets)
          (d'.readTagOctets verbatim n' octets) := by
      intro d d' octets hd
      have hlt : d.rest.length < c.rest.length :=
        Nat.lt_of_le_of_lt hd.behind.le (length_advance_one hrest)
      exact readTagOctets verbatim (hd.mono (h.behind.trans (behind_advance c 1)))
        (Nat.lt_of_lt_of_le hlt (Nat.le_of_lt_succ hn)) (h.shrink hd.toInside hlt hn')
    rw [Cursor.readTagOctets, Cursor.readTagOctets, hrest, h.rest_cons hrest]
    dsimp only
    refine .ite rfl (fun _ => .ok ⟨rfl, h⟩) fun htag => .ite rfl (fun _ => ?_) fun _ => ?_
    · refine h.readEscapedOctets.bind ?_
      rintro ⟨_, d⟩ ⟨more, d'⟩ ⟨rfl, hd⟩
      exact hnext _ hd
    · have hx : isBreak x = false := isBreak_of_isTagChar (by simpa using htag)
      exact hnext _ (h.amid_one hrest hx)

/-! ## Tags -/

theorem readTagSuffix (verbatim : Bool) (head : List Char) (h : Amid e b c c') :
    Agrees (Alike (Amid e b)) (c.readTagSuffix verbatim head) (c'.readTagSuffix verbatim head) := by
  refine (readTagOctets verbatim h h.room_lt h.room_lt').bind ?_
  rintro ⟨_, d⟩ ⟨octets, d'⟩ ⟨rfl, hd⟩
  exact .ite rfl (fun _ => .error) fun _ => .ok ⟨rfl, hd⟩

theorem isWordChar_of_isBreak {x : Char} (h : isBreak x = true) : isWordChar x = false := by
  simp only [isBreak, Bool.or_eq_true, beq_iff_eq] at h
  obtain (((rfl | rfl) | rfl) | rfl) | rfl := h <;> rfl

/-- Over a word. -/
theorem advance_word (h : Amid e b c c') :
    c'.span isWordChar = c.span isWordChar ∧
      Amid e b (c.advance (c.span isWordChar).length) (c'.advance (c.span isWordChar).length) :=
  ⟨h.span (fun _ => isWordChar_of_isBreak) (.inl rfl),
    ⟨h.advance_take _ (Nat.le_refl _) fun _ => isWordChar_of_isBreak,
      h.behind.trans (behind_advance c _)⟩,
    fun hzero => h.column_ne (Nat.eq_zero_of_add_eq_zero_right hzero)⟩

/-- Over an exclamation mark and a word, and over a second mark if there is one. -/
theorem readTagHandle {x : Char} {r : List Char} (h : Inside e c c') (hrest : c.rest = x :: r)
    (hx : isBreak x = false) :
    Agrees (Alike (Amid e (c.advance 1))) c.readTagHandle c'.readTagHandle := by
  obtain ⟨hword, hd⟩ := advance_word (h.amid_one hrest hx)
  rw [Cursor.readTagHandle, Cursor.readTagHandle, h.at? (by decide)]
  refine .ite rfl (fun _ => .error) fun _ => ?_
  dsimp only
  rw [hword]
  refine .ite (hd.at? (by decide)) (fun hat => ?_) fun _ => .ok ⟨rfl, hd⟩
  exact .ok ⟨rfl, hd.amid_at hat rfl⟩

/-- A tag in any of its forms.  That it ends in front of a blank is decided within the text, which has
a line break behind the tag. -/
theorem readTag {x : Char} {r : List Char} (flow : Bool) (h : Inside e c c')
    (hrest : c.rest = x :: r) (hx : isBreak x = false) :
    Agrees (Alike (Amid e (c.advance 1))) (c.readTag flow) (c'.readTag flow) := by
  obtain ⟨y, r, rfl⟩ := List.exists_cons_of_ne_nil (h.tail_ne hrest hx)
  have hsecond : c'.rest[1]? = c.rest[1]? := by
    rw [hrest, h.rest_cons hrest]
    rfl
  -- Behind a tag is a blank.
  have hfinish : ∀ {token : Token} {d d' : Cursor}, Amid e (c.advance 1) d d' →
      Agrees (Alike (Amid e (c.advance 1)))
        (if (flow && d.at? ',') || endsWord d.rest then .ok (token, d)
          else d.fail "did not find expected whitespace or line break")
        (if (flow && d'.at? ',') || endsWord d'.rest then .ok (token, d')
          else d'.fail "did not find expected whitespace or line break") := by
    intro token d d' hd
    rw [hd.at? (by decide), hd.endsWord_rest (hd.rest_ne_nil hd.column_ne)]
    exact .ite rfl (fun _ => .ok ⟨rfl, hd⟩) fun _ => .error
  rw [Cursor.readTag, Cursor.readTag, hsecond]
  refine .ite rfl (fun hverbatim => ?_) fun _ => ?_
  · have hy : y = '<' := by
      rw [hrest] at hverbatim
      exact Option.some.inj (eq_of_beq hverbatim)
    have hone := h.amid_one hrest hx
    have htwo := hone.amid_at (x := '<') (by rw [Cursor.at?, advance_rest, hrest, hy]; rfl)
      rfl
    rw [advance_advance, advance_advance] at htwo
    refine (readTagSuffix true [] htwo).bind ?_
    rintro ⟨_, d⟩ ⟨suffix, d'⟩ ⟨rfl, hd⟩
    have hamid : Amid e (c.advance 1) d d' := hd
    refine .ite (by rw [hamid.at? (by decide)]) (fun _ => .error) fun hat => ?_
    exact hfinish (hamid.amid_at (by simpa using hat) rfl)
  · refine (readTagHandle h hrest hx).bind ?_
    rintro ⟨_, d⟩ ⟨handle, d'⟩ ⟨rfl, hd⟩
    refine .ite rfl (fun _ => ?_) fun _ => ?_
    · refine (readTagSuffix false [] hd).bind ?_
      rintro ⟨_, f⟩ ⟨suffix, f'⟩ ⟨rfl, hf⟩
      exact hfinish hf
    · refine (readTagSuffix false handle hd).bind ?_
      rintro ⟨_, f⟩ ⟨suffix, f'⟩ ⟨rfl, hf⟩
      exact .ite rfl (fun _ => hfinish hf) fun _ => hfinish hf

theorem readAnchor {x : Char} {r : List Char} (h : Inside e c c') (hrest : c.rest = x :: r)
    (hx : isBreak x = false) :
    Agrees (Alike (Amid e (c.advance 1))) c.readAnchor c'.readAnchor := by
  obtain ⟨hword, hd⟩ := advance_word (h.amid_one hrest hx)
  rw [Cursor.readAnchor, Cursor.readAnchor, hword,
    hd.endsWord_rest (hd.rest_ne_nil hd.column_ne), hd.sees rfl]
  exact .ite rfl (fun _ => .ok ⟨rfl, hd⟩) fun _ => .error

end Inside

/-! ## Tokens -/

/-- What is read as a tag is one, in whatever form it is written. -/
theorem readTag_eq {flow : Bool} {c d : Cursor} {token : Token}
    (h : c.readTag flow = .ok (token, d)) :
    ∃ handle suffix, token = .tag handle suffix := by
  have hfinish : ∀ {handle : String} {suffix : List UInt8} {next : Cursor},
      (if (flow && next.at? ',') || endsWord next.rest then .ok (.tag handle suffix, next)
        else next.fail "did not find expected whitespace or line break")
        = (.ok (token, d) : Except SyntaxError _) → ∃ handle suffix, token = .tag handle suffix := by
    intro handle suffix next h
    split at h
    · cases h
      exact ⟨handle, suffix, rfl⟩
    · cases h
  rw [readTag] at h
  split at h
  · obtain ⟨⟨suffix, next⟩, -, h⟩ := bind_eq_ok_iff.1 h
    dsimp only at h
    split at h
    · cases h
    · exact hfinish h
  · obtain ⟨⟨handle, next⟩, -, h⟩ := bind_eq_ok_iff.1 h
    dsimp only at h
    split at h
    · obtain ⟨⟨suffix, next⟩, -, h⟩ := bind_eq_ok_iff.1 h
      exact hfinish h
    · obtain ⟨⟨suffix, next⟩, -, h⟩ := bind_eq_ok_iff.1 h
      dsimp only at h
      split at h
      · exact hfinish h
      · exact hfinish h

theorem readName_eq {make : String → Token} {c d : Cursor} {token : Token}
    (h : (do
      let (name, c) ← c.readAnchor
      .ok (make name, c)) = (.ok (token, d) : Except SyntaxError _)) : ∃ name, token = make name := by
  obtain ⟨⟨name, next⟩, -, h⟩ := bind_eq_ok_iff.1 h
  cases h
  exact ⟨name, rfl⟩

end JobMatrix.Yaml.Cursor
