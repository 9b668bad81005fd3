import JobMatrix.Proofs.Log
import JobMatrix.Proofs.Text.Bytes
import JobMatrix.Proofs.Text.Hex
import JobMatrix.Proofs.Yaml.Event
import JobMatrix.Yaml.Node

/-!
# Reading a tag that was written

Percent escapes write the octets of a character.  Reading a tag back gives the octets of a text, so a
local tag is read as a local tag that has a name.
-/

set_option autoImplicit false

namespace JobMatrix.Yaml

open String (utf8EncodeChar)

namespace Cursor

variable {c d : Cursor} {x : Char} {cs rest : List Char}

/-! ## Octets -/

/-- An octet is written by two digits. -/
theorem upperHex_octet : ∀ n < 256,
    hexNumber? 2 (Text.upperHex 2 n) 0 = some n ∧ (Text.upperHex 2 n).length = 2 := by
  decide +kernel

/-- The percent escape of an octet. -/
def escapedText (b : UInt8) : List Char := '%' :: Text.upperHex 2 b.toNat

theorem escapedOctet?_escapedText (b : UInt8) (rest : List Char) :
    escapedOctet? (escapedText b ++ rest) = some b.toNat ∧ (escapedText b).length = 3 := by
  obtain ⟨hnumber, hlength⟩ := upperHex_octet b.toNat b.toNat_lt
  obtain ⟨y, z, hyz⟩ := List.length_eq_two.1 hlength
  rw [hyz] at hnumber
  rw [escapedText, hyz]
  exact ⟨hnumber, rfl⟩

theorem trailing_octet (n : Nat) : (UInt8.ofNat (n % 64 + 128)).toNat / 64 = 2 := by
  rw [UInt8.toNat_ofNat', Nat.mod_eq_of_lt (by omega)]
  omega

/-- The octets of a character: the first one tells their number, the others are marked. -/
theorem utf8EncodeChar_octets (x : Char) : ∃ b bs, utf8EncodeChar x = b :: bs ∧
    octetCount? b.toNat = some (bs.length + 1) ∧ (b.toNat = 0 → x.val.toNat = 0) ∧
      ∀ y ∈ bs, y.toNat / 64 = 2 := by
  have hbound : x.val.toNat < 0x110000 := by
    rcases x.valid with h | h
    · exact Nat.lt_trans h (by decide)
    · exact h.2
  unfold utf8EncodeChar
  generalize x.val.toNat = m at *
  dsimp only
  repeat' split
  all_goals
    refine ⟨_, _, rfl, ?_, ?_, ?_⟩
    · simp (disch := omega) only [octetCount?, UInt8.toNat_ofNat', Nat.mod_eq_of_lt]
      repeat' split
      all_goals first | rfl | omega
    · simp (disch := omega) only [UInt8.toNat_ofNat', Nat.mod_eq_of_lt]
      omega
    · simp only [List.mem_cons, List.not_mem_nil, or_false, forall_eq_or_imp, forall_eq,
        trailing_octet, and_self, false_implies, implies_true]

/-- A character without percent escape is one octet. -/
theorem utf8EncodeChar_ascii (hx : x.toNat < 128) : utf8EncodeChar x = [x.toNat.toUInt8] := by
  have hx : x.val.toNat ≤ 127 := Nat.le_of_lt_succ hx
  unfold utf8EncodeChar
  dsimp only
  rw [if_pos hx]
  rfl

/-- The octet zero writes the character zero only, so in front of it stands a text. -/
theorem takeWhile_octets : ∀ cs : List Char, ∃ p : List Char,
    (cs.flatMap utf8EncodeChar).takeWhile (· != 0) = p.flatMap utf8EncodeChar
  | [] => ⟨[], rfl⟩
  | x :: cs => by
    obtain ⟨p, hp⟩ := takeWhile_octets cs
    obtain ⟨b, bs, hx, -, hzero, hbs⟩ := utf8EncodeChar_octets x
    by_cases hb : b = 0
    · refine ⟨[], ?_⟩
      rw [List.flatMap_cons, hx, hb]
      rfl
    · refine ⟨x :: p, ?_⟩
      have hall : ∀ y ∈ utf8EncodeChar x, (y != 0) = true := by
        rw [hx]
        intro y hy
        rw [bne_iff_ne]
        rcases List.mem_cons.1 hy with rfl | hy
        · exact hb
        · rintro rfl
          cases hbs 0 hy
      rw [List.flatMap_cons, List.flatMap_cons, List.takeWhile_append_of_pos hall, hp]

/-! ## Reading octets -/

theorem readTrailingOctets_escaped : ∀ {bs : List UInt8} {c : Cursor},
    (∀ y ∈ bs, y.toNat / 64 = 2) → c.rest = bs.flatMap escapedText ++ rest →
      ∃ d, c.readTrailingOctets bs.length = .ok (bs, d) ∧ d.rest = rest
  | [], c, _, hc => ⟨c, rfl, hc⟩
  | b :: bs, c, hbs, hc => by
    rw [List.flatMap_cons, List.append_assoc] at hc
    obtain ⟨hoctet, hlength⟩ := escapedOctet?_escapedText b (bs.flatMap escapedText ++ rest)
    have hnext : (c.advance 3).rest = bs.flatMap escapedText ++ rest := by
      rw [← hlength]
      exact rest_advance hc
    obtain ⟨d, hread, hd⟩ := readTrailingOctets_escaped
      (fun y hy => hbs y (List.mem_cons_of_mem _ hy)) hnext
    refine ⟨d, ?_, hd⟩
    rw [List.length_cons, readTrailingOctets, hc, hoctet]
    dsimp only
    rw [if_neg (not_not_intro (hbs b List.mem_cons_self)), hread]
    simp [bind, Except.bind]

theorem readEscapedOctets_escaped
    (hc : c.rest = (utf8EncodeChar x).flatMap escapedText ++ rest) :
    ∃ d, c.readEscapedOctets = .ok (utf8EncodeChar x, d) ∧ d.rest = rest := by
  obtain ⟨b, bs, hx, hcount, -, hbs⟩ := utf8EncodeChar_octets x
  rw [hx, List.flatMap_cons, List.append_assoc] at hc
  obtain ⟨hoctet, hlength⟩ := escapedOctet?_escapedText b (bs.flatMap escapedText ++ rest)
  have hnext : (c.advance 3).rest = bs.flatMap escapedText ++ rest := by
    rw [← hlength]
    exact rest_advance hc
  obtain ⟨d, hread, hd⟩ := readTrailingOctets_escaped hbs hnext
  refine ⟨d, ?_, hd⟩
  rw [readEscapedOctets, hc, hoctet]
  dsimp only
  rw [hcount]
  dsimp only
  rw [Nat.add_sub_cancel, hread, hx]
  simp [bind, Except.bind]

/-! ## Reading what was written -/

/-- A character of a tag as it is written. -/
def tagChar (x : Char) : List Char :=
  if Layout.isPlainTagChar x then [x] else (utf8EncodeChar x).flatMap escapedText

theorem tagContent_eq (cs : List Char) : Layout.tagContent cs = cs.flatMap tagChar := by
  refine congrArg cs.flatMap (funext fun x => ?_)
  have hbytes : x.toString.toUTF8.toList = utf8EncodeChar x := by
    rw [Text.toList_toUTF8, Text.bytes_eq, show x.toString.toList = [x] by simp,
      List.flatMap_singleton]
  rw [tagChar, hbytes]
  rfl

theorem ascii_of_isTagChar {verbatim : Bool} (hx : isTagChar verbatim x = true) :
    x.toNat < 128 := by
  have hmem : ∀ cs : List Char, cs.all (fun y => y.toNat < 128) = true → cs.contains x = true →
      x.toNat < 128 := fun cs hcs hmem =>
    of_decide_eq_true (List.all_eq_true.1 hcs x (List.contains_iff_mem.1 hmem))
  rw [isTagChar, Bool.or_eq_true, Bool.or_eq_true] at hx
  rcases hx with (hx | hx) | hx
  · have hval : x.toNat = x.val.toNat := rfl
    simp [isWordChar, Char.isAlphanum, isAlpha_iff, Char.isDigit, UInt32.le_iff_toNat_le] at hx
    rcases hx with (hx | rfl) | rfl
    · omega
    · decide
    · decide
  · exact hmem _ (by decide) hx
  · exact hmem _ (by decide) (Bool.and_eq_true_iff.1 hx).2

theorem tagChar_plain (hx : Layout.isPlainTagChar x = true) :
    tagChar x = [x] ∧ utf8EncodeChar x = [x.toNat.toUInt8] := by
  have htag : isTagChar true x = true := (Bool.and_eq_true_iff.1 (Bool.and_eq_true_iff.1 hx).1).1
  exact ⟨if_pos hx, utf8EncodeChar_ascii (ascii_of_isTagChar htag)⟩

/-- What is read of a tag is written by a part of it. -/
theorem readTagOctets_content {verbatim : Bool}
    (hrest : ∀ z ∈ rest.head?, isTagChar verbatim z = false) :
    ∀ {cs : List Char} {n : Nat} {octets out : List UInt8} {c d : Cursor},
      c.rest = cs.flatMap tagChar ++ rest → c.readTagOctets verbatim n octets = .ok (out, d) →
        ∃ p, p <+: cs ∧ out = (p.flatMap utf8EncodeChar).reverse ++ octets
  | cs, 0, octets, out, c, d, _, h => by
    cases h
    exact ⟨[], List.nil_prefix, rfl⟩
  | [], n + 1, octets, out, c, d, hc, h => by
    rw [List.flatMap_nil, List.nil_append] at hc
    refine ⟨[], List.nil_prefix, ?_⟩
    rw [readTagOctets, hc] at h
    cases rest with
    | nil =>
      cases h
      rfl
    | cons z rest =>
      dsimp only at h
      rw [hrest z rfl] at h
      cases h
      rfl
  | x :: cs, n + 1, octets, out, c, d, hc, h => by
    rw [List.flatMap_cons, List.append_assoc] at hc
    by_cases hx : Layout.isPlainTagChar x = true
    · obtain ⟨htext, hoctets⟩ := tagChar_plain hx
      rw [htext, List.singleton_append] at hc
      have hpercent : (x == '%') = false := by simpa using (Bool.and_eq_true_iff.1 hx).2
      rw [readTagOctets, hc] at h
      dsimp only at h
      rw [hpercent] at h
      split at h
      · cases h
        exact ⟨[], List.nil_prefix, rfl⟩
      · obtain ⟨p, hp, rfl⟩ := readTagOctets_content hrest (c := c.advance 1)
          (by rw [advance_rest, hc]; rfl) h
        refine ⟨x :: p, List.cons_prefix_cons.2 ⟨rfl, hp⟩, ?_⟩
        rw [List.flatMap_cons, hoctets, List.singleton_append, List.reverse_cons,
          List.append_assoc, List.singleton_append]
    · rw [tagChar, if_neg hx] at hc
      obtain ⟨e, hread, he⟩ := readEscapedOctets_escaped hc
      obtain ⟨b, bs, hb, -⟩ := utf8EncodeChar_octets x
      obtain ⟨r, hr⟩ : ∃ r, c.rest = '%' :: r := by
        rw [hc, hb, List.flatMap_cons]
        exact ⟨_, rfl⟩
      rw [readTagOctets, hr] at h
      change (c.readEscapedOctets >>= _) = _ at h
      rw [hread] at h
      obtain ⟨p, hp, rfl⟩ := readTagOctets_content hrest he h
      refine ⟨x :: p, List.cons_prefix_cons.2 ⟨rfl, hp⟩, ?_⟩
      rw [List.flatMap_cons, List.reverse_append, List.append_assoc]

/-! ## Words -/

theorem isTagChar_of_isWordChar {verbatim : Bool} (hx : isWordChar x = true) :
    isTagChar verbatim x = true := by
  rw [isTagChar, hx]
  rfl

/-- The word at the start of what is written is the word at the start of the text. -/
theorem takeWhile_written (hrest : ∀ z ∈ rest.head?, isWordChar z = false) :
    ∀ cs : List Char, (cs.flatMap tagChar ++ rest).takeWhile isWordChar = cs.takeWhile isWordChar ∧
      cs.flatMap tagChar ++ rest
        = cs.takeWhile isWordChar ++ ((cs.dropWhile isWordChar).flatMap tagChar ++ rest)
  | [] => by
    refine ⟨?_, rfl⟩
    cases rest with
    | nil => rfl
    | cons z rest => exact List.takeWhile_cons_of_neg (by rw [hrest z rfl]; exact Bool.false_ne_true)
  | x :: cs => by
    obtain ⟨htake, hsplit⟩ := takeWhile_written hrest cs
    by_cases hx : isWordChar x = true
    · have hplain : Layout.isPlainTagChar x = true := by
        rw [Layout.isPlainTagChar, isTagChar_of_isWordChar hx]
        have hne : ∀ y, isWordChar y = false → (x != y) = true := by
          intro y hy
          rw [bne_iff_ne]
          rintro rfl
          rw [hx] at hy
          cases hy
        rw [hne '!' rfl, hne '%' rfl]
        rfl
      rw [List.flatMap_cons, (tagChar_plain hplain).1, List.append_assoc, List.singleton_append,
        List.takeWhile_cons_of_pos hx, List.takeWhile_cons_of_pos hx,
        List.dropWhile_cons_of_pos hx, htake, List.cons_append, ← hsplit]
      exact ⟨rfl, rfl⟩
    · rw [List.takeWhile_cons_of_neg hx, List.dropWhile_cons_of_neg hx]
      refine ⟨?_, rfl⟩
      rw [List.flatMap_cons, List.append_assoc, tagChar]
      split
      · exact List.takeWhile_cons_of_neg hx
      · obtain ⟨b, bs, hb, -⟩ := utf8EncodeChar_octets x
        rw [hb]
        rfl

theorem map_octets {cs : List Char} (hcs : ∀ x ∈ cs, isWordChar x = true) :
    cs.map (·.toNat.toUInt8) = cs.flatMap utf8EncodeChar := by
  induction cs with
  | nil => rfl
  | cons x cs ih =>
    have hx : isTagChar true x = true := isTagChar_of_isWordChar (hcs x List.mem_cons_self)
    rw [List.map_cons, List.flatMap_cons, utf8EncodeChar_ascii (ascii_of_isTagChar hx),
      ih fun y hy => hcs y (List.mem_cons_of_mem _ hy)]
    rfl

/-! ## Tags -/

/-- A tag token reads as a tag that is private to the document and has a name. -/
def ReadsLocal (token : Token) : Prop :=
  ∃ handle suffix q, token = .tag handle suffix ∧
    ∀ ls, Node.readTagToken Node.Handles.standard handle suffix ls
      = .ok (.text (String.ofList ('!' :: q)))

theorem ofOctets_bytes (cs : List Char) :
    Tag.ofOctets (cs.flatMap utf8EncodeChar) = .text (String.ofList cs) := by
  rw [Tag.ofOctets, Text.fromUTF8?_bytes]

theorem readsLocal_alone : ReadsLocal (.tag "" ['!'.toNat.toUInt8]) := by
  refine ⟨_, _, [], rfl, fun ls => ?_⟩
  rw [Node.readTagToken, if_pos rfl]
  exact congrArg Except.ok (ofOctets_bytes ['!'])

theorem readsLocal_suffix (q : List Char) : ReadsLocal (.tag "!" (q.flatMap utf8EncodeChar)) := by
  refine ⟨_, _, q, rfl, fun ls => ?_⟩
  exact congrArg Except.ok (ofOctets_bytes ('!' :: q))

variable {y : Char}

theorem not_isTagChar_blank (hy : isSpace y = true ∨ isBreak y = true) (verbatim : Bool) :
    isTagChar verbatim y = false := by
  simp only [isSpace, isBreak, Bool.or_eq_true, beq_iff_eq] at hy
  cases verbatim <;> obtain (rfl | rfl) | ((((rfl | rfl) | rfl) | rfl) | rfl) := hy <;> rfl

theorem not_isWordChar_blank (hy : isSpace y = true ∨ isBreak y = true) : isWordChar y = false := by
  cases hword : isWordChar y with
  | false => rfl
  | true =>
    have htag : isTagChar true y = true := isTagChar_of_isWordChar hword
    rw [not_isTagChar_blank hy] at htag
    cases htag

/-- What is written of a tag does not start with an angle bracket or an exclamation mark. -/
theorem written_ne (hy : isSpace y = true ∨ isBreak y = true) {z : Char} (hz : z ∈ ['<', '!']) :
    ∀ cs : List Char, (cs.flatMap tagChar ++ y :: rest).head? ≠ some z := by
  have hblank : ¬(isSpace z = true ∨ isBreak z = true) ∧ Layout.isPlainTagChar z = false ∧
      z ≠ '%' := by
    simp only [List.mem_cons, List.not_mem_nil, or_false] at hz
    rcases hz with rfl | rfl <;> decide
  rintro (_ | ⟨x, cs⟩) hhead
  · cases hhead
    exact hblank.1 hy
  · rw [List.flatMap_cons, tagChar] at hhead
    split at hhead
    · rename_i hplain
      cases hhead
      rw [hblank.2.1] at hplain
      cases hplain
    · obtain ⟨b, bs, hb, -⟩ := utf8EncodeChar_octets x
      rw [hb] at hhead
      exact hblank.2.2 (Option.some.inj hhead).symm

/-- A tag that is verbatim. -/
theorem readTag_angle {token : Token} (hangle : c.rest[1]? = some '<')
    (h : c.readTag false = .ok (token, d)) :
    ∃ suffix next, (c.advance 2).readTagSuffix true [] = .ok (suffix, next) ∧
      token = .tag "" suffix := by
  rw [readTag, hangle] at h
  obtain ⟨⟨suffix, next⟩, hsuffix, h⟩ := bind_eq_ok_iff.1 h
  refine ⟨suffix, next, hsuffix, ?_⟩
  dsimp only at h
  split at h
  · cases h
  · change (if endsWord (next.advance 1).rest = true then _ else _) = _ at h
    split at h
    · cases h
      rfl
    · cases h

/-- A tag that has no handle but its `!`. -/
theorem readTag_bare {token : Token} {word : List Char} {next : Cursor}
    (hangle : c.rest[1]? ≠ some '<') (hhandle : c.readTagHandle = .ok (word, next))
    (hword : isHandle word = false) (h : c.readTag false = .ok (token, d)) :
    ∃ suffix next', next.readTagSuffix false word = .ok (suffix, next') ∧
      (token = .tag "" ['!'.toNat.toUInt8] ∨ token = .tag "!" suffix) := by
  rw [readTag, beq_false_of_ne hangle, hhandle] at h
  change (if isHandle word = true then _ else _) = _ at h
  rw [hword] at h
  obtain ⟨⟨suffix, next'⟩, hsuffix, h⟩ := bind_eq_ok_iff.1 h
  refine ⟨suffix, next', hsuffix, ?_⟩
  change (if suffix.isEmpty = true then if endsWord next'.rest = true then _ else _ else
    if endsWord next'.rest = true then _ else _) = _ at h
  split at h
  · split at h
    · cases h
      exact .inl rfl
    · cases h
  · split at h
    · cases h
      exact .inr rfl
    · cases h

/-- A tag that was written behind its `!` is read as a tag without handle. -/
theorem readTag_local {cs : List Char} {token : Token}
    (hy : isSpace y = true ∨ isBreak y = true)
    (hc : c.rest = '!' :: (cs.flatMap tagChar ++ y :: rest))
    (h : c.readTag false = .ok (token, d)) : ReadsLocal token := by
  have hone : (c.advance 1).rest = cs.flatMap tagChar ++ y :: rest := by rw [advance_rest, hc]; rfl
  have hword : ∀ z ∈ (y :: rest).head?, isWordChar z = false := by
    rintro _ ⟨⟩
    exact not_isWordChar_blank hy
  obtain ⟨hspan, hsplit⟩ := takeWhile_written hword cs
  have hbehind : ((c.advance 1).advance (cs.takeWhile isWordChar).length).rest
      = (cs.dropWhile isWordChar).flatMap tagChar ++ y :: rest := rest_advance (hone.trans hsplit)
  have hhandle : c.readTagHandle = .ok ('!' :: cs.takeWhile isWordChar,
      (c.advance 1).advance (cs.takeWhile isWordChar).length) := by
    have hat : c.at? '!' = true := by rw [at?, hc]; rfl
    have hbang : ((c.advance 1).advance (cs.takeWhile isWordChar).length).at? '!' = false := by
      rw [at?, hbehind]
      exact beq_false_of_ne (written_ne hy (by decide) _)
    rw [readTagHandle, hat]
    dsimp only [Bool.not_true]
    rw [span, hone, hspan, hbang]
    rfl
  have hangle : c.rest[1]? ≠ some '<' := by
    rw [hc, List.getElem?_cons_succ, ← List.head?_eq_getElem?]
    exact written_ne hy (by decide) _
  have hhandle' : isHandle ('!' :: cs.takeWhile isWordChar) = false := by
    rw [isHandle, List.getLast?_cons, Bool.and_eq_false_iff]
    cases hlast : (cs.takeWhile isWordChar).getLast? with
    | none =>
      rw [List.getLast?_eq_none_iff.1 hlast]
      exact .inl rfl
    | some x =>
      have hx := List.mem_takeWhile_imp (List.mem_of_getLast? hlast)
      refine .inr (beq_false_of_ne fun h => ?_)
      cases h
      cases hx
  obtain ⟨suffix, next, hsuffix, htoken⟩ := readTag_bare hangle hhandle hhandle' h
  rcases htoken with rfl | rfl
  · exact readsLocal_alone
  obtain ⟨⟨octets, next'⟩, hoctets, hsuffix⟩ := bind_eq_ok_iff.1 hsuffix
  obtain ⟨p, -, rfl⟩ := readTagOctets_content
    (by rintro _ ⟨⟩; exact not_isTagChar_blank hy false) hbehind hoctets
  obtain ⟨q, hq⟩ := takeWhile_octets (cs.takeWhile isWordChar ++ p)
  have hall : suffix = q.flatMap utf8EncodeChar := by
    rw [← hq, List.flatMap_append, ← map_octets fun x hx => List.mem_takeWhile_imp hx]
    cases hsuffix
    rw [List.append_nil, List.reverse_reverse]
    rfl
  rw [hall]
  exact readsLocal_suffix q

/-- The tag that is a `!` only is written in full. -/
theorem readTag_verbatim {token : Token}
    (hc : c.rest = '!' :: '<' :: (['!'].flatMap tagChar ++ '>' :: rest))
    (h : c.readTag false = .ok (token, d)) : ReadsLocal token := by
  have htwo : (c.advance 2).rest = ['!'].flatMap tagChar ++ '>' :: rest := by
    rw [advance_rest, hc]
    rfl
  obtain ⟨suffix, next, hsuffix, rfl⟩ := readTag_angle (by rw [hc]; rfl) h
  obtain ⟨⟨octets, next'⟩, hoctets, hsuffix⟩ := bind_eq_ok_iff.1 hsuffix
  obtain ⟨p, hp, rfl⟩ := readTagOctets_content (by rintro _ ⟨⟩; rfl) htwo hoctets
  cases p with
  | nil => cases hsuffix
  | cons x p =>
    obtain ⟨rfl, hnil⟩ := List.cons_prefix_cons.1 hp
    obtain rfl := List.prefix_nil.1 hnil
    cases hsuffix
    exact readsLocal_alone

/-- **A local tag that was written is read as a local tag.** -/
theorem readTag_written {name : String} {token : Token} {cs : List Char}
    (hname : name.toList = '!' :: cs) (hy : isSpace y = true ∨ isBreak y = true)
    (hc : c.rest = Layout.writtenTag name ++ y :: rest)
    (h : c.readTag false = .ok (token, d)) : ReadsLocal token := by
  rw [Layout.writtenTag, hname] at hc
  cases cs with
  | nil =>
    change c.rest = ('!' :: '<' :: Layout.tagContent ['!'] ++ ['>']) ++ y :: rest at hc
    rw [tagContent_eq] at hc
    simp only [List.cons_append, List.append_assoc, List.nil_append] at hc
    exact readTag_verbatim hc h
  | cons first cs =>
    change c.rest = '!' :: Layout.tagContent (first :: cs) ++ y :: rest at hc
    rw [tagContent_eq] at hc
    exact readTag_local hy hc h

end Cursor
end JobMatrix.Yaml
