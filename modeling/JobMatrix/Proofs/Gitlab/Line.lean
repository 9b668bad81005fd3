import JobMatrix.Proofs.Gitlab.Scalar
import JobMatrix.Proofs.Yaml.Token.Line

/-!
# Scanning the lines of a pipeline file

Every line of a pipeline file is an entry of a mapping, an item of a sequence, blank or a comment.
A lemma for each says which tokens it adds and which blocks are open behind it.
-/

set_option autoImplicit false

namespace JobMatrix.Yaml.Scanner

open Gitlab (quote isPlainKey keyStyle)

variable {s t : Scanner} {stack : List Nat} {toks : List Token} {rest : List Char} {column : Nat}

/-! ## Keys -/

/-- The blocks that are open behind an entry. -/
def opened (column : Nat) (stack : List Nat) : List Nat :=
  if stack.head? = some column then stack else column :: stack

/-- The token that opens the block of an entry, if the entry is the first in it. -/
def opening (column : Nat) (stack : List Nat) : List Token :=
  if stack.head? = some column then [] else [.blockMappingStart]

@[simp] theorem opened_self (column : Nat) (outer : List Nat) :
    opened column (column :: outer) = column :: outer := if_pos rfl

@[simp] theorem opening_self (column : Nat) (outer : List Nat) :
    opening column (column :: outer) = [] := if_pos rfl

/-- Behind a token of `n` characters that may be a key. -/
def keyed (t : Scanner) (token : Token) (n : Nat) : Scanner :=
  { t with
    key := some ⟨t.indent == (t.cursor.column : Int), t.count, t.cursor.index, t.cursor.line,
      t.cursor.column⟩
    cursor := t.cursor.advance n
    lexemes := ⟨token, t.cursor.line, t.cursor.column⟩ :: t.lexemes
    count := t.count + 1
    keyAllowed := false }

theorem AtToken.saveKey (h : t.AtToken stack toks rest column) :
    t.saveKey = .ok { t with key := some ⟨t.indent == (t.cursor.column : Int), t.count,
      t.cursor.index, t.cursor.line, t.cursor.column⟩ } := by
  have hdrop : t.dropKey = .ok t := by rw [dropKey, h.key]
  have hflow : t.inFlow = false := by rw [inFlow, h.outer]; rfl
  rw [Scanner.saveKey, if_pos h.keyAllowed, hdrop, hflow]
  rfl

theorem AtToken.scan_quote {text : String}
    (h : t.AtToken stack toks ((quote text).toList ++ rest) column) :
    t.scanToken = .ok (t.keyed (.scalar .doubleQuoted text) (quote text).length) := by
  have hrest := h.rest_eq
  rw [quote, String.toList_ofList, List.append_assoc, List.cons_append] at hrest
  have hread := Cursor.readQuoted_quote h.room h.rest_eq
  rw [scanToken_quote hrest, scanQuoted, h.saveKey]
  change (t.cursor.readQuoted true >>= _) = _
  rw [hread]
  rfl

/-- A letter, an underscore or a point starts a plain scalar. -/
theorem scanToken_plain {x : Char} (hflow : t.outerKeys = []) (hx : Gitlab.startsPlainKey x = true)
    (hmark : t.cursor.column = 0 → startsDocumentMark '.' t.cursor.rest = false)
    (hrest : t.cursor.rest = x :: rest) : t.scanToken = t.scanPlain := by
  have hne : ∀ y, Gitlab.startsPlainKey y = false → x ≠ y := by
    rintro y hy rfl
    rw [hx] at hy
    cases hy
  have hstart : startsPlain false x rest = true := by
    have hspace := (Gitlab.not_blank_of_isPlainKeyChar
      (Gitlab.isPlainKeyChar_of_startsPlainKey hx)).1
    have hindicator : isIndicator x = false := by
      rw [isIndicator, List.contains_eq_any_beq, List.any_eq_false]
      intro y hy
      have hyx : (!Gitlab.startsPlainKey y) = true :=
        (List.all_eq_true (p := fun y => !Gitlab.startsPlainKey y)).1 (by decide) y hy
      simpa using hne y (by simpa using hyx)
    rw [startsPlain, hspace, hindicator]
    rfl
  have hdash : startsDocumentMark '-' (x :: rest) = false := startsDocumentMark_of_ne (hne '-' rfl)
  rw [hrest] at hmark
  rw [scanToken, hrest]
  simp only [inFlow, hflow, List.isEmpty_nil, Bool.not_true]
  simp only [hne '%' rfl, hne '[' rfl, hne '{' rfl, hne ']' rfl, hne '}' rfl, hne ',' rfl,
    hne '-' rfl, hne '?' rfl, hne ':' rfl, hne '*' rfl, hne '&' rfl, hne '!' rfl, hne '|' rfl,
    hne '>' rfl, hne '\x27' rfl, hne '"' rfl, hdash, hstart, and_false, false_and, if_false, if_true,
    Bool.false_eq_true]
  rw [if_neg fun h => by rw [hmark h.1] at h; exact absurd h.2 Bool.false_ne_true]

theorem AtToken.scan_key {name : String} (hend : endsWord rest = true)
    (h : t.AtToken stack toks ((Gitlab.key name).toList ++ ':' :: rest) column) :
    t.scanToken = .ok (t.keyed (.scalar (keyStyle name) name) (Gitlab.key name).length) := by
  rw [keyStyle]
  by_cases hname : isPlainKey name = true
  · have hkey : Gitlab.key name = name := if_pos hname
    rw [if_pos hname, hkey]
    rw [hkey] at h
    obtain ⟨x, cs, hcons, hx, hall⟩ := Gitlab.exists_cons_of_isPlainKey hname
    have hrest := h.rest_eq
    rw [hcons, List.cons_append] at hrest
    have hread := Cursor.readPlain_key (t.indent + 1) hname hend h.rest_eq
    have hflow : t.inFlow = false := by rw [inFlow, h.outer]; rfl
    have hmark : startsDocumentMark '.' t.cursor.rest = false := by
      rw [h.rest_eq]
      exact startsDocumentMark_key (by decide) hall
    rw [scanToken_plain h.outer hx (fun _ => hmark) hrest, scanPlain, h.saveKey]
    change (t.cursor.readPlain t.inFlow (t.indent + 1) >>= _) = _
    rw [hflow, hread]
    rfl
  · have hkey : Gitlab.key name = quote name := if_neg hname
    rw [if_neg hname, hkey]
    rw [hkey] at h
    exact h.scan_quote

/-! ## Entries -/

theorem closeBlocks_self {column : Int} (hflow : s.outerKeys = [])
    (hlevels : (s.indent, s.indents) = levels stack)
    (hstack : ∀ o ∈ stack.head?, (o : Int) ≤ column) : s.closeBlocks column = s := by
  have hlevels' : (s.indent, s.indents) = levels ([] ++ stack) := hlevels
  rw [closeBlocks_eq column hflow hlevels' (fun _ hi => (nomatch hi)) hstack, ← hlevels]
  rfl

theorem scanToken_colon (hcolumn : s.cursor.column ≠ 0) (hend : endsWord rest = true)
    (hrest : s.cursor.rest = ':' :: rest) : s.scanToken = s.scanValue := by
  rw [scanToken, hrest]
  simp [hcolumn, hend]

/-- Behind the `:` of a key.  The tokens of the key go to its place, in front of the scalar. -/
def valued (t : Scanner) (token : Token) (n : Nat) (opens : Bool) : Scanner :=
  let l (token : Token) : Lexeme := ⟨token, t.cursor.line, t.cursor.column⟩
  { t with
    cursor := t.cursor.advance (n + 1)
    lexemes := ⟨.value, t.cursor.line, t.cursor.column + n⟩ :: l token :: l .key ::
      (if opens then l .blockMappingStart :: t.lexemes else t.lexemes)
    count := if opens then t.count + 4 else t.count + 3
    indent := if opens then t.cursor.column else t.indent
    indents := if opens then t.indent :: t.indents else t.indents
    keyAllowed := false }

theorem AtToken.scanValue_keyed {token : Token} {n : Nat}
    (h : t.AtToken stack toks rest column) :
    (t.keyed token n).scanValue
      = .ok (t.valued token n (decide (t.indent < (t.cursor.column : Int)))) := by
  have hone : t.count + 1 - t.count = 1 := by omega
  have htwo : t.count + 1 + 1 - t.count = 2 := by omega
  rw [scanValue]
  by_cases hopens : t.indent < (t.cursor.column : Int)
  · simp [keyed, valued, insertAt, openBlock, push, inFlow, h.outer, h.key, hopens, hone, htwo,
      Cursor.advance_advance]
  · simp [keyed, valued, insertAt, openBlock, push, inFlow, h.outer, h.key, hopens, hone,
      Cursor.advance_advance]

/-- The `:` behind a key turns it into a key, and opens a block if it is the first in it. -/
theorem AtToken.step_colon (token : Token) {cs : List Char}
    (h : t.AtToken stack toks (cs ++ ':' :: rest) column) (hend : endsWord rest = true)
    (hcs : cs ≠ []) (hlength : cs.length ≤ 1024) (hstack : ∀ o ∈ stack.head?, o ≤ column) :
    (t.keyed token cs.length).step
      = .ok (t.valued token cs.length (decide (t.indent < (t.cursor.column : Int)))) := by
  have hrest : (t.keyed token cs.length).cursor.rest = ':' :: rest := Cursor.rest_advance h.rest_eq
  have hroom : (t.keyed token cs.length).cursor.rest.length ≤ (t.keyed token cs.length).cursor.size :=
    Nat.le_trans (Cursor.behind_advance t.cursor cs.length).le h.room
  have hnext : (t.keyed token cs.length).next = t.keyed token cs.length :=
    next_spaces (k := 0) (x := ':') rfl hrest
  have hdrop : (t.keyed token cs.length).dropStaleKeys = .ok (t.keyed token cs.length) :=
    dropStaleKeys_fresh rfl h.outer rfl (Nat.add_le_add_left hlength _)
  have hcolumn : (t.keyed token cs.length).cursor.column = column + cs.length := by
    rw [← h.column_eq]
    rfl
  have hclose : (t.keyed token cs.length).closeBlocks (t.keyed token cs.length).cursor.column
      = t.keyed token cs.length := by
    refine closeBlocks_self h.outer h.levels_eq fun o ho => ?_
    have := hstack o ho
    rw [hcolumn]
    omega
  have hpositive : (t.keyed token cs.length).cursor.column ≠ 0 := by
    have := List.length_pos_iff.2 hcs
    omega
  rw [step_eq hroom, hnext, hdrop]
  change (closeBlocks _ _).scanToken = _
  rw [hclose, scanToken_colon hpositive hend hrest, h.scanValue_keyed]

/-- Behind the `:` of an entry, where a value is read. -/
structure AtValue (s : Scanner) (stack : List Nat) (toks : List Token) (rest : List Char) : Prop
    extends InLine s stack toks rest where
  key_none : s.key = none
  keyAllowed : s.keyAllowed = false

theorem AtToken.indent_lt_iff (h : t.AtToken stack toks rest column)
    (hstack : ∀ o ∈ stack.head?, o ≤ column) :
    t.indent < (t.cursor.column : Int) ↔ stack.head? ≠ some column := by
  have hindent : t.indent = (levels stack).1 := by rw [← h.levels_eq]
  rw [hindent, h.column_eq]
  cases stack with
  | nil =>
    simp only [levels, List.head?_nil, ne_eq, reduceCtorEq, not_false_eq_true, iff_true]
    omega
  | cons o stack =>
    have ho := hstack o rfl
    simp only [levels, List.head?_cons, ne_eq, Option.some.injEq]
    omega

theorem AtToken.atValue {token : Token} {cs : List Char}
    (h : t.AtToken stack toks (cs ++ ':' :: rest) column)
    (hstack : ∀ o ∈ stack.head?, o ≤ column) :
    (t.valued token cs.length (decide (t.indent < (t.cursor.column : Int)))).AtValue
      (opened column stack) (toks ++ opening column stack ++ [.key, token, .value]) rest := by
  have hrest : (t.cursor.advance (cs.length + 1)).rest = rest := by
    rw [← Cursor.advance_advance, Cursor.advance_rest, Cursor.rest_advance h.rest_eq]
    rfl
  have hopens := h.indent_lt_iff hstack
  rw [← h.tokens_eq]
  refine
    { unfinished := h.unfinished
      rest_eq := hrest
      column := by simp [valued]
      room := Nat.le_trans (Cursor.behind_advance _ _).le h.room
      levels_eq := ?_
      open_left := ?_
      key := fun k hk => by rw [valued, h.key] at hk; cases hk
      outer := h.outer
      tokens_eq := ?_
      key_none := h.key
      keyAllowed := rfl }
  · rw [opened]
    split
    · rename_i hhead
      have hnot : ¬t.indent < (t.cursor.column : Int) := fun hlt => hopens.1 hlt hhead
      simpa [valued, hnot] using h.levels_eq
    · rename_i hhead
      have hlt := hopens.2 hhead
      rw [h.column_eq] at hlt
      simp [valued, hlt, levels, ← h.levels_eq, h.column_eq]
  · intro o ho
    have hle : o ≤ column := by
      rw [opened] at ho
      split at ho
      · exact hstack o ho
      · exact (Option.some.inj ho).ge
    change o ≤ t.cursor.column + (cs.length + 1)
    rw [h.column_eq]
    omega
  · rw [opening]
    split
    · rename_i hhead
      have hnot : ¬t.indent < (t.cursor.column : Int) := fun hlt => hopens.1 hlt hhead
      simp [valued, tokens, hnot]
    · rename_i hhead
      have hlt := hopens.2 hhead
      simp [valued, tokens, hlt]

theorem exists_key_eq_cons (name : String) :
    ∃ x cs, (Gitlab.key name).toList = x :: cs ∧ startsToken x = true := by
  rw [Gitlab.key]
  split
  · rename_i hname
    obtain ⟨x, cs, hcons, hx, -⟩ := Gitlab.exists_cons_of_isPlainKey hname
    have hchar := Gitlab.isPlainKeyChar_of_startsPlainKey hx
    have hne := fun y hy => Gitlab.ne_of_isPlainKeyChar (x := y) hchar hy
    obtain ⟨hspace, hbreak⟩ := Gitlab.not_blank_of_isPlainKeyChar hchar
    exact ⟨x, cs, hcons, by simp [startsToken, hspace, hbreak, hne '#' rfl, hne byteOrderMark rfl]⟩
  · rw [quote, String.toList_ofList]
    exact ⟨'"', _, rfl, rfl⟩

/-- **An entry.**  Its line closes the blocks further right, and opens one if it is the first in
it. -/
theorem AtLine.entry {name : String} {inner outer : List Nat}
    (h : s.AtLine (inner ++ outer) toks
      (List.replicate column ' ' ++ ((Gitlab.key name).toList ++ ':' :: rest)))
    (hend : endsWord rest = true) (hlength : (Gitlab.key name).length ≤ 1024)
    (hinner : ∀ i ∈ inner, column < i) (houter : ∀ o ∈ outer.head?, o ≤ column) :
    ∃ s', Leads s s' ∧ s'.AtValue (opened column outer)
      (toks ++ List.replicate inner.length .blockEnd ++ opening column outer
        ++ [.key, .scalar (keyStyle name) name, .value]) rest := by
  obtain ⟨x, cs, hcons, hx⟩ := exists_key_eq_cons name
  have hstart := h
  rw [hcons, List.cons_append] at hstart
  obtain ⟨t, hstep, hle, ht⟩ := hstart.exists_start hx hinner houter
  rw [← List.cons_append, ← hcons] at ht
  have hne : (Gitlab.key name).toList ≠ [] := by rw [hcons]; exact List.cons_ne_nil x cs
  have hscan := ht.scan_key hend
  have hcolon := ht.step_colon (.scalar (keyStyle name) name) hend hne
    (by rwa [String.length_toList]) houter
  rw [← String.length_toList] at hscan
  have hpositive := List.length_pos_iff.2 hne
  have hrest := congrArg List.length ht.rest_eq
  rw [List.length_append, List.length_cons] at hrest
  refine ⟨_, (leads_of_step h.unfinished (hstep.trans hscan) ?_).trans
    (leads_of_step ht.unfinished hcolon ?_), ht.atValue houter⟩
  · change (t.cursor.advance _).rest.length < _
    rw [Cursor.advance_rest, List.length_drop]
    omega
  · change (t.cursor.advance _).rest.length < (t.cursor.advance _).rest.length
    rw [Cursor.advance_rest, Cursor.advance_rest, List.length_drop, List.length_drop]
    omega

/-! ## Values -/

/-- The scanner with its cursor further on. -/
def moved (n : Nat) (s : Scanner) : Scanner := { s with cursor := s.cursor.advance n }

/-- Behind a token of `n` characters that is no key. -/
def passed (s : Scanner) (token : Token) (n : Nat) : Scanner :=
  { s.push token with cursor := s.cursor.advance n, keyAllowed := false }

theorem saveKey_of_not_allowed (h : s.keyAllowed = false) : s.saveKey = .ok s := by
  rw [saveKey, h]
  rfl

theorem AtValue.moved {w : List Char} (h : s.AtValue stack toks (w ++ rest)) :
    (s.moved w.length).AtValue stack toks rest :=
  { h with
    rest_eq := Cursor.rest_advance h.rest_eq
    column := fun hzero => h.column (Nat.eq_zero_of_add_eq_zero_right hzero)
    room := Nat.le_trans (Cursor.behind_advance _ _).le h.room
    open_left := fun o ho => Nat.le_add_right_of_le (h.open_left o ho) }

theorem AtValue.passed {w : List Char} (h : s.AtValue stack toks (w ++ rest)) (token : Token) :
    (s.passed token w.length).InLine stack (toks ++ [token]) rest :=
  { h.moved.toInLine with
    tokens_eq := by
      rw [← h.tokens_eq]
      simp [Scanner.passed, push, tokens] }

/-- A value is read behind a space. -/
theorem AtValue.step_eq {x : Char} (h : s.AtValue stack toks (' ' :: x :: rest))
    (hx : startsToken x = true) : s.step = (s.moved 1).scanToken := by
  have hmoved : (s.moved 1).AtValue stack toks (x :: rest) := AtValue.moved (w := [' ']) h
  have hnext : s.next = s.moved 1 := next_spaces (k := 1) hx h.rest_eq
  have hdrop : (s.moved 1).dropStaleKeys = .ok (s.moved 1) :=
    dropStaleKeys_none hmoved.key_none (by rw [hmoved.outer]; exact fun _ hk => (nomatch hk))
  have hclose : (s.moved 1).closeBlocks (s.moved 1).cursor.column = s.moved 1 :=
    closeBlocks_self hmoved.outer hmoved.levels_eq fun o ho =>
      Int.ofNat_le.2 (hmoved.open_left o ho)
  rw [Scanner.step_eq h.room, hnext, hdrop]
  exact congrArg scanToken hclose

theorem AtValue.scan_quote {text : String}
    (h : s.AtValue stack toks ((Gitlab.quote text).toList ++ rest)) :
    s.scanToken = .ok (s.passed (.scalar .doubleQuoted text) (Gitlab.quote text).length) := by
  have hrest := h.rest_eq
  rw [quote, String.toList_ofList, List.append_assoc, List.cons_append] at hrest
  rw [scanToken_quote hrest, scanQuoted, saveKey_of_not_allowed h.keyAllowed]
  change (s.cursor.readQuoted true >>= _) = _
  rw [Cursor.readQuoted_quote h.room h.rest_eq]
  rfl

/-- **A text as value.** -/
theorem AtValue.quote {text : String}
    (h : s.AtValue stack toks (' ' :: ((Gitlab.quote text).toList ++ rest))) :
    ∃ s', Leads s s' ∧ s'.InLine stack (toks ++ [.scalar .doubleQuoted text]) rest := by
  have hmoved : (s.moved 1).AtValue stack toks ((Gitlab.quote text).toList ++ rest) :=
    AtValue.moved (w := [' ']) h
  have hscan := hmoved.scan_quote
  have hafter := hmoved.passed (.scalar .doubleQuoted text)
  rw [← String.length_toList] at hscan
  rw [Gitlab.quote, String.toList_ofList, List.cons_append, List.cons_append] at h
  refine ⟨_, leads_of_step h.unfinished ((h.step_eq rfl).trans hscan) ?_, hafter⟩
  rw [hafter.rest_eq, h.rest_eq, List.length_cons, List.length_cons, List.length_append]
  omega

/-- Inside brackets. -/
def bracketed (s : Scanner) (start : Token) : Scanner :=
  { s.push start with
    cursor := s.cursor.advance 1, outerKeys := [none], key := none, keyAllowed := true }

theorem AtValue.scan_opening {l r : Char} {start finish : Token}
    (hlr : Brackets l r start finish) (h : s.AtValue stack toks (l :: rest)) :
    s.scanToken = .ok (s.bracketed start) := by
  rw [scanToken_opening hlr h.rest_eq, scanFlowStart, saveKey_of_not_allowed h.keyAllowed]
  change Except.ok { s.push start with
    cursor := s.cursor.advance 1, outerKeys := s.key :: s.outerKeys, key := none,
    keyAllowed := true } = _
  rw [h.key_none, h.outer]
  rfl

theorem AtValue.step_closing {l r : Char} {start finish : Token}
    (hlr : Brackets l r start finish) (h : s.AtValue stack toks (l :: r :: rest)) :
    (s.bracketed start).step = .ok ((s.passed start 1).passed finish 1) := by
  have hr : startsToken r = true := by
    obtain ⟨-, rfl, -⟩ | ⟨-, rfl, -⟩ := hlr <;> rfl
  have hrest : (s.bracketed start).cursor.rest = r :: rest :=
    Cursor.rest_advance (w := [l]) h.rest_eq
  have hroom : (s.bracketed start).cursor.rest.length ≤ (s.bracketed start).cursor.size :=
    Nat.le_trans (Cursor.behind_advance _ _).le h.room
  have hnext : (s.bracketed start).next = s.bracketed start := next_spaces (k := 0) hr hrest
  have hdrop : (s.bracketed start).dropStaleKeys = .ok (s.bracketed start) :=
    dropStaleKeys_none rfl fun k hk => List.mem_singleton.1 hk
  have hclose (column : Int) : (s.bracketed start).closeBlocks column = s.bracketed start := rfl
  rw [Scanner.step_eq hroom, hnext, hdrop]
  change (closeBlocks _ _).scanToken = _
  have hkey : (s.bracketed start).key = none := rfl
  have houter : (s.bracketed start).outerKeys = none :: [] := rfl
  rw [hclose, scanToken_closing hlr hrest, scanFlowEnd_eq hkey houter]
  simp [bracketed, Scanner.passed, push, h.key_none, h.outer]

/-- **An empty collection as value.** -/
theorem AtValue.brackets {l r : Char} {start finish : Token} (hlr : Brackets l r start finish)
    (h : s.AtValue stack toks (' ' :: l :: r :: rest)) :
    ∃ s', Leads s s' ∧ s'.InLine stack (toks ++ [start, finish]) rest := by
  have hl : startsToken l = true := by
    obtain ⟨rfl, -⟩ | ⟨rfl, -⟩ := hlr <;> rfl
  have hmoved : (s.moved 1).AtValue stack toks (l :: r :: rest) :=
    AtValue.moved (w := [' ']) h
  have hopening := (h.step_eq hl).trans (hmoved.scan_opening hlr)
  have hinside : ((s.moved 1).passed start 1).InLine stack (toks ++ [start]) (r :: rest) :=
    hmoved.passed (w := [l]) start
  have hafter : (((s.moved 1).passed start 1).passed finish 1).InLine stack
      (toks ++ [start] ++ [finish]) rest :=
    AtValue.passed (w := [r]) { hinside with key_none := h.key_none, keyAllowed := rfl } finish
  have hrest : ((s.moved 1).bracketed start).cursor.rest = r :: rest := hinside.rest_eq
  rw [List.append_assoc] at hafter
  refine ⟨_, (leads_of_step h.unfinished hopening ?_).trans
    (leads_of_step h.unfinished (hmoved.step_closing hlr) ?_), hafter⟩
  · simp only [hrest, h.rest_eq, List.length_cons]
    omega
  · simp only [hrest, hafter.rest_eq, List.length_cons]
    omega

/-! ## Items -/

/-- Behind the `-` of an item. -/
def dashed (t : Scanner) : Scanner := { t.push .blockEntry with cursor := t.cursor.advance 1 }

theorem AtToken.scan_dash (h : t.AtToken (column :: stack) toks ('-' :: ' ' :: rest) column) :
    t.scanToken = .ok t.dashed := by
  have hflow : t.inFlow = false := by rw [inFlow, h.outer]; rfl
  have hindent : t.indent = (column : Int) := by
    have hlevels := h.levels_eq
    exact (Prod.mk.inj hlevels).1
  have hmark : startsDocumentMark '-' ('-' :: ' ' :: rest) = false := by
    cases rest <;> rfl
  have hmark' : startsDocumentMark '.' ('-' :: ' ' :: rest) = false :=
    startsDocumentMark_of_ne (by decide)
  have hword : endsWord (' ' :: rest) = true := rfl
  have hopen : t.openBlock t.cursor.column none .blockSequenceStart = t := by
    rw [openBlock, hindent, h.column_eq]
    simp
  have hdrop : t.dropKey = .ok t := by rw [dropKey, h.key]
  have hscan : t.scanToken = t.scanBlockEntry := by
    rw [scanToken, h.rest_eq]
    simp [hmark, hmark', hword]
  rw [hscan, scanBlockEntry, hflow, h.keyAllowed, hopen, hdrop]
  change Except.ok { t.push .blockEntry with cursor := t.cursor.advance 1, keyAllowed := true } = _
  rw [dashed]
  simp [push, h.keyAllowed]

theorem AtToken.dashed_atToken {x : Char} (hx : startsToken x = true)
    (h : t.AtToken (column :: stack) toks ('-' :: ' ' :: x :: rest) column) :
    t.dashed.step = (t.dashed.moved 1).scanToken ∧
      (t.dashed.moved 1).AtToken (column :: stack) (toks ++ [.blockEntry]) (x :: rest)
        (column + 2) := by
  have hrest : t.dashed.cursor.rest = ' ' :: x :: rest :=
    Cursor.rest_advance (w := ['-']) h.rest_eq
  have hroom : t.dashed.cursor.rest.length ≤ t.dashed.cursor.size :=
    Nat.le_trans (Cursor.behind_advance _ _).le h.room
  have hmoved : (t.dashed.moved 1).AtToken (column :: stack) (toks ++ [.blockEntry]) (x :: rest)
      (column + 2) :=
    { h with
      rest_eq := Cursor.rest_advance (w := [' ']) hrest
      column_eq := by rw [← h.column_eq]; rfl
      room := Nat.le_trans (Cursor.behind_advance _ _).le hroom
      tokens_eq := by
        rw [← h.tokens_eq]
        simp [dashed, moved, push, tokens] }
  have hnext : t.dashed.next = t.dashed.moved 1 := next_spaces (k := 1) hx hrest
  have hdrop : (t.dashed.moved 1).dropStaleKeys = .ok (t.dashed.moved 1) :=
    dropStaleKeys_none hmoved.key (by rw [hmoved.outer]; exact fun _ hk => absurd hk List.not_mem_nil)
  have hclose : (t.dashed.moved 1).closeBlocks (t.dashed.moved 1).cursor.column
      = t.dashed.moved 1 := by
    refine closeBlocks_self hmoved.outer hmoved.levels_eq fun o ho => ?_
    have ho : column = o := Option.some.inj ho
    rw [hmoved.column_eq]
    omega
  refine ⟨?_, hmoved⟩
  rw [Scanner.step_eq hroom, hnext, hdrop]
  exact congrArg scanToken hclose

/-- A token that may be a key, but does not stand where a key would have to. -/
theorem AtToken.keyed {cs : List Char} (h : t.AtToken stack toks (cs ++ rest) column)
    (hcolumn : column ≠ 0) (hstack : ∀ o ∈ stack.head?, o < column) (token : Token) :
    (t.keyed token cs.length).InLine stack (toks ++ [token]) rest :=
  { unfinished := h.unfinished
    rest_eq := Cursor.rest_advance h.rest_eq
    column := by
      change t.cursor.column + cs.length ≠ 0
      rw [h.column_eq]
      omega
    room := Nat.le_trans (Cursor.behind_advance _ _).le h.room
    levels_eq := h.levels_eq
    open_left := fun o ho => by
      have := hstack o ho
      change o ≤ t.cursor.column + cs.length
      rw [h.column_eq]
      omega
    key := by
      rintro k ⟨⟩
      refine ⟨beq_eq_false_iff_ne.2 fun heq => ?_, Nat.le_refl _⟩
      have hlt := (h.indent_lt_iff fun o ho => Nat.le_of_lt (hstack o ho)).2 fun hhead =>
        absurd (hstack column hhead) (Nat.lt_irrefl _)
      omega
    outer := h.outer
    tokens_eq := by
      rw [← h.tokens_eq]
      simp [Scanner.keyed, tokens] }

/-- **An item.**  It stands at the column of the mapping around it, and closes the blocks further
right. -/
theorem AtLine.item {text : String} {inner outer : List Nat}
    (h : s.AtLine (inner ++ column :: outer) toks
      (List.replicate column ' ' ++ '-' :: ' ' :: ((Gitlab.quote text).toList ++ rest)))
    (hinner : ∀ i ∈ inner, column < i) :
    ∃ s', Leads s s' ∧ s'.InLine (column :: outer)
      (toks ++ List.replicate inner.length .blockEnd
        ++ [.blockEntry, .scalar .doubleQuoted text]) rest := by
  obtain ⟨t, hstep, hle, ht⟩ := h.exists_start rfl hinner fun o ho => (Option.some.inj ho).ge
  have hquote : (Gitlab.quote text).toList
      = '"' :: (text.toList.flatMap Gitlab.escaped ++ ['"']) := by
    rw [Gitlab.quote, String.toList_ofList, List.cons_append]
  have hdash := hstep.trans ht.scan_dash
  rw [hquote, List.cons_append] at ht
  obtain ⟨hstep', ht'⟩ := ht.dashed_atToken rfl
  rw [← List.cons_append, ← hquote] at ht'
  have hscan := hstep'.trans ht'.scan_quote
  have hafter := ht'.keyed (Nat.succ_ne_zero _) (fun o ho => by
    have ho : column = o := Option.some.inj ho
    omega) (.scalar .doubleQuoted text)
  rw [← String.length_toList] at hscan
  rw [List.append_assoc] at hafter
  refine ⟨_, (leads_of_step h.unfinished hdash ?_).trans
    (leads_of_step ht.unfinished hscan ?_), hafter⟩
  · have hlength := congrArg List.length ht.rest_eq
    change (t.cursor.rest.drop 1).length < _
    rw [List.length_cons] at hlength
    rw [List.length_drop]
    omega
  · have hlength := congrArg List.length ht'.rest_eq
    change (t.dashed.cursor.rest.drop 1).length = _ at hlength
    rw [hquote, List.cons_append, List.length_cons, List.length_append, List.length_drop] at hlength
    rw [hafter.rest_eq]
    omega

end JobMatrix.Yaml.Scanner
