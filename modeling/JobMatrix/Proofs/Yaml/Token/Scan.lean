import JobMatrix.Proofs.Log
import JobMatrix.Proofs.Yaml.Token.Cursor
import JobMatrix.Yaml.Token.Scan

/-!
# Following a scanner

A scanner that has read a piece of a stream stands in some state behind it.  `Scanner.Leads s s'`
says that a run from `s` comes to `s'`; it composes, so a text is followed piece by piece.

* `step_eq` divides a step into the way to the next token (`Scanner.next`) and the token itself.
  `next_spaces` goes it over spaces, `broken_eq` over the end of a line.
* `closeBlocks_eq` says which of the open block collections a token closes, by their columns.
-/

set_option autoImplicit false

namespace JobMatrix.Yaml.Scanner

variable {s s' : Scanner} {rest : List Char}

/-! ## To the next token -/

/-- The cursor behind the blanks and the comment at the start of what is left of a line. -/
def trimmed (s : Scanner) : Cursor :=
  let c := s.cursor
  let c := if c.column == 0 && c.at? byteOrderMark then c.advance 1 else c
  let tabs := s.inFlow || !s.keyAllowed
  let c := c.skip fun x => x == ' ' || (tabs && x == '\t')
  if c.at? '#' then c.skip (!isBreak ·) else c

/-- The scanner behind the line break that comes next. -/
def broken (s : Scanner) : Scanner :=
  { s with cursor := s.trimmed.nextLine, keyAllowed := s.keyAllowed || !s.inFlow }

theorem toNextToken_succ (n : Nat) (s : Scanner) :
    toNextToken (n + 1) s =
      if s.trimmed.sees isBreak then toNextToken n s.broken else { s with cursor := s.trimmed } :=
  rfl

theorem behind_trimmed (s : Scanner) : Cursor.Behind s.cursor s.trimmed := by
  have hmark : ∀ c : Cursor, Cursor.Behind c
      (if c.column == 0 && c.at? byteOrderMark then c.advance 1 else c) := by
    intro c
    split
    · exact Cursor.behind_advance c 1
    · exact .refl c
  have hcomment : ∀ c : Cursor, Cursor.Behind c (if c.at? '#' then c.skip (!isBreak ·) else c) := by
    intro c
    split
    · exact Cursor.behind_skip c _
    · exact .refl c
  exact ((hmark _).trans (Cursor.behind_skip _ _)).trans (hcomment _)

theorem length_rest_broken (h : s.trimmed.sees isBreak = true) :
    s.broken.cursor.rest.length < s.cursor.rest.length :=
  Nat.lt_of_lt_of_le (Cursor.length_rest_nextLine h) s.behind_trimmed.le

/-- Enough fuel is as good as more. -/
theorem toNextToken_fuel :
    ∀ {m n : Nat} {s : Scanner}, s.cursor.rest.length < m → s.cursor.rest.length < n →
      toNextToken m s = toNextToken n s
  | m + 1, n + 1, s, hm, hn => by
    rw [toNextToken_succ, toNextToken_succ]
    split
    · rename_i hbreak
      have hlt := length_rest_broken hbreak
      exact toNextToken_fuel (by omega) (by omega)
    · rfl

/-- The scanner at its next token. -/
def next (s : Scanner) : Scanner := toNextToken (s.cursor.rest.length + 1) s

theorem next_eq (s : Scanner) :
    s.next = if s.trimmed.sees isBreak then s.broken.next else { s with cursor := s.trimmed } := by
  rw [next, toNextToken_succ]
  split
  · rename_i hbreak
    exact toNextToken_fuel (length_rest_broken hbreak) (Nat.lt_succ_self _)
  · rfl

/-- A step goes to the next token and scans it. -/
theorem step_eq (hroom : s.cursor.rest.length ≤ s.cursor.size) :
    s.step = s.next.dropStaleKeys >>= fun s => (s.closeBlocks s.cursor.column).scanToken := by
  rw [step, next, toNextToken_fuel (Nat.lt_succ_of_le hroom) (Nat.lt_succ_self _)]

/-- A character that a token may start with. -/
def startsToken (x : Char) : Bool := !isSpace x && !isBreak x && x != '#' && x != byteOrderMark

theorem next_spaces {k : Nat} {x : Char} (hx : startsToken x = true)
    (hrest : s.cursor.rest = List.replicate k ' ' ++ x :: rest) :
    s.next = { s with cursor := s.cursor.advance k } := by
  simp only [startsToken, isSpace, Bool.and_eq_true, Bool.not_eq_true', Bool.or_eq_false_iff,
    bne_iff_ne, beq_eq_false_iff_ne] at hx
  obtain ⟨⟨⟨⟨hspace, htab⟩, hbreak⟩, hcomment⟩, hmark⟩ := hx
  have hstart : s.cursor.at? byteOrderMark = false := by
    rw [Cursor.at?_eq hrest]
    cases k with
    | zero => simpa using hmark
    | succ k => rfl
  have hskip : s.cursor.skip (fun x => x == ' ' || ((s.inFlow || !s.keyAllowed) && x == '\t'))
      = s.cursor.advance k := by
    rw [Cursor.skip_eq hrest (fun y hy => by rw [List.eq_of_mem_replicate hy]; rfl)
      (by simp [hspace, htab]), List.length_replicate]
  have hnext : (s.cursor.advance k).rest = x :: rest := by
    have := Cursor.rest_advance hrest
    rwa [List.length_replicate] at this
  have htrimmed : s.trimmed = s.cursor.advance k := by
    rw [trimmed, hstart, Bool.and_false]
    simp only [Bool.false_eq_true, if_false]
    rw [hskip, Cursor.at?_eq hnext]
    simp [hcomment]
  rw [next_eq, htrimmed, Cursor.sees_eq hnext]
  simp [hbreak]

/-- Behind a line, a key may start, and what is left of the stream is the next line. -/
theorem broken_eq {cs : List Char} (hflow : s.outerKeys = [])
    (htrimmed : s.trimmed = s.cursor.advance cs.length)
    (hrest : s.cursor.rest = cs ++ '\n' :: rest) :
    s.broken = { s with
      cursor := ⟨rest, s.cursor.index + (cs.length + 1), s.cursor.line + 1, 0, s.cursor.size⟩
      keyAllowed := true } ∧ s.next = s.broken.next := by
  have hnext := Cursor.rest_advance hrest
  have hline : (s.cursor.advance cs.length).nextLine
      = ⟨rest, s.cursor.index + (cs.length + 1), s.cursor.line + 1, 0, s.cursor.size⟩ := by
    rw [Cursor.nextLine, hnext]
    rfl
  constructor
  · rw [broken, htrimmed, hline, inFlow, hflow]
    simp
  · rw [next_eq, htrimmed, Cursor.sees_eq hnext]
    rfl

theorem trimmed_break (hrest : s.cursor.rest = '\n' :: rest) : s.trimmed = s.cursor := by
  have hstart : s.cursor.at? byteOrderMark = false := by
    rw [Cursor.at?_eq hrest]
    rfl
  have hskip : s.cursor.skip (fun x => x == ' ' || ((s.inFlow || !s.keyAllowed) && x == '\t'))
      = s.cursor := Cursor.skip_eq (w := []) hrest (fun y hy => (nomatch hy)) (by simp)
  rw [trimmed, hstart, Bool.and_false]
  simp only [Bool.false_eq_true, if_false]
  rw [hskip, Cursor.at?_eq hrest]
  rfl

theorem trimmed_comment {cs : List Char} (hcs : ∀ x ∈ cs, isBreak x = false)
    (hrest : s.cursor.rest = '#' :: cs ++ '\n' :: rest) :
    s.trimmed = s.cursor.advance (cs.length + 1) := by
  have hstart : s.cursor.at? byteOrderMark = false := by
    rw [Cursor.at?_eq hrest]
    rfl
  have hskip : s.cursor.skip (fun x => x == ' ' || ((s.inFlow || !s.keyAllowed) && x == '\t'))
      = s.cursor := Cursor.skip_eq (w := []) hrest (fun y hy => (nomatch hy)) (by simp)
  rw [trimmed, hstart, Bool.and_false]
  simp only [Bool.false_eq_true, if_false]
  rw [hskip, Cursor.at?_eq hrest]
  refine Cursor.skip_eq hrest (fun y hy => ?_) rfl
  rcases List.mem_cons.1 hy with rfl | hy
  · rfl
  · rw [hcs y hy]
    rfl

/-! ## Keys -/

/-- Keys that may still come to an end stay. -/
theorem dropStaleKeys_self (h : ∀ k, some k ∈ s.key :: s.outerKeys → s.isStale k = false) :
    s.dropStaleKeys = .ok s := by
  have hkeep : ∀ key ∈ s.key :: s.outerKeys, (if key.any s.isStale then none else key) = key := by
    intro key hkey
    cases key with
    | none => rfl
    | some k =>
      rw [Option.any_some, h k hkey]
      rfl
  have hrequired : ((s.key :: s.outerKeys).any fun key =>
      key.any fun k => k.required && s.isStale k) = false := by
    rw [List.any_eq_false]
    intro key hkey
    cases key with
    | none => exact Bool.false_ne_true
    | some k =>
      rw [Option.any_some, h k hkey, Bool.and_false]
      exact Bool.false_ne_true
  have houter : s.outerKeys.map (fun key => if key.any s.isStale then none else key)
      = s.outerKeys := by
    conv_rhs => rw [← List.map_id s.outerKeys]
    exact List.map_congr_left fun key hkey => hkeep key (List.mem_cons_of_mem _ hkey)
  simp only [dropStaleKeys, hrequired, Bool.false_eq_true, if_false, houter,
    hkeep s.key List.mem_cons_self]

theorem dropStaleKeys_none (hkey : s.key = none) (houter : ∀ k ∈ s.outerKeys, k = none) :
    s.dropStaleKeys = .ok s := by
  refine dropStaleKeys_self fun k hk => ?_
  rcases List.mem_cons.1 hk with hk | hk
  · rw [hkey] at hk
    cases hk
  · cases houter _ hk

theorem isStale_eq_false {k : ImplicitKey} (hline : k.line = s.cursor.line)
    (hindex : s.cursor.index ≤ k.index + 1024) : s.isStale k = false := by
  simp only [isStale, Bool.or_eq_false_iff, decide_eq_false_iff_not]
  omega

/-- A key on the line of the cursor, not too far behind it, stays. -/
theorem dropStaleKeys_fresh {k : ImplicitKey} (hkey : s.key = some k) (houter : s.outerKeys = [])
    (hline : k.line = s.cursor.line) (hindex : s.cursor.index ≤ k.index + 1024) :
    s.dropStaleKeys = .ok s := by
  refine dropStaleKeys_self fun j hj => ?_
  rw [hkey, houter] at hj
  cases List.mem_singleton.1 hj
  exact isStale_eq_false hline hindex

/-- A key that is not needed goes when its line has ended. -/
theorem dropStaleKeys_stale (hkey : ∀ k, s.key = some k → k.required = false ∧
    k.line < s.cursor.line) (houter : s.outerKeys = []) :
    s.dropStaleKeys = .ok { s with key := none } := by
  cases hk : s.key with
  | none =>
    rw [dropStaleKeys_none hk (by rw [houter]; exact fun _ h => (nomatch h))]
    cases s
    cases hk
    rfl
  | some k =>
    obtain ⟨hrequired, hline⟩ := hkey k hk
    have hstale : s.isStale k = true := by
      simp only [isStale, Bool.or_eq_true, decide_eq_true_eq]
      omega
    simp only [dropStaleKeys, hk, houter, List.any_cons, List.any_nil, Option.any_some, hstale,
      hrequired, Bool.false_and, Bool.or_self, Bool.false_eq_true, if_false, if_true, List.map_nil]

/-- A key that is needed is missed when its line has ended. -/
theorem dropStaleKeys_required {k : ImplicitKey} (hkey : s.key = some k)
    (hrequired : k.required = true) (hstale : s.isStale k = true) :
    ∃ e, s.dropStaleKeys = .error e := by
  rw [dropStaleKeys]
  dsimp only
  rw [hkey, List.any_cons, Option.any_some, hrequired, hstale]
  exact ⟨_, rfl⟩

/-! ## Open blocks -/

/-- The state of the indentation when blocks are open at these columns, innermost first. -/
def levels : List Nat → Int × List Int
  | [] => (-1, [])
  | c :: cs => (c, (levels cs).1 :: (levels cs).2)

theorem closeLoop_levels {column : Int} {outer : List Nat}
    (houter : ∀ o ∈ outer.head?, (o : Int) ≤ column) :
    ∀ {inner : List Nat} {n : Nat}, (∀ i ∈ inner, column < i) →
      closeLoop column (levels (inner ++ outer)).2 (levels (inner ++ outer)).1 n
        = (n + inner.length, levels outer)
  | [], n, _ => by
    cases outer with
    | nil => rfl
    | cons o outer =>
      have ho : ¬column < (o : Int) := Int.not_lt.2 (houter o rfl)
      simp only [List.nil_append, levels, closeLoop, if_neg ho, List.length_nil, Nat.add_zero]
  | i :: inner, n, hinner => by
    have hi : column < (i : Int) := hinner i List.mem_cons_self
    have hrest := closeLoop_levels houter (n := n + 1)
      fun j hj => hinner j (List.mem_cons_of_mem _ hj)
    simp only [List.cons_append, levels, closeLoop, if_pos hi, hrest, List.length_cons]
    rw [Nat.add_right_comm, Nat.add_assoc]

theorem repeat_push (token : Token) (s : Scanner) :
    ∀ n : Nat, n.repeat (·.push token) s = { s with
      lexemes := List.replicate n ⟨token, s.cursor.line, s.cursor.column⟩ ++ s.lexemes
      count := s.count + n }
  | 0 => rfl
  | n + 1 => by
    rw [Nat.repeat, repeat_push token s n]
    rfl

theorem closeBlocks_flow {column : Int} (hflow : s.outerKeys ≠ []) : s.closeBlocks column = s := by
  rw [closeBlocks, inFlow, List.isEmpty_eq_false_iff.2 hflow]
  rfl

theorem closeBlocks_block (column : Int) (hflow : s.outerKeys = []) :
    s.closeBlocks column = { s with
      indent := (closeLoop column s.indents s.indent 0).2.1
      indents := (closeLoop column s.indents s.indent 0).2.2
      lexemes := List.replicate (closeLoop column s.indents s.indent 0).1
        ⟨.blockEnd, s.cursor.line, s.cursor.column⟩ ++ s.lexemes
      count := s.count + (closeLoop column s.indents s.indent 0).1 } := by
  rw [closeBlocks, inFlow, hflow]
  exact repeat_push _ _ _

/-- The blocks further right than a token are closed. -/
theorem closeBlocks_eq (column : Int) {inner outer : List Nat} (hflow : s.outerKeys = [])
    (hlevels : (s.indent, s.indents) = levels (inner ++ outer)) (hinner : ∀ i ∈ inner, column < i)
    (houter : ∀ o ∈ outer.head?, (o : Int) ≤ column) :
    s.closeBlocks column = { s with
      indent := (levels outer).1
      indents := (levels outer).2
      lexemes := List.replicate inner.length ⟨.blockEnd, s.cursor.line, s.cursor.column⟩ ++ s.lexemes
      count := s.count + inner.length } := by
  have hindent : s.indent = (levels (inner ++ outer)).1 := by rw [← hlevels]
  have hindents : s.indents = (levels (inner ++ outer)).2 := by rw [← hlevels]
  rw [closeBlocks_block column hflow, hindent, hindents, closeLoop_levels houter hinner, Nat.zero_add]

/-- The tokens so far. -/
def tokens (s : Scanner) : List Token := (s.lexemes.map (·.token)).reverse

theorem tokens_push (s : Scanner) (token : Token) :
    (s.push token).tokens = s.tokens ++ [token] := by
  simp only [tokens, push, List.map_cons, List.reverse_cons]

/-! ## Quotes and brackets -/

theorem startsDocumentMark_of_ne {mark x : Char} (hx : x ≠ mark) :
    startsDocumentMark mark (x :: rest) = false := by
  have hne : (x == mark) = false := beq_eq_false_iff_ne.2 hx
  rcases rest with _ | ⟨_, _ | ⟨_, rest⟩⟩ <;> simp [startsDocumentMark, hne]

/-- The brackets of empty collections, and their tokens. -/
def Brackets (l r : Char) (start finish : Token) : Prop :=
  (l = '[' ∧ r = ']' ∧ start = .flowSequenceStart ∧ finish = .flowSequenceEnd) ∨
    (l = '\x7b' ∧ r = '\x7d' ∧ start = .flowMappingStart ∧ finish = .flowMappingEnd)

theorem scanToken_opening {l r : Char} {start finish : Token} (hlr : Brackets l r start finish)
    (hrest : s.cursor.rest = l :: rest) : s.scanToken = s.scanFlowStart start := by
  obtain ⟨rfl, rfl, rfl, rfl⟩ | ⟨rfl, rfl, rfl, rfl⟩ := hlr
  · rw [scanToken, hrest]
    simp [startsDocumentMark_of_ne]
  · rw [scanToken, hrest]
    simp [startsDocumentMark_of_ne]

theorem scanToken_closing {l r : Char} {start finish : Token} (hlr : Brackets l r start finish)
    (hrest : s.cursor.rest = r :: rest) : s.scanToken = s.scanFlowEnd finish := by
  obtain ⟨rfl, rfl, rfl, rfl⟩ | ⟨rfl, rfl, rfl, rfl⟩ := hlr
  · rw [scanToken, hrest]
    simp [startsDocumentMark_of_ne]
  · rw [scanToken, hrest]
    simp [startsDocumentMark_of_ne]

theorem scanToken_quote (hrest : s.cursor.rest = '"' :: rest) :
    s.scanToken = s.scanQuoted .doubleQuoted := by
  rw [scanToken, hrest]
  simp [startsDocumentMark_of_ne]

theorem brackets_braces : Brackets '\x7b' '\x7d' .flowMappingStart .flowMappingEnd :=
  .inr ⟨rfl, rfl, rfl, rfl⟩

/-- Behind a flow collection, the key from in front of it is the possible one again. -/
theorem scanFlowEnd_eq {key : Option ImplicitKey} {outer : List (Option ImplicitKey)}
    (hkey : s.key = none) (houter : s.outerKeys = key :: outer) (token : Token) :
    s.scanFlowEnd token = .ok { s.push token with
      cursor := s.cursor.advance 1, keyAllowed := false, key, outerKeys := outer } := by
  have hdrop : s.dropKey = .ok s := by rw [dropKey, hkey]
  have houter' : (s.push token).outerKeys = key :: outer := houter
  rw [scanFlowEnd]
  refine bind_eq_ok_iff.2 ⟨s, hdrop, ?_⟩
  dsimp only
  rw [houter']

end JobMatrix.Yaml.Scanner
