import JobMatrix.Proofs.Yaml.Token.Blank
import JobMatrix.Proofs.Yaml.Token.Quoted
import JobMatrix.Proofs.Yaml.Token.Step

/-!
# Scanning flow collections

`Scanner.Amid` describes a scanner between two tokens of a document without block collections: how
many flow collections it is in, whether a key may start, and the tokens so far.

* `Amid.opening`, `Amid.closing`, `Amid.comma` and `Amid.quoted` scan one token each, with the
  blanks in front of it.
* `Amid.key` scans a quoted key with its colon, which must not be far behind it and on its line.
* `Amid.run_end` reaches the end of the stream.
-/

set_option autoImplicit false

namespace JobMatrix.Yaml.Scanner

variable {s s' : Scanner} {depth : Nat} {allowed : Bool} {toks : List Token} {rest cs : List Char}

/-- Between two tokens, in flow collections of some depth and in no block.  No key is waited for. -/
structure Amid (s : Scanner) (depth : Nat) (allowed : Bool) (toks : List Token)
    (rest : List Char) : Prop where
  unfinished : s.finished = false
  rest_eq : s.cursor.rest = rest
  room : s.cursor.rest.length ≤ s.cursor.size
  levels_eq : (s.indent, s.indents) = levels []
  depth_eq : s.outerKeys.length = depth
  keys : ∀ k, some k ∈ s.key :: s.outerKeys → k.required = false
  allowed_eq : s.keyAllowed = allowed
  tokens_eq : s.tokens = toks

theorem amid_ofText (cs : List Char) :
    Amid { cursor := Cursor.ofText cs } 0 true [] cs where
  unfinished := rfl
  rest_eq := rfl
  room := Nat.le_refl _
  levels_eq := rfl
  depth_eq := rfl
  keys := fun k hk => by simp at hk
  allowed_eq := rfl
  tokens_eq := rfl

theorem Amid.inFlow_eq (h : s.Amid depth allowed toks rest) : s.inFlow = (depth != 0) := by
  rw [inFlow, ← h.depth_eq]
  cases s.outerKeys <;> rfl

/-! ## Keys that need not come to an end -/

theorem dropKey_optional (h : ∀ k, s.key = some k → k.required = false) :
    s.dropKey = .ok { s with key := none } := by
  rw [dropKey]
  cases hkey : s.key with
  | none =>
    cases s
    cases hkey
    rfl
  | some k =>
    dsimp only
    rw [h k hkey]
    rfl

theorem Amid.dropKey_eq (h : s.Amid depth allowed toks rest) :
    s.dropKey = .ok { s with key := none } :=
  dropKey_optional fun k hk => h.keys k (hk ▸ List.mem_cons_self)

theorem dropStaleKeys_optional (h : ∀ k, some k ∈ s.key :: s.outerKeys → k.required = false) :
    s.dropStaleKeys
      = .ok { s with key := s.freshKey s.key, outerKeys := s.outerKeys.map s.freshKey } := by
  have hrequired : ((s.key :: s.outerKeys).any fun key =>
      key.any fun k => k.required && s.isStale k) = false := by
    rw [List.any_eq_false]
    intro key hkey
    cases key with
    | none => exact Bool.false_ne_true
    | some k =>
      rw [Option.any_some, h k hkey, Bool.false_and]
      exact Bool.false_ne_true
  rw [dropStaleKeys]
  dsimp only
  rw [hrequired]
  rfl

/-- A possible key that starts at the cursor. -/
def keyHere (s : Scanner) : ImplicitKey :=
  ⟨false, s.count, s.cursor.index, s.cursor.line, s.cursor.column⟩

/-- Outside of blocks no key must come to an end. -/
theorem Amid.saveKey_eq (h : s.Amid depth allowed toks rest) :
    s.saveKey = .ok { s with key := if s.keyAllowed then some s.keyHere else s.key } := by
  have hindent : s.indent = -1 := congrArg Prod.fst h.levels_eq
  have hrequired : (!s.inFlow && s.indent == (s.cursor.column : Int)) = false := by
    rw [hindent, Bool.and_eq_false_iff]
    exact .inr (beq_eq_false_iff_ne.2 (by omega))
  rw [saveKey]
  by_cases hkey : s.keyAllowed = true
  · rw [if_pos hkey, if_pos hkey]
    dsimp only
    rw [hrequired, h.dropKey_eq]
    rfl
  · rw [if_neg hkey, if_neg hkey]

theorem Amid.closeBlocks_eq (h : s.Amid depth allowed toks rest) (column : Int) :
    s.closeBlocks column = s := by
  have hindents : s.indents = [] := congrArg Prod.snd h.levels_eq
  rw [closeBlocks]
  split
  · rfl
  · rw [hindents, closeLoop]
    cases s
    cases hindents
    rfl

/-! ## To the next token -/

/-- The scanner at its next token, with the keys that may still come to an end. -/
def atToken (s : Scanner) : Scanner :=
  { s.next with
    key := s.next.freshKey s.next.key, outerKeys := s.next.outerKeys.map s.next.freshKey }

/-- **To the next token.** -/
theorem Amid.toToken (h : s.Amid depth allowed toks (cs ++ rest))
    (hrest : ∀ x ∈ rest.head?, startsToken x = true) (hcs : ∀ x ∈ cs, isBlank x = true)
    (htabs : TabsPass (depth != 0) allowed cs) :
    s.step = s.atToken.scanToken ∧
      s.atToken.Amid depth (allowed || (depth == 0 && cs.any isBreak)) toks rest := by
  obtain ⟨c, hnext, hc, hsize, -⟩ := next_blanks hrest _ rfl h.rest_eq hcs
    (by rwa [h.inFlow_eq, h.allowed_eq])
  have hkeys : ∀ k, some k ∈ s.next.key :: s.next.outerKeys → k.required = false := by
    rw [hnext]
    exact h.keys
  have hlength := h.room
  rw [h.rest_eq, List.length_append] at hlength
  have hamid : s.atToken.Amid depth (allowed || (depth == 0 && cs.any isBreak)) toks rest :=
    { unfinished := by rw [atToken, hnext]; exact h.unfinished
      rest_eq := by rw [atToken, hnext]; exact hc
      room := by
        rw [atToken, hnext]
        dsimp only
        rw [hc, hsize]
        omega
      levels_eq := by rw [atToken, hnext]; exact h.levels_eq
      depth_eq := by
        rw [atToken, hnext]
        dsimp only
        rw [List.length_map, h.depth_eq]
      keys := fun k hk => hkeys k (mem_freshKeys (s := s.next) hk)
      allowed_eq := by
        rw [atToken, hnext]
        dsimp only
        rw [h.allowed_eq, h.inFlow_eq]
        cases depth <;> rfl
      tokens_eq := by rw [atToken, hnext]; exact h.tokens_eq }
  refine ⟨?_, hamid⟩
  rw [step_eq h.room, dropStaleKeys_optional hkeys]
  change (s.atToken.closeBlocks s.atToken.cursor.column).scanToken = _
  rw [hamid.closeBlocks_eq]

/-- **Behind a token** that was scanned.  What the scan does to keys and depth is left open. -/
theorem Amid.behind {w : List Char} {depth' : Nat} {allowed' : Bool} {toks' : List Token}
    (h : s.Amid depth allowed toks (cs ++ (w ++ rest)))
    (ht : s.atToken.Amid depth allowed' toks (w ++ rest)) (hw : w ≠ []) (hstep : s.step = .ok s')
    (hrest : s'.cursor.rest = rest) (hsize : s'.cursor.size = s.atToken.cursor.size)
    (htokens : s'.tokens = toks')
    (hindent : (s'.indent, s'.indents) = (s.atToken.indent, s.atToken.indents))
    (hfinished : s'.finished = s.atToken.finished)
    (hkeys : ∀ k, some k ∈ s'.key :: s'.outerKeys → k.required = false)
    (hdepth : s'.outerKeys.length = depth') :
    Leads s s' ∧ s'.Amid depth' s'.keyAllowed toks' rest := by
  have hroom := ht.room
  rw [ht.rest_eq, List.length_append] at hroom
  constructor
  · refine leads_of_step h.unfinished hstep ?_
    have hlength := List.length_pos_of_ne_nil hw
    rw [hrest, h.rest_eq, List.length_append, List.length_append]
    omega
  · exact
      { unfinished := hfinished.trans ht.unfinished
        rest_eq := hrest
        room := by
          rw [hrest, hsize]
          omega
        levels_eq := hindent.trans ht.levels_eq
        depth_eq := hdepth
        keys := hkeys
        allowed_eq := rfl
        tokens_eq := htokens }

/-- Behind a token of one character. -/
theorem Amid.behind_char {x : Char} {depth' : Nat} {allowed' : Bool} {toks' : List Token}
    (h : s.Amid depth allowed toks (cs ++ x :: rest))
    (ht : s.atToken.Amid depth allowed' toks (x :: rest)) (hstep : s.step = .ok s')
    (hcursor : s'.cursor = s.atToken.cursor.advance 1) (htokens : s'.tokens = toks')
    (hindent : (s'.indent, s'.indents) = (s.atToken.indent, s.atToken.indents))
    (hfinished : s'.finished = s.atToken.finished)
    (hkeys : ∀ k, some k ∈ s'.key :: s'.outerKeys → k.required = false)
    (hdepth : s'.outerKeys.length = depth') :
    Leads s s' ∧ s'.Amid depth' s'.keyAllowed toks' rest :=
  h.behind (w := [x]) ht (List.cons_ne_nil _ _) hstep
    (by rw [hcursor, Cursor.advance_rest, ht.rest_eq]; rfl) (by rw [hcursor, Cursor.advance_size])
    htokens hindent hfinished hkeys hdepth

theorem Amid.tokens_pushed (h : s.Amid depth allowed toks rest) (token : Token) :
    (s.push token).tokens = toks ++ [token] := by
  rw [tokens_push, h.tokens_eq]

/-- A key that was saved is no more needed than those before. -/
theorem Amid.keys_saved (h : s.Amid depth allowed toks rest) :
    ∀ k, some k ∈ (if s.keyAllowed then some s.keyHere else s.key) :: s.outerKeys →
      k.required = false := by
  intro k hk
  rcases List.mem_cons.1 hk with hk | hk
  · split at hk
    · cases hk; rfl
    · exact h.keys k (hk ▸ List.mem_cons_self)
  · exact h.keys k (List.mem_cons_of_mem _ hk)

theorem Amid.keys_dropped (h : s.Amid depth allowed toks rest) :
    ∀ k, some k ∈ none :: s.outerKeys → k.required = false := by
  intro k hk
  rcases List.mem_cons.1 hk with hk | hk
  · cases hk
  · exact h.keys k (List.mem_cons_of_mem _ hk)

/-! ## Brackets and commas -/

theorem Brackets.startsToken {l r : Char} {start finish : Token} (h : Brackets l r start finish) :
    startsToken l = true ∧ startsToken r = true := by
  obtain ⟨rfl, rfl, -⟩ | ⟨rfl, rfl, -⟩ := h <;> exact ⟨rfl, rfl⟩

theorem Amid.opening {l r : Char} {start finish : Token} (hlr : Brackets l r start finish)
    (h : s.Amid depth allowed toks (cs ++ l :: rest)) (hcs : ∀ x ∈ cs, isBlank x = true)
    (htabs : TabsPass (depth != 0) allowed cs) :
    ∃ s', Leads s s' ∧ s'.Amid (depth + 1) true (toks ++ [start]) rest := by
  obtain ⟨hstep, ht⟩ := h.toToken (fun x hx => by cases hx; exact hlr.startsToken.1) hcs htabs
  rw [scanToken_opening hlr ht.rest_eq, scanFlowStart, ht.saveKey_eq] at hstep
  refine ⟨_, h.behind_char ht hstep rfl (ht.tokens_pushed start) rfl rfl ?_
    (congrArg (· + 1) ht.depth_eq)⟩
  intro k hk
  rcases List.mem_cons.1 hk with hk | hk
  · cases hk
  · exact ht.keys_saved k hk

theorem Amid.closing {l r : Char} {start finish : Token} (hlr : Brackets l r start finish)
    (h : s.Amid (depth + 1) allowed toks (cs ++ r :: rest)) (hcs : ∀ x ∈ cs, isBlank x = true) :
    ∃ s', Leads s s' ∧ s'.Amid depth false (toks ++ [finish]) rest := by
  obtain ⟨hstep, ht⟩ := h.toToken (fun x hx => by cases hx; exact hlr.startsToken.2) hcs (.inl rfl)
  have hdepth := ht.depth_eq
  obtain ⟨key, outer, houter⟩ : ∃ key outer, s.atToken.outerKeys = key :: outer :=
    List.exists_cons_of_ne_nil fun hnil => by rw [hnil] at hdepth; cases hdepth
  rw [houter, List.length_cons, Nat.add_right_cancel_iff] at hdepth
  have hdrop : s.atToken.scanFlowEnd finish
      = scanFlowEnd { s.atToken with key := none } finish := by
    rw [scanFlowEnd, scanFlowEnd, ht.dropKey_eq]
    rfl
  rw [scanToken_closing hlr ht.rest_eq, hdrop,
    scanFlowEnd_eq (s := { s.atToken with key := none }) rfl houter finish] at hstep
  exact ⟨_, h.behind_char ht hstep rfl (ht.tokens_pushed finish) rfl rfl
    (fun k hk => ht.keys k (List.mem_cons_of_mem _ (houter ▸ hk))) hdepth⟩

theorem scanToken_comma (hrest : s.cursor.rest = ',' :: rest) :
    s.scanToken = s.scanFlowEntry := by
  rw [scanToken, hrest]
  simp [startsDocumentMark_of_ne]

theorem Amid.comma (h : s.Amid (depth + 1) allowed toks (cs ++ ',' :: rest))
    (hcs : ∀ x ∈ cs, isBlank x = true) :
    ∃ s', Leads s s' ∧ s'.Amid (depth + 1) true (toks ++ [.flowEntry]) rest := by
  obtain ⟨hstep, ht⟩ := h.toToken (fun x hx => by cases hx; rfl) hcs (.inl rfl)
  rw [scanToken_comma ht.rest_eq, scanFlowEntry, ht.dropKey_eq] at hstep
  exact ⟨_, h.behind_char ht hstep rfl (ht.tokens_pushed .flowEntry) rfl rfl ht.keys_dropped
    ht.depth_eq⟩

/-! ## Quoted texts -/

section Quoted

variable {α : Type} {charOf : α → Char} {textOf : α → List Char} {str : List α}

/-- The scanner behind a quoted text. -/
def quotedBehind (s : Scanner) (charOf : α → Char) (textOf : α → List Char) (str : List α) :
    Scanner :=
  { s.push (.scalar .doubleQuoted (String.ofList (str.map charOf))) with
    key := if s.keyAllowed then some s.keyHere else s.key
    cursor := s.cursor.behindQuoted textOf str
    keyAllowed := false }

theorem Amid.scan_quoted (hstr : Cursor.Laid charOf textOf str)
    (h : s.Amid depth allowed toks (Cursor.quotedText textOf str ++ rest)) :
    s.scanToken = .ok (s.quotedBehind charOf textOf str) := by
  have hrest := h.rest_eq
  rw [Cursor.quotedText, List.cons_append] at hrest
  rw [scanToken_quote hrest, scanQuoted, h.saveKey_eq]
  change (s.cursor.readQuoted true >>= _) = _
  rw [Cursor.readQuoted_laid hstr h.room h.rest_eq]
  rfl

theorem Amid.quoted (hstr : Cursor.Laid charOf textOf str)
    (h : s.Amid depth allowed toks (cs ++ (Cursor.quotedText textOf str ++ rest)))
    (hcs : ∀ x ∈ cs, isBlank x = true) (htabs : TabsPass (depth != 0) allowed cs) :
    Leads s (s.atToken.quotedBehind charOf textOf str) ∧
      (s.atToken.quotedBehind charOf textOf str).Amid depth false
        (toks ++ [.scalar .doubleQuoted (String.ofList (str.map charOf))]) rest := by
  obtain ⟨hstep, ht⟩ := h.toToken (fun x hx => by cases hx; rfl) hcs htabs
  rw [Amid.scan_quoted hstr ht] at hstep
  exact h.behind ht (List.cons_ne_nil _ _) hstep (Cursor.rest_behindQuoted ht.rest_eq)
    (Cursor.size_behindQuoted _ _) (ht.tokens_pushed _) rfl rfl ht.keys_saved ht.depth_eq

/-- The possible key of a quoted text is still fresh at a colon near by on its line. -/
theorem quotedBehind_atToken (hstr : Cursor.Spelled charOf textOf str)
    (hrest : ∀ x ∈ rest.head?, startsToken x = true)
    (h : (s.quotedBehind charOf textOf str).Amid depth false toks (cs ++ rest))
    (hallowed : s.keyAllowed = true) (hcs : ∀ x ∈ cs, isSpace x = true)
    (hnear : (Cursor.quotedText textOf str).length + cs.length ≤ 1024) :
    (s.quotedBehind charOf textOf str).atToken.key = some s.keyHere ∧
      (s.quotedBehind charOf textOf str).atToken.lexemes
        = (s.quotedBehind charOf textOf str).lexemes ∧
      (s.quotedBehind charOf textOf str).atToken.count = s.count + 1 := by
  have hblank : ∀ x ∈ cs, isBlank x = true := fun x hx => by rw [isBlank, hcs x hx, Bool.true_or]
  have hbreak := any_isBreak_eq_false hcs
  have htabs : TabsPass (s.quotedBehind charOf textOf str).inFlow
      (s.quotedBehind charOf textOf str).keyAllowed cs := .of_isSpace hcs
  obtain ⟨c, hnext, -, -, hc⟩ := next_blanks hrest _ rfl h.rest_eq hblank htabs
  have hkey : (s.quotedBehind charOf textOf str).next.key = some s.keyHere := by
    rw [hnext]
    exact if_pos hallowed
  have hfresh : (s.quotedBehind charOf textOf str).next.isStale s.keyHere = false := by
    have hcursor : (s.quotedBehind charOf textOf str).cursor
        = s.cursor.advance (Cursor.quotedText textOf str).length := hstr.behindQuoted_eq _
    rw [hnext, hc hbreak, hcursor]
    refine isStale_eq_false rfl ?_
    change s.cursor.index + _ + _ ≤ s.cursor.index + 1024
    omega
  rw [atToken]
  refine ⟨?_, by rw [hnext], by rw [hnext]; rfl⟩
  dsimp only
  rw [hkey, freshKey, Option.any_some, hfresh]
  rfl

theorem scanToken_colon_flow (hflow : s.inFlow = true) (hrest : s.cursor.rest = ':' :: rest) :
    s.scanToken = s.scanValue := by
  rw [scanToken, hrest]
  simp [hflow, startsDocumentMark_of_ne]

/-- A colon behind a possible key. -/
theorem scanValue_flow {k : ImplicitKey} (hflow : s.inFlow = true) (hkey : s.key = some k) :
    s.scanValue = .ok { (s.insertAt k .key).push .value with
      cursor := s.cursor.advance 1, key := none, keyAllowed := false } := by
  have hopen : (s.insertAt k .key).openBlock k.column (some k) .blockMappingStart
      = s.insertAt k .key := by
    have hinside : (s.insertAt k .key).inFlow = true := hflow
    rw [openBlock, hinside]
    rfl
  rw [scanValue, hkey]
  dsimp only
  rw [hopen]
  rfl

/-- The colon behind a possible key, which puts the key token in. -/
theorem Amid.colon {k : ImplicitKey} {toks' : List Token}
    (h : s.Amid (depth + 1) allowed toks (cs ++ ':' :: rest)) (hcs : ∀ x ∈ cs, isBlank x = true)
    (hkey : s.atToken.key = some k) (htokens : (s.atToken.insertAt k .key).tokens = toks') :
    ∃ s', Leads s s' ∧ s'.Amid (depth + 1) false (toks' ++ [.value]) rest := by
  obtain ⟨hstep, ht⟩ := h.toToken (fun x hx => by cases hx; rfl) hcs (.inl rfl)
  have hflow : s.atToken.inFlow = true := by rw [ht.inFlow_eq]; rfl
  rw [scanToken_colon_flow hflow ht.rest_eq, scanValue_flow hflow hkey] at hstep
  exact ⟨_, h.behind_char ht hstep rfl
    ((tokens_push _ .value).trans (congrArg (· ++ [.value]) htokens)) rfl rfl ht.keys_dropped
    ht.depth_eq⟩

/-- **A quoted key** and its colon. -/
theorem Amid.key {gap : List Char} (hstr : Cursor.Spelled charOf textOf str)
    (h : s.Amid (depth + 1) true toks
      (cs ++ (Cursor.quotedText textOf str ++ (gap ++ ':' :: rest))))
    (hcs : ∀ x ∈ cs, isBlank x = true) (hgap : ∀ x ∈ gap, isSpace x = true)
    (hnear : (Cursor.quotedText textOf str).length + gap.length ≤ 1024) :
    ∃ s', Leads s s' ∧ s'.Amid (depth + 1) false
      (toks ++ [.key, .scalar .doubleQuoted (String.ofList (str.map charOf)), .value]) rest := by
  have hblank : ∀ x ∈ gap, isBlank x = true := fun x hx => by rw [isBlank, hgap x hx, Bool.true_or]
  have hcolon : ∀ x ∈ (':' :: rest).head?, startsToken x = true := fun x hx => by cases hx; rfl
  obtain ⟨-, ht⟩ := h.toToken (fun x hx => by cases hx; rfl) hcs (.inl rfl)
  obtain ⟨hleads, hbehind⟩ := Amid.quoted hstr.laid h hcs (.inl rfl)
  obtain ⟨hkey, hlexemes, hcount⟩ :=
    quotedBehind_atToken hstr hcolon hbehind ht.allowed_eq hgap hnear
  have htokens : ((s.atToken.quotedBehind charOf textOf str).atToken.insertAt
      s.atToken.keyHere .key).tokens
        = toks ++ [.key, .scalar .doubleQuoted (String.ofList (str.map charOf))] := by
    have hplace : (s.atToken.quotedBehind charOf textOf str).atToken.count
        - s.atToken.keyHere.number = 1 := by
      rw [hcount]
      exact Nat.add_sub_cancel_left _ _
    rw [tokens, insertAt, hplace, hlexemes, ← ht.tokens_eq]
    simp [quotedBehind, push, tokens, List.insertIdx]
  obtain ⟨s', hleads', hamid⟩ := hbehind.colon hblank hkey htokens
  rw [List.append_assoc] at hamid
  exact ⟨s', hleads.trans hleads', hamid⟩

end Quoted

/-! ## The end of the stream -/

theorem Amid.run_end (h : s.Amid 0 allowed toks cs) (hcs : ∀ x ∈ cs, isBlank x = true)
    (htabs : TabsPass false allowed cs) {n : Nat} (hn : 2 ≤ n) :
    ∃ ls, run n s = .ok ls ∧ ls.map (·.token) = toks ++ [.streamEnd] := by
  obtain ⟨n, rfl⟩ : ∃ k, n = k + 2 := ⟨n - 2, by omega⟩
  have h' : s.Amid 0 allowed toks (cs ++ []) := by rwa [List.append_nil]
  obtain ⟨hstep, ht⟩ := h'.toToken (fun x hx => by cases hx) hcs htabs
  have hscan : s.atToken.scanToken = s.atToken.scanEnd := by rw [scanToken, ht.rest_eq]
  rw [hscan, scanEnd, ht.closeBlocks_eq, ht.dropKey_eq] at hstep
  refine ⟨(s.atToken.push .streamEnd).lexemes.reverse, ?_, ?_⟩
  · rw [run_succ _ h.unfinished, hstep]
    rfl
  · rw [List.map_reverse]
    exact ht.tokens_pushed .streamEnd

end JobMatrix.Yaml.Scanner
