import JobMatrix.Proofs.Log
import JobMatrix.Proofs.Yaml.Token.Scan
import Mathlib.Data.List.InsertIdx

/-!
# What a step can do

A step edits the scanner in few ways: it adds a token at the end, puts the start of a key or of a
block mapping in at the place of the possible key, remembers a key at the end, and forgets keys.  A
property that all of these keep is `Stable`, and then a step keeps it (`Stable.step`).
-/

set_option autoImplicit false

namespace JobMatrix.Yaml.Scanner

variable {s s' : Scanner} {token : Token}

/-- The second scanner has the tokens of the first, and no other keys. -/
structure Frame (s s' : Scanner) : Prop where
  lexemes : s'.lexemes = s.lexemes
  count : s'.count = s.count
  keys : ∀ k, some k ∈ s'.key :: s'.outerKeys → some k ∈ s.key :: s.outerKeys

/-- A property that every edit keeps. -/
structure Stable (P : Scanner → Prop) : Prop where
  frame : ∀ {s s' : Scanner}, P s → Frame s s' → P s'
  push : ∀ {s : Scanner} (token : Token), P s → P (s.push token)
  insertAt : ∀ {s : Scanner} {k : ImplicitKey} {token : Token},
    token = .key ∨ token = .blockMappingStart → s.key = some k → P s → P (s.insertAt k token)
  save : ∀ {s : Scanner} {k : ImplicitKey}, k.number = s.count → P s → P { s with key := some k }

/-- A possible key that is not required is forgotten. -/
theorem dropKey_eq (h : s.dropKey = .ok s') : s' = { s with key := none } := by
  rw [dropKey] at h
  cases hkey : s.key with
  | none =>
    rw [hkey] at h
    cases h
    cases s
    cases hkey
    rfl
  | some k =>
    rw [hkey] at h
    dsimp only at h
    split at h
    · cases h
    · cases h
      rfl

/-- A possible key is remembered by the number of the token that comes next. -/
theorem saveKey_eq (h : s.saveKey = .ok s') :
    s' = s ∨ ∃ k : ImplicitKey, k.number = s.count ∧ s' = { s with key := some k } := by
  rw [saveKey] at h
  split at h
  · obtain ⟨t, ht, h⟩ := bind_eq_ok_iff.1 h
    cases dropKey_eq ht
    cases h
    exact .inr ⟨_, rfl, rfl⟩
  · cases h
    exact .inl rfl

/-- What is left of a possible key when the stale ones have been given up. -/
def freshKey (s : Scanner) (key : Option ImplicitKey) : Option ImplicitKey :=
  if key.any s.isStale then none else key

/-- The keys that are left were there before. -/
theorem mem_freshKeys {keys : List (Option ImplicitKey)} {k : ImplicitKey}
    (hk : some k ∈ keys.map s.freshKey) : some k ∈ keys := by
  obtain ⟨key, hmem, hkey⟩ := List.mem_map.1 hk
  rw [freshKey] at hkey
  split at hkey
  · cases hkey
  · rwa [hkey] at hmem

/-- Keys that are too old or on another line are given up. -/
theorem dropStaleKeys_eq (h : s.dropStaleKeys = .ok s') :
    s' = { s with key := s.freshKey s.key, outerKeys := s.outerKeys.map s.freshKey } := by
  rw [dropStaleKeys] at h
  split at h
  · cases h
  · cases h
    rfl

theorem dropStaleKeys_cursor (h : s.dropStaleKeys = .ok s') : s'.cursor = s.cursor := by
  rw [dropStaleKeys_eq h]

theorem closeBlocks_cursor (s : Scanner) (column : Int) :
    (s.closeBlocks column).cursor = s.cursor := by
  cases hflow : s.outerKeys with
  | nil => rw [closeBlocks_block column hflow]
  | cons key outer => rw [closeBlocks_flow (by rw [hflow]; exact List.cons_ne_nil _ _)]

namespace Stable

variable {P : Scanner → Prop}

/-- What is no token and no key does not matter. -/
theorem move (hP : Stable P) (h : P s) (hlexemes : s'.lexemes = s.lexemes)
    (hcount : s'.count = s.count) (hkey : s'.key = s.key) (houter : s'.outerKeys = s.outerKeys) :
    P s' :=
  hP.frame h ⟨hlexemes, hcount, fun k hk => by rwa [hkey, houter] at hk⟩

/-! ## Keys -/

theorem forget (hP : Stable P) (h : P s) : P { s with key := none } :=
  hP.frame h ⟨rfl, rfl, fun k hk => List.mem_cons_of_mem _ (by simpa using hk)⟩

theorem dropKey (hP : Stable P) (h : P s) (hdrop : s.dropKey = .ok s') : P s' := by
  rw [dropKey_eq hdrop]
  exact hP.forget h

theorem saveKey (hP : Stable P) (h : P s) (hsave : s.saveKey = .ok s') : P s' := by
  obtain rfl | ⟨k, hk, rfl⟩ := saveKey_eq hsave
  · exact h
  · exact hP.save hk h

theorem dropStaleKeys (hP : Stable P) (h : P s) (hdrop : s.dropStaleKeys = .ok s') : P s' := by
  rw [dropStaleKeys_eq hdrop]
  refine hP.frame h ⟨rfl, rfl, fun k hk => ?_⟩
  change some k ∈ (s.key :: s.outerKeys).map s.freshKey at hk
  exact mem_freshKeys hk

/-! ## Blocks -/

theorem openBlock (hP : Stable P) (h : P s) (column : Nat) (token : Token) :
    P (s.openBlock column none token) := by
  rw [Scanner.openBlock]
  split
  · exact hP.push token (hP.move h rfl rfl rfl rfl)
  · exact h

theorem openBlock_some {k : ImplicitKey} (hP : Stable P) (h : P s) (hkey : s.key = some k)
    (column : Nat) : P (s.openBlock column (some k) .blockMappingStart) := by
  rw [Scanner.openBlock]
  split
  · exact hP.insertAt (.inr rfl) hkey (hP.move h rfl rfl rfl rfl)
  · exact h

theorem repeat_push (hP : Stable P) (token : Token) {s : Scanner} (h : P s) :
    ∀ n : Nat, P (n.repeat (·.push token) s)
  | 0 => h
  | n + 1 => hP.push token (repeat_push hP token h n)

theorem closeBlocks (hP : Stable P) (h : P s) (column : Int) : P (s.closeBlocks column) := by
  rw [Scanner.closeBlocks]
  split
  · exact h
  · rcases closeLoop column s.indents s.indent 0 with ⟨n, indent, indents⟩
    exact hP.repeat_push .blockEnd (s := { s with indent, indents }) (hP.move h rfl rfl rfl rfl) n

/-! ## Tokens -/

/-- On the way to a token only the cursor moves, and a key may start or not. -/
theorem toNextToken (hP : Stable P) : ∀ {n : Nat} {s : Scanner}, P s → P (toNextToken n s)
  | 0, _, h => h
  | n + 1, s, h => by
    rw [toNextToken_succ]
    split
    · exact toNextToken hP (hP.move h rfl rfl rfl rfl)
    · exact hP.move h rfl rfl rfl rfl

theorem scanEnd (hP : Stable P) (h : P s) (hscan : s.scanEnd = .ok s') : P s' := by
  obtain ⟨t, ht, hscan⟩ := bind_eq_ok_iff.1 hscan
  cases hscan
  exact hP.move (hP.push .streamEnd (hP.dropKey (hP.closeBlocks h (-1)) ht)) rfl rfl rfl rfl

theorem scanDirective (hP : Stable P) (h : P s) (hscan : s.scanDirective = .ok s') : P s' := by
  obtain ⟨t, ht, hscan⟩ := bind_eq_ok_iff.1 hscan
  obtain ⟨⟨token, cursor⟩, -, hscan⟩ := bind_eq_ok_iff.1 hscan
  cases hscan
  exact hP.move (hP.push token (hP.dropKey (hP.closeBlocks h (-1)) ht)) rfl rfl rfl rfl

theorem scanDocumentMark (hP : Stable P) (h : P s) (hscan : s.scanDocumentMark token = .ok s') :
    P s' := by
  obtain ⟨t, ht, hscan⟩ := bind_eq_ok_iff.1 hscan
  cases hscan
  exact hP.move (hP.push token (hP.dropKey (hP.closeBlocks h (-1)) ht)) rfl rfl rfl rfl

theorem scanFlowStart (hP : Stable P) (h : P s) (hscan : s.scanFlowStart token = .ok s') :
    P s' := by
  obtain ⟨t, ht, hscan⟩ := bind_eq_ok_iff.1 hscan
  cases hscan
  refine hP.frame (hP.push token (hP.saveKey h ht)) ⟨rfl, rfl, fun k hk => ?_⟩
  rcases List.mem_cons.1 hk with hk | hk
  · cases hk
  · exact hk

theorem scanFlowEnd (hP : Stable P) (h : P s) (hscan : s.scanFlowEnd token = .ok s') : P s' := by
  obtain ⟨t, ht, hscan⟩ := bind_eq_ok_iff.1 hscan
  have h := hP.push token (hP.dropKey h ht)
  dsimp only at hscan
  split at hscan
  · rename_i key outer houter
    cases hscan
    refine hP.frame h ⟨rfl, rfl, fun k hk => List.mem_cons_of_mem _ ?_⟩
    rw [houter]
    exact hk
  · cases hscan
    exact hP.move h rfl rfl rfl rfl

theorem scanFlowEntry (hP : Stable P) (h : P s) (hscan : s.scanFlowEntry = .ok s') : P s' := by
  obtain ⟨t, ht, hscan⟩ := bind_eq_ok_iff.1 hscan
  cases hscan
  exact hP.move (hP.push .flowEntry (hP.dropKey h ht)) rfl rfl rfl rfl

theorem scanBlockEntry (hP : Stable P) (h : P s) (hscan : s.scanBlockEntry = .ok s') : P s' := by
  rw [Scanner.scanBlockEntry] at hscan
  split at hscan
  · cases hscan
  · obtain ⟨t, ht, hscan⟩ := bind_eq_ok_iff.1 hscan
    cases hscan
    exact hP.move (hP.push .blockEntry (hP.dropKey (hP.openBlock h _ _) ht)) rfl rfl rfl rfl

theorem scanKey (hP : Stable P) (h : P s) (hscan : s.scanKey = .ok s') : P s' := by
  rw [Scanner.scanKey] at hscan
  split at hscan
  · cases hscan
  · obtain ⟨t, ht, hscan⟩ := bind_eq_ok_iff.1 hscan
    cases hscan
    exact hP.move (hP.push .key (hP.dropKey (hP.openBlock h _ _) ht)) rfl rfl rfl rfl

/-- Behind a key, the start of the key is put in where it stood. -/
theorem scanValue (hP : Stable P) (h : P s) (hscan : s.scanValue = .ok s') : P s' := by
  rw [Scanner.scanValue] at hscan
  split at hscan
  · rename_i k hkey
    cases hscan
    have hopened := hP.openBlock_some (hP.insertAt (.inl rfl) hkey h) hkey k.column
    exact hP.move (hP.forget (hP.push .value hopened)) rfl rfl rfl rfl
  · split at hscan
    · cases hscan
    · cases hscan
      exact hP.move (hP.push .value (hP.openBlock h _ _)) rfl rfl rfl rfl

theorem scanProperty (hP : Stable P) (h : P s)
    {read : Cursor → Except SyntaxError (Token × Cursor)} (hscan : s.scanProperty read = .ok s') :
    P s' := by
  obtain ⟨t, ht, hscan⟩ := bind_eq_ok_iff.1 hscan
  obtain ⟨⟨token, cursor⟩, -, hscan⟩ := bind_eq_ok_iff.1 hscan
  cases hscan
  exact hP.move (hP.push token (hP.saveKey h ht)) rfl rfl rfl rfl

theorem scanBlockScalar (hP : Stable P) (h : P s) {style : ScalarStyle}
    (hscan : s.scanBlockScalar style = .ok s') : P s' := by
  obtain ⟨t, ht, hscan⟩ := bind_eq_ok_iff.1 hscan
  obtain ⟨⟨text, cursor⟩, -, hscan⟩ := bind_eq_ok_iff.1 hscan
  cases hscan
  exact hP.move (hP.push (.scalar style text) (hP.dropKey h ht)) rfl rfl rfl rfl

theorem scanQuoted (hP : Stable P) (h : P s) {style : ScalarStyle}
    (hscan : s.scanQuoted style = .ok s') : P s' := by
  obtain ⟨t, ht, hscan⟩ := bind_eq_ok_iff.1 hscan
  obtain ⟨⟨text, cursor⟩, -, hscan⟩ := bind_eq_ok_iff.1 hscan
  cases hscan
  exact hP.move (hP.push (.scalar style text) (hP.saveKey h ht)) rfl rfl rfl rfl

theorem scanPlain (hP : Stable P) (h : P s) (hscan : s.scanPlain = .ok s') : P s' := by
  obtain ⟨t, ht, hscan⟩ := bind_eq_ok_iff.1 hscan
  obtain ⟨⟨text, broken, cursor⟩, -, hscan⟩ := bind_eq_ok_iff.1 hscan
  cases hscan
  exact hP.move (hP.push (.scalar .plain text) (hP.saveKey h ht)) rfl rfl rfl rfl

/-- One case for each kind of token, in the order in which they are looked for. -/
theorem scanToken (hP : Stable P) (h : P s) (hscan : s.scanToken = .ok s') : P s' := by
  have hite : ∀ {b : Prop} [Decidable b] {x y : Except SyntaxError Scanner},
      (x = .ok s' → P s') → (y = .ok s' → P s') → (if b then x else y) = .ok s' → P s' := by
    intro b _ x y hx hy h
    split at h
    · exact hx h
    · exact hy h
  rw [Scanner.scanToken] at hscan
  split at hscan
  · exact hP.scanEnd h hscan
  revert hscan
  refine hite (hP.scanDirective h) ?_
  refine hite (hP.scanDocumentMark h) ?_
  refine hite (hP.scanDocumentMark h) ?_
  refine hite (hP.scanFlowStart h) ?_
  refine hite (hP.scanFlowStart h) ?_
  refine hite (hP.scanFlowEnd h) ?_
  refine hite (hP.scanFlowEnd h) ?_
  refine hite (hP.scanFlowEntry h) ?_
  refine hite (hP.scanBlockEntry h) ?_
  refine hite (hP.scanKey h) ?_
  refine hite (hP.scanValue h) ?_
  refine hite (hP.scanProperty h) ?_
  refine hite (hP.scanProperty h) ?_
  refine hite (hP.scanProperty h) ?_
  refine hite (hP.scanBlockScalar h) ?_
  refine hite (hP.scanBlockScalar h) ?_
  refine hite (hP.scanQuoted h) ?_
  refine hite (hP.scanQuoted h) ?_
  exact hite (hP.scanPlain h) fun h => by cases h

/-- **What every edit keeps is kept by a step.** -/
theorem step (hP : Stable P) (h : P s) (hstep : s.step = .ok s') : P s' := by
  obtain ⟨t, ht, hscan⟩ := bind_eq_ok_iff.1 hstep
  exact hP.scanToken (hP.closeBlocks (hP.dropStaleKeys (hP.toNextToken h) ht) _) hscan

end Stable

/-! ## What stays -/

/-- The tokens have been counted. -/
def Counted (s : Scanner) : Prop := s.lexemes.length = s.count

theorem Counted.insertAt (h : s.Counted) (k : ImplicitKey) (token : Token) :
    (s.insertAt k token).Counted := by
  have hle : s.count - k.number ≤ s.lexemes.length := by
    rw [h]
    exact Nat.sub_le _ _
  rw [Counted, Scanner.insertAt, List.length_insertIdx_of_le_length hle, h]

theorem stable_counted : Stable Counted where
  frame h hframe := by rw [Counted, hframe.lexemes, hframe.count, h]
  push _ h := congrArg (· + 1) h
  insertAt _ _ h := h.insertAt _ _
  save _ h := h

/-! ## Runs -/

/-- A run from `s` comes to `s'`, with fuel left to reach the end of the stream. -/
structure Leads (s s' : Scanner) : Prop where
  counted : s.Counted → s'.Counted
  run : ∀ n, s.cursor.rest.length + 2 ≤ n →
    ∃ m, s'.cursor.rest.length + 2 ≤ m ∧ run n s = run m s'

theorem Leads.refl (s : Scanner) : Leads s s := ⟨id, fun n hn => ⟨n, hn, rfl⟩⟩

/-- One run behind the other. -/
theorem Leads.trans {s'' : Scanner} (h : Leads s s') (h' : Leads s' s'') : Leads s s'' := by
  refine ⟨h'.counted ∘ h.counted, fun n hn => ?_⟩
  obtain ⟨m, hm, hrun⟩ := h.run n hn
  obtain ⟨k, hk, hrun'⟩ := h'.run m hm
  exact ⟨k, hk, hrun.trans hrun'⟩

theorem run_succ (n : Nat) (hfinished : s.finished = false) :
    run (n + 1) s = s.step >>= fun s => run n s := by
  rw [run, hfinished]
  rfl

/-- What every edit keeps holds where a run ends. -/
theorem Stable.run {P : Scanner → Prop} (hP : Stable P) {ls : List Lexeme} :
    ∀ {m : Nat} {s : Scanner}, P s → Scanner.run m s = .ok ls → ∃ t, P t ∧ ls = t.lexemes.reverse
  | 0, s, _, h => by cases h
  | m + 1, s, hs, h => by
    rw [Scanner.run] at h
    split at h
    · cases h
      exact ⟨s, hs, rfl⟩
    · obtain ⟨t, ht, h⟩ := bind_eq_ok_iff.1 h
      exact hP.run (hP.step hs ht) h

/-- A step that reads something. -/
theorem leads_of_step (hfinished : s.finished = false) (hstep : s.step = .ok s')
    (hlt : s'.cursor.rest.length < s.cursor.rest.length) : Leads s s' := by
  refine ⟨fun h => stable_counted.step h hstep, fun n hn => ?_⟩
  obtain ⟨n, rfl⟩ : ∃ k, n = k + 1 := ⟨n - 1, by omega⟩
  refine ⟨n, by omega, ?_⟩
  rw [run_succ n hfinished, hstep]
  rfl

/-- On the way to a token a scanner may be cut short. -/
theorem leads_of_next (hfinished : s.finished = false) (hfinished' : s'.finished = false)
    (hnext : s.next = s'.next) (hroom : s.cursor.rest.length ≤ s.cursor.size)
    (hroom' : s'.cursor.rest.length ≤ s'.cursor.size)
    (hle : s'.cursor.rest.length ≤ s.cursor.rest.length) (hcounted : s.Counted → s'.Counted) :
    Leads s s' := by
  refine ⟨hcounted, fun n hn => ?_⟩
  obtain ⟨n, rfl⟩ : ∃ k, n = k + 1 := ⟨n - 1, by omega⟩
  refine ⟨n + 1, by omega, ?_⟩
  rw [run_succ n hfinished, run_succ n hfinished', step_eq hroom, step_eq hroom', hnext]

end JobMatrix.Yaml.Scanner
