import JobMatrix.Proofs.Yaml.Excerpt.Scan

/-!
# The tokens of an excerpt

Two scanners that are `Inside` each other scan the same token, and are so behind it.
-/

set_option autoImplicit false

namespace JobMatrix.Yaml.Scanner

variable {e : Excerpt} {below : List Token} {n : Nat} {s s' : Scanner} {x : Char} {r : List Char}
  {token : Token}

@[simp] theorem openBlock_cursor (s : Scanner) (column : Nat) (key : Option ImplicitKey)
    (token : Token) : (s.openBlock column key token).cursor = s.cursor := by
  rw [openBlock]
  split
  · cases key <;> rfl
  · rfl

namespace Inside

/-- Over an indicator. -/
theorem advance_one (h : Inside e below n s s') (hrest : s.cursor.rest = x :: r)
    (hx : isBreak x = false) :
    Cursor.Within e s.cursor (s.cursor.advance 1) (s'.cursor.advance 1) :=
  ⟨h.cursor.advance_one hrest hx, Cursor.behind_advance _ 1⟩

/-! ## Flow collections -/

/-- Entering a flow collection.  The possible key in front of it is kept for the level outside. -/
theorem scanFlowStart (h : Inside e below n s s') (hrest : s.cursor.rest = x :: r)
    (hx : isBreak x = false) (htoken : token.isInner = true) :
    Agrees (Inside e below n) (s.scanFlowStart token) (s'.scanFlowStart token) := by
  refine h.saveKey.bind ?_
  rintro t t' ⟨ht, hcursor⟩
  have hpush := (ht.push token htoken).move (ht.advance_one (by rw [hcursor, hrest]) hx) true
  refine .ok { hpush with
    entries := { hpush.entries with
      keys := fun k hk => hpush.entries.keys k (by simpa [Scanner.push] using hk)
      flow := fun _ l hl => by
        cases hl
        exact Token.ne_blockEnd_of_isInner htoken }
    key := rfl
    outerKeys := ?_ }
  change t'.key :: t'.outerKeys = _
  rw [ht.key, ht.outerKeys]
  rfl

/-- Leaving a flow collection.  A scanner has an outer level exactly if the other one has. -/
theorem scanFlowEnd (h : Inside e below n s s') (hrest : s.cursor.rest = x :: r)
    (hx : isBreak x = false) (htoken : token.isInner = true) :
    Agrees (Inside e below n) (s.scanFlowEnd token) (s'.scanFlowEnd token) := by
  refine h.dropKey.bind ?_
  rintro t t' ⟨ht, hcursor⟩
  have hpush := (ht.push token htoken).move (ht.advance_one (by rw [hcursor, hrest]) hx) false
  dsimp only
  split
  · rename_i key outer houter
    change t.outerKeys = key :: outer at houter
    split
    · rename_i key' outer' houter'
      change t'.outerKeys = key' :: outer' at houter'
      rw [ht.outerKeys, houter, List.map_cons] at houter'
      obtain ⟨rfl, rfl⟩ := List.cons.inj houter'
      refine .ok { hpush with
        entries := { hpush.entries with
          keys := fun k hk => hpush.entries.keys k (List.mem_cons_of_mem _ ?_)
          flow := fun _ l hl => by
            cases hl
            exact Token.ne_blockEnd_of_isInner htoken }
        key := rfl
        outerKeys := rfl }
      change some k ∈ t.outerKeys
      rwa [houter]
    · rename_i houter'
      change t'.outerKeys = [] at houter'
      rw [ht.outerKeys, houter] at houter'
      cases houter'
  · rename_i houter
    change t.outerKeys = [] at houter
    split
    · rename_i key' outer' houter'
      change t'.outerKeys = key' :: outer' at houter'
      rw [ht.outerKeys, houter] at houter'
      cases houter'
    · exact .ok hpush

theorem scanFlowEntry (h : Inside e below n s s') (hrest : s.cursor.rest = x :: r)
    (hx : isBreak x = false) : Agrees (Inside e below n) s.scanFlowEntry s'.scanFlowEntry := by
  refine h.dropKey.bind ?_
  rintro t t' ⟨ht, hcursor⟩
  exact .ok ((ht.push .flowEntry rfl).move (ht.advance_one (by rw [hcursor, hrest]) hx) true)

/-! ## Block collections -/

theorem scanBlockEntry (h : Inside e below n s s') (hrest : s.cursor.rest = x :: r)
    (hx : isBreak x = false) : Agrees (Inside e below n) s.scanBlockEntry s'.scanBlockEntry := by
  rw [Scanner.scanBlockEntry, Scanner.scanBlockEntry, h.inFlow, h.keyAllowed, h.cursor.column]
  refine .ite rfl (fun _ => .error) fun _ => ?_
  refine (h.openBlock s.cursor.column .blockSequenceStart rfl).dropKey.bind ?_
  rintro t t' ⟨ht, hcursor⟩
  rw [openBlock_cursor] at hcursor
  exact .ok ((ht.push .blockEntry rfl).move (ht.advance_one (by rw [hcursor, hrest]) hx) true)

/-- A question mark may open a block mapping, which is inside the one around the text. -/
theorem scanKey (h : Inside e below n s s') (hrest : s.cursor.rest = x :: r)
    (hx : isBreak x = false) : Agrees (Inside e below n) s.scanKey s'.scanKey := by
  rw [Scanner.scanKey, Scanner.scanKey, h.inFlow, h.keyAllowed, h.cursor.column]
  refine .ite rfl (fun _ => .error) fun _ => ?_
  refine (h.openBlock s.cursor.column .blockMappingStart rfl).dropKey.bind ?_
  rintro t t' ⟨ht, hcursor⟩
  rw [openBlock_cursor] at hcursor
  have hpush := (ht.push .key rfl).move (ht.advance_one (by rw [hcursor, hrest]) hx) (!t.inFlow)
  exact .ok { hpush with keyAllowed := congrArg (!·) ht.inFlow }

/-- A colon.  Behind a possible key it puts in the tokens in front of that key, which both scanners
have at places that correspond. -/
theorem scanValue (h : Inside e below n s s') (hrest : s.cursor.rest = x :: r)
    (hx : isBreak x = false) : Agrees (Inside e below n) s.scanValue s'.scanValue := by
  rw [Scanner.scanValue, Scanner.scanValue, h.key]
  cases hkey : s.key with
  | some k =>
    have hopened := (h.insertAt hkey .key rfl).openBlock_some hkey k.column .blockMappingStart rfl
    have hrest' : ((s.insertAt k .key).openBlock k.column (some k) .blockMappingStart).cursor.rest
        = x :: r := by rw [openBlock_cursor, ← hrest]; rfl
    exact .ok ((hopened.push .value rfl).forget.move (hopened.advance_one hrest' hx) false)
  | none =>
    dsimp only
    rw [h.inFlow, h.keyAllowed, h.cursor.column]
    refine .ite rfl (fun _ => .error) fun _ => ?_
    have hopened := h.openBlock s.cursor.column .blockMappingStart rfl
    have hpush := (hopened.push .value rfl).move
      (hopened.advance_one (by rw [openBlock_cursor, hrest]) hx)
      (!(s.openBlock s.cursor.column none .blockMappingStart).inFlow)
    exact .ok { hpush with keyAllowed := congrArg (!·) hopened.inFlow }

/-! ## Scalars and properties -/

/-- Anchors, aliases and tags, by what is said about their readers. -/
theorem scanProperty {read read' : Cursor → Except SyntaxError (Token × Cursor)}
    (h : Inside e below n s s')
    (hread : ∀ {c c' : Cursor}, c.rest = s.cursor.rest → Cursor.Inside e c c' →
      Agrees (Alike (Cursor.Within e c)) (read c) (read' c'))
    (htoken : ∀ {c d : Cursor} {token : Token}, read' c = .ok (token, d) → token.isInner = true) :
    Agrees (Inside e below n) (s.scanProperty read) (s'.scanProperty read') := by
  refine h.saveKey.bind ?_
  rintro t t' ⟨ht, hcursor⟩
  intro r hr
  obtain ⟨⟨token, c⟩, hreads, hr⟩ := bind_eq_ok_iff.1 hr
  obtain ⟨⟨_, c'⟩, hreads', rfl, hc⟩ := hread (by rw [hcursor]) ht.cursor _ hreads
  rw [hreads']
  exact Agrees.ok ((ht.push _ (htoken hreads')).move hc false) r hr

theorem scanBlockScalar (h : Inside e below n s s') (hrest : s.cursor.rest = x :: r)
    (hx : isBreak x = false) (style : ScalarStyle) :
    Agrees (Inside e below n) (s.scanBlockScalar style) (s'.scanBlockScalar style) := by
  refine h.dropKey.bind ?_
  rintro t t' ⟨ht, hcursor⟩
  rw [ht.indent]
  refine (ht.cursor.readBlock (style == .literal) t.indent (by rw [hcursor, hrest]) hx).bind ?_
  rintro ⟨_, c⟩ ⟨text, c'⟩ ⟨rfl, hc⟩
  exact .ok ((ht.push (.scalar style text) rfl).move hc true)

theorem scanQuoted (h : Inside e below n s s') (hrest : s.cursor.rest = x :: r)
    (hx : isBreak x = false) (style : ScalarStyle) :
    Agrees (Inside e below n) (s.scanQuoted style) (s'.scanQuoted style) := by
  refine h.saveKey.bind ?_
  rintro t t' ⟨ht, hcursor⟩
  refine (ht.cursor.readQuoted (style == .doubleQuoted) (by rw [hcursor, hrest]) hx).bind ?_
  rintro ⟨_, c⟩ ⟨text, c'⟩ ⟨rfl, hc⟩
  exact .ok ((ht.push (.scalar style text) rfl).move hc false)

theorem scanPlain (h : Inside e below n s s') :
    Agrees (Inside e below n) s.scanPlain s'.scanPlain := by
  refine h.saveKey.bind ?_
  rintro t t' ⟨ht, hcursor⟩
  rw [ht.inFlow, ht.indent]
  refine (ht.cursor.readPlain t.inFlow (t.indent + 1)).bind ?_
  rintro ⟨_, _, c⟩ ⟨text, broken, c'⟩ ⟨rfl, rfl, hc⟩
  exact .ok ((ht.push (.scalar .plain text) rfl).move hc broken)

/-! ## All tokens -/

/-- Whether a plain scalar starts is decided by the next character, which is in the text. -/
theorem startsPlain_append {flow : Bool} {after : List Char} (hr : r ≠ []) :
    startsPlain flow x (r ++ after) = startsPlain flow x r := by
  obtain ⟨y, r, rfl⟩ := List.exists_cons_of_ne_nil hr
  rfl

/-- **The same token is scanned inside a stream.** -/
theorem scanToken (h : Inside e below n s s') (hrest : s.cursor.rest = x :: r)
    (hx : isBreak x = false) : Agrees (Inside e below n) s.scanToken s'.scanToken := by
  obtain ⟨hdirective, hmark⟩ := h.cursor.not_mark hrest
  have hmarks : ∀ mark : Char, mark = '-' ∨ mark = '.' →
      ¬(s.cursor.column = 0 ∧ startsDocumentMark mark (x :: r) = true) := by
    rintro mark hmark' ⟨hcolumn, hstarts⟩
    rw [Cursor.atDocumentMark, hcolumn, hrest] at hmark
    rcases hmark' with rfl | rfl <;> rw [hstarts] at hmark <;> simp at hmark
  have hr := h.cursor.tail_ne hrest hx
  have hword : endsWord (r ++ e.after) = endsWord r := by
    obtain ⟨y, r, rfl⟩ := List.exists_cons_of_ne_nil hr
    rfl
  have hanchor : ∀ {c c' : Cursor} (make : String → Token), c.rest = s.cursor.rest →
      Cursor.Inside e c c' →
      Agrees (Alike (Cursor.Within e c)) (c.readAnchor >>= fun p => .ok (make p.1, p.2))
        (c'.readAnchor >>= fun p => .ok (make p.1, p.2)) := by
    intro c c' make hc hcc'
    refine (hcc'.readAnchor (hc.trans hrest) hx).bind ?_
    rintro ⟨_, d⟩ ⟨name, d'⟩ ⟨rfl, hd⟩
    exact .ok ⟨rfl, hd.toWithin.mono (Cursor.behind_advance c 1)⟩
  have hrest' := h.cursor.rest_cons hrest
  have hdash := h.cursor.startsDocumentMark_rest '-' rfl (by decide)
  have hdot := h.cursor.startsDocumentMark_rest '.' rfl (by decide)
  rw [hrest, hrest'] at hdash hdot
  rw [Scanner.scanToken, Scanner.scanToken, hrest, hrest', h.inFlow, h.cursor.column]
  dsimp only
  rw [hdash, hdot, hword, startsPlain_append hr]
  rw [if_neg hdirective, if_neg hdirective, if_neg (hmarks _ (.inl rfl)),
    if_neg (hmarks _ (.inl rfl)), if_neg (hmarks _ (.inr rfl)), if_neg (hmarks _ (.inr rfl))]
  refine .iteProp (fun _ => h.scanFlowStart hrest hx rfl) fun _ => ?_
  refine .iteProp (fun _ => h.scanFlowStart hrest hx rfl) fun _ => ?_
  refine .iteProp (fun _ => h.scanFlowEnd hrest hx rfl) fun _ => ?_
  refine .iteProp (fun _ => h.scanFlowEnd hrest hx rfl) fun _ => ?_
  refine .iteProp (fun _ => h.scanFlowEntry hrest hx) fun _ => ?_
  refine .iteProp (fun _ => h.scanBlockEntry hrest hx) fun _ => ?_
  refine .iteProp (fun _ => h.scanKey hrest hx) fun _ => ?_
  refine .iteProp (fun _ => h.scanValue hrest hx) fun _ => ?_
  refine .iteProp (fun _ => h.scanProperty (hanchor .alias) fun hread => ?_) fun _ => ?_
  · obtain ⟨name, rfl⟩ := Cursor.readName_eq hread
    rfl
  refine .iteProp (fun _ => h.scanProperty (hanchor .anchor) fun hread => ?_) fun _ => ?_
  · obtain ⟨name, rfl⟩ := Cursor.readName_eq hread
    rfl
  refine .iteProp (fun _ => h.scanProperty (fun hc hcc' => ?_) fun hread => ?_) fun _ => ?_
  · refine (hcc'.readTag s.inFlow (hc.trans hrest) hx).mono ?_
    rintro ⟨_, d⟩ ⟨token, d'⟩ ⟨rfl, hd⟩
    exact ⟨rfl, hd.toWithin.mono (Cursor.behind_advance _ 1)⟩
  · obtain ⟨handle, suffix, rfl⟩ := Cursor.readTag_eq hread
    rfl
  refine .iteProp (fun _ => h.scanBlockScalar hrest hx .literal) fun _ => ?_
  refine .iteProp (fun _ => h.scanBlockScalar hrest hx .folded) fun _ => ?_
  refine .iteProp (fun _ => h.scanQuoted hrest hx .singleQuoted) fun _ => ?_
  refine .iteProp (fun _ => h.scanQuoted hrest hx .doubleQuoted) fun _ => ?_
  exact .iteProp (fun _ => h.scanPlain) fun _ => .error

end Inside

end JobMatrix.Yaml.Scanner
