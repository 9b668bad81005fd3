import JobMatrix.Proofs.Yaml.Excerpt.Cursor
import JobMatrix.Proofs.Yaml.Excerpt.Reader

/-!
# Reading nodes inside a stream

The tokens of a piece of a stream are read alike by themselves and inside the stream, if no reader
comes to what stands behind them.  `Beside` relates the two places, `Copies` the two readings, and
`readersCopy` is the induction over the seven readers.

By itself the piece is followed by the end of its block; inside the stream another key may follow.
-/

set_option autoImplicit false

namespace JobMatrix.Yaml.Node

variable {α β : Type} {handles : Handles} {block indentless first : Bool} {n n' : Nat}
  {r r' ls ls' : List Lexeme} {stops : List Token}

/-- What follows the tokens by themselves, and what follows them in the stream. -/
structure Boundary (r r' : List Lexeme) : Prop where
  alone : peek r = .blockEnd
  stream : peek r' = .key ∨ peek r' = .blockEnd

/-- The same tokens, in front of `r` and in front of `r'`. -/
def Beside (r r' ls ls' : List Lexeme) : Prop :=
  ∃ zs zs' : List Lexeme, zs.map (·.token) = zs'.map (·.token) ∧ ls = zs ++ r ∧ ls' = zs' ++ r'

/-- A reading that does not come to what follows is repeated in the stream. -/
def Copies (r r' : List Lexeme) (x y : Except SyntaxError (α × List Lexeme)) : Prop :=
  ∀ p, x = .ok p → r.length ≤ p.2.length → ∃ q, y = .ok q ∧ Alike (Beside r r') p q

namespace Beside

theorem refl (r r' : List Lexeme) : Beside r r' r r' := ⟨[], [], rfl, rfl, rfl⟩

theorem length_le (h : Beside r r' ls ls') : r.length ≤ ls.length := by
  obtain ⟨zs, zs', -, rfl, rfl⟩ := h
  rw [List.length_append]
  exact Nat.le_add_left _ _

/-- At the boundary, or in front of it at the same token. -/
theorem cases (h : Beside r r' ls ls') :
    (ls = r ∧ ls' = r') ∨
      peek ls' = peek ls ∧ ls.tail.length < ls.length ∧ Beside r r' ls.tail ls'.tail := by
  obtain ⟨zs, zs', htokens, rfl, rfl⟩ := h
  cases zs with
  | nil =>
    obtain rfl := List.map_eq_nil_iff.1 htokens.symm
    exact .inl ⟨rfl, rfl⟩
  | cons z zs =>
    obtain ⟨z', zs', rfl, hz, htokens⟩ := List.map_eq_cons_iff.1 htokens.symm
    exact .inr ⟨hz, Nat.lt_succ_self _, zs, zs', htokens.symm, rfl, rfl⟩

/-- A test that does not tell a key from the end of a block has the same answer. -/
theorem test {p : Token → Bool} (hr : Boundary r r') (h : Beside r r' ls ls')
    (hp : p .key = p .blockEnd) : p (peek ls') = p (peek ls) := by
  obtain ⟨rfl, rfl⟩ | ⟨hpeek, -⟩ := h.cases
  · rw [hr.alone]
    obtain hkey | hend := hr.stream
    · rw [hkey, hp]
    · rw [hend]
  · rw [hpeek]

/-- In front of another token than the end of a block there are tokens left. -/
theorem tail {t : Token} (hr : Boundary r r') (h : Beside r r' ls ls') (ht : peek ls = t)
    (hne : t ≠ .blockEnd) : Beside r r' ls.tail ls'.tail ∧ ls.tail.length < ls.length := by
  obtain ⟨rfl, rfl⟩ | ⟨-, hlt, htail⟩ := h.cases
  · exact absurd (ht.symm.trans hr.alone) hne
  · exact ⟨htail, hlt⟩

end Beside

namespace Copies

variable {x y x' y' : Except SyntaxError (α × List Lexeme)}

theorem ok {p q : α × List Lexeme} (h : Alike (Beside r r') p q) : Copies r r' (.ok p) (.ok q) := by
  rintro _ ⟨⟩ -
  exact ⟨q, rfl, h⟩

theorem failAt {problem : String} : Copies r r' (failAt (α := α × List Lexeme) ls problem) y := by
  intro p hp
  cases ls <;> cases hp

/-- A reading that comes to what follows. -/
theorem of_tail (hr : Boundary r r') (hx : Leaves r.tail x) : Copies r r' x y := by
  intro p hp hlength
  have hle := (hx p hp).length_le
  have hne : r ≠ [] := by
    rintro rfl
    cases hr.alone
  have hpos := List.length_pos_iff.2 hne
  rw [List.length_tail] at hle
  omega

theorem bind {f g : α × List Lexeme → Except SyntaxError (β × List Lexeme)} (hx : Copies r r' x y)
    (hleaves : ∀ p, Leaves p.2 (f p))
    (hf : ∀ p q, x = .ok p → Alike (Beside r r') p q → Copies r r' (f p) (g q)) :
    Copies r r' (x >>= f) (y >>= g) := by
  intro z hz hlength
  obtain ⟨p, hp, hz⟩ := bind_eq_ok_iff.1 hz
  obtain ⟨q, rfl, hq⟩ := hx p hp (Nat.le_trans hlength (hleaves p z hz).length_le)
  exact hf p q hp hq z hz hlength

theorem map {f : α → β} (hx : Copies r r' x y) :
    Copies r r' (x >>= fun p => .ok (f p.1, p.2)) (y >>= fun q => .ok (f q.1, q.2)) := by
  refine hx.bind (fun p => .ok (List.suffix_refl p.2)) ?_
  rintro ⟨a, p⟩ ⟨_, q⟩ - ⟨rfl, h⟩
  exact .ok ⟨rfl, h⟩

theorem ite {b b' : Bool} (hb : b' = b) (hx : b = true → Copies r r' x y)
    (hy : b = false → Copies r r' x' y') :
    Copies r r' (if b then x else x') (if b' then y else y') := by
  rw [hb]
  cases b with
  | true => exact hx rfl
  | false => exact hy rfl

end Copies

/-! ## Parts of the readers -/

theorem readOr_copies {f g : List Lexeme → Except SyntaxError (Node String × List Lexeme)}
    (h : Beside r r' ls ls') (hstops : stops.contains (peek ls') = stops.contains (peek ls))
    (hf : Copies r r' (f ls) (g ls')) : Copies r r' (readOr stops f ls) (readOr stops g ls') :=
  .ite hstops (fun _ => .ok ⟨rfl, h⟩) fun _ => hf

theorem readValue_copies {f g : List Lexeme → Except SyntaxError (Node String × List Lexeme)}
    (hr : Boundary r r') (h : Beside r r' ls ls')
    (hstops : stops.contains .key = stops.contains .blockEnd)
    (hf : Beside r r' ls.tail ls'.tail → Copies r r' (f ls.tail) (g ls'.tail)) :
    Copies r r' (readValue stops f ls) (readValue stops g ls') := by
  refine .ite (h.test (p := (· == .value)) hr rfl) (fun hvalue => ?_) fun _ => .ok ⟨rfl, h⟩
  have htail := (h.tail hr (eq_of_beq hvalue) (by simp)).1
  exact readOr_copies htail (htail.test hr hstops) (hf htail)

theorem readTagToken_copies {handle : String} {suffix : List UInt8} {tag : Tag}
    (h : readTagToken handles handle suffix ls = .ok tag) :
    readTagToken handles handle suffix ls' = .ok tag := by
  rw [readTagToken] at h ⊢
  split at h
  · rename_i hempty
    rw [if_pos hempty]
    exact h
  · rename_i hempty
    rw [if_neg hempty]
    split at h
    · exact h
    · cases ls <;> cases h

/-- A tag, if one comes next. -/
theorem tag_copies {σ : Type} {whole whole' : List Lexeme} {present : Tag → σ} {absent : σ}
    (hr : Boundary r r') (h : Beside r r' ls ls') :
    Copies r r'
      (match peek ls with
        | .tag handle suffix => readTagToken handles handle suffix whole >>= fun tag =>
            .ok (present tag, ls.tail)
        | _ => .ok (absent, ls))
      (match peek ls' with
        | .tag handle suffix => readTagToken handles handle suffix whole' >>= fun tag =>
            .ok (present tag, ls'.tail)
        | _ => .ok (absent, ls')) := by
  obtain ⟨rfl, rfl⟩ | ⟨hpeek, -, htail⟩ := h.cases
  · rw [hr.alone]
    obtain hkey | hend := hr.stream
    · rw [hkey]
      exact .ok ⟨rfl, h⟩
    · rw [hend]
      exact .ok ⟨rfl, h⟩
  · rw [hpeek]
    split
    · intro p hp _
      obtain ⟨tag, htag, hp⟩ := bind_eq_ok_iff.1 hp
      cases hp
      rw [readTagToken_copies htag]
      exact ⟨_, rfl, rfl, htail⟩
    · exact .ok ⟨rfl, h⟩

theorem anchor_copies {σ : Type} {present : String → σ} {absent : σ}
    (hr : Boundary r r') (h : Beside r r' ls ls') :
    Copies r r'
      (match peek ls with
        | .anchor name => .ok (present name, ls.tail)
        | _ => .ok (absent, ls))
      (match peek ls' with
        | .anchor name => .ok (present name, ls'.tail)
        | _ => .ok (absent, ls')) := by
  obtain ⟨rfl, rfl⟩ | ⟨hpeek, -, htail⟩ := h.cases
  · rw [hr.alone]
    obtain hkey | hend := hr.stream
    · rw [hkey]
      exact .ok ⟨rfl, h⟩
    · rw [hend]
      exact .ok ⟨rfl, h⟩
  · rw [hpeek]
    split
    · exact .ok ⟨rfl, htail⟩
    · exact .ok ⟨rfl, h⟩

theorem readProperties_copies (hr : Boundary r r') (h : Beside r r' ls ls') :
    Copies r r' (readProperties handles ls) (readProperties handles ls') := by
  obtain ⟨rfl, rfl⟩ | ⟨hpeek, -, htail⟩ := h.cases
  · have hstream : readProperties handles ls' = .ok ({}, ls') := by
      rw [readProperties]
      obtain hkey | hend := hr.stream
      · rw [hkey]
      · rw [hend]
    rw [hstream, readProperties, hr.alone]
    exact .ok ⟨rfl, h⟩
  rw [readProperties, readProperties, hpeek]
  split
  · exact tag_copies hr htail
  · intro p hp hlength
    obtain ⟨tag, htag, hp⟩ := bind_eq_ok_iff.1 hp
    rw [readTagToken_copies htag]
    exact anchor_copies hr htail p hp hlength
  · exact .ok ⟨rfl, h⟩

/-! ## All readers -/

/-- The seven readers are repeated in the stream, if there is fuel for the tokens in front of the
boundary. -/
structure ReadersCopy (handles : Handles) (r r' : List Lexeme) (n n' : Nat) : Prop where
  read : ∀ block indentless {ls ls'}, Beside r r' ls ls' → 2 * ls.length < min n n' + 2 * r.length →
    Copies r r' (read handles block indentless n ls) (Node.read handles block indentless n' ls')
  blockItems : ∀ {ls ls'}, Beside r r' ls ls' → 2 * ls.length + 1 < min n n' + 2 * r.length →
    Copies r r' (readBlockItems handles n ls) (readBlockItems handles n' ls')
  indentlessItems : ∀ {ls ls'}, Beside r r' ls ls' → 2 * ls.length ≤ min n n' + 2 * r.length →
    Copies r r' (readIndentlessItems handles n ls) (readIndentlessItems handles n' ls')
  blockEntries : ∀ {ls ls'}, Beside r r' ls ls' → 2 * ls.length + 1 < min n n' + 2 * r.length →
    Copies r r' (readBlockEntries handles n ls) (readBlockEntries handles n' ls')
  flowItems : ∀ first {ls ls'}, Beside r r' ls ls' →
    2 * ls.length + 1 < min n n' + 2 * r.length →
    Copies r r' (readFlowItems handles first n ls) (readFlowItems handles first n' ls')
  flowPair : ∀ {ls ls'}, Beside r r' ls ls' → 2 * ls.length + 1 < min n n' + 2 * r.length →
    Copies r r' (readFlowPair handles n ls) (readFlowPair handles n' ls')
  flowEntries : ∀ first {ls ls'}, Beside r r' ls ls' →
    2 * ls.length + 1 < min n n' + 2 * r.length →
    Copies r r' (readFlowEntries handles first n ls) (readFlowEntries handles first n' ls')

namespace ReadersCopy

theorem readContent_boundary {p : Properties String}
    (hpeek : peek ls = .key ∨ peek ls = .blockEnd) :
    readContent handles block indentless n (p, ls) =
      if p.anchor.isSome || p.tag.isSome then .ok (.scalar p .plain "", ls)
      else failAt ls "did not find expected node content" := by
  rw [Node.readContent]
  dsimp only
  obtain hpeek | hpeek := hpeek
  · rw [hpeek]
    simp
  · rw [hpeek]
    simp

theorem readContent (h : ReadersCopy handles r r' n n') (hr : Boundary r r')
    {p q : Properties String × List Lexeme} (hp : Alike (Beside r r') p q)
    (hfuel : 2 * p.2.length ≤ min n n' + 2 * r.length) :
    Copies r r' (readContent handles block indentless n p)
      (Node.readContent handles block indentless n' q) := by
  obtain ⟨p, ls⟩ := p
  obtain ⟨_, ls'⟩ := q
  obtain ⟨rfl, hbeside⟩ := hp
  dsimp only at hbeside hfuel
  obtain ⟨rfl, rfl⟩ | ⟨hpeek, hlt, htail⟩ := hbeside.cases
  · rw [readContent_boundary (.inr hr.alone), readContent_boundary hr.stream]
    exact .ite rfl (fun _ => .ok ⟨rfl, hbeside⟩) fun _ => .failAt
  rw [Node.readContent, Node.readContent]
  dsimp only
  rw [hpeek]
  split
  · exact .ok ⟨rfl, htail⟩
  · exact (h.flowItems true htail (by omega)).map
  · exact (h.flowEntries true htail (by omega)).map
  · refine .ite rfl (fun _ => ?_) fun _ => .ite rfl (fun _ => ?_) fun _ => .ite rfl (fun _ => ?_)
      fun _ => .ite rfl (fun _ => .ok ⟨rfl, hbeside⟩) fun _ => .failAt
    · exact (h.indentlessItems hbeside hfuel).map
    · exact (h.blockItems htail (by omega)).map
    · exact (h.blockEntries htail (by omega)).map

variable {p : α × List Lexeme}

theorem read_succ (h : ReadersCopy handles r r' n n') (hr : Boundary r r')
    (hbeside : Beside r r' ls ls') (hfuel : 2 * ls.length ≤ min n n' + 2 * r.length) :
    Copies r r' (Node.read handles block indentless (n + 1) ls)
      (Node.read handles block indentless (n' + 1) ls') := by
  have hleave := readersLeave handles n
  have hnode : Copies r r' (readProperties handles ls >>= Node.readContent handles block indentless n)
      (readProperties handles ls' >>= Node.readContent handles block indentless n') := by
    refine (readProperties_copies hr hbeside).bind
      (fun p => hleave.readContent (List.tail_suffix p.2) fun _ => List.suffix_refl p.2) ?_
    intro p q hp hpq
    refine h.readContent hr hpq ?_
    obtain rfl | ⟨hle, -⟩ := readProperties_leaves hp
    · exact hfuel
    · have hle := hle.length_le
      rw [List.length_tail] at hle
      omega
  rw [Node.read_succ, Node.read_succ]
  obtain ⟨rfl, rfl⟩ | ⟨hpeek, -, htail⟩ := hbeside.cases
  · rw [hr.alone]
    obtain hkey | hend := hr.stream
    · rw [hkey]
      exact hnode
    · rw [hend]
      exact hnode
  · rw [hpeek]
    split
    · exact .ok ⟨rfl, htail⟩
    · exact hnode

theorem blockItems_succ (h : ReadersCopy handles r r' n n') (hr : Boundary r r')
    (hbeside : Beside r r' ls ls') (hfuel : 2 * ls.length < min n n' + 2 * r.length) :
    Copies r r' (readBlockItems handles (n + 1) ls) (readBlockItems handles (n' + 1) ls') := by
  have hleave := readersLeave handles n
  obtain ⟨rfl, rfl⟩ | ⟨hpeek, hlt, htail⟩ := hbeside.cases
  · exact .of_tail hr ((readersLeave handles (n + 1)).blockItems ls)
  rw [readBlockItems_succ, readBlockItems_succ, hpeek]
  refine .ite rfl (fun _ => ?_) fun _ => .ite rfl (fun _ => .ok ⟨rfl, htail⟩) fun _ => .failAt
  obtain ⟨hls, hls'⟩ | ⟨hpeek', -⟩ := htail.cases
  · -- An item without content, and then the end of the block.
    refine .of_tail hr ?_
    rw [readOr, hls, hr.alone]
    exact (hleave.blockItems r).map
  · refine .bind (readOr_copies htail (by rw [hpeek']) (h.read true false htail (by omega)))
      (fun p => (hleave.blockItems p.2).of_tail.map) ?_
    rintro ⟨item, ls₁⟩ ⟨_, ls₁'⟩ hitem ⟨rfl, hbeside₁⟩
    have hle := (ReadersLeave.readOr (hleave.read true false) ls.tail _ hitem).length_le
    exact (h.blockItems hbeside₁ (by dsimp only at hle ⊢; omega)).map

theorem indentlessItems_succ (h : ReadersCopy handles r r' n n') (hr : Boundary r r')
    (hbeside : Beside r r' ls ls') (hfuel : 2 * ls.length ≤ min n n' + 1 + 2 * r.length) :
    Copies r r' (readIndentlessItems handles (n + 1) ls)
      (readIndentlessItems handles (n' + 1) ls') := by
  have hleave := readersLeave handles n
  rw [readIndentlessItems_succ, readIndentlessItems_succ]
  refine .ite (hbeside.test (p := (· == .blockEntry)) hr rfl) (fun hentry => ?_)
    fun _ => .ok ⟨rfl, hbeside⟩
  obtain ⟨htail, hlt⟩ := hbeside.tail hr (eq_of_beq hentry) (by simp)
  refine .bind (readOr_copies htail (htail.test hr rfl) (h.read true false htail (by omega)))
    (fun p => (hleave.indentlessItems p.2).map) ?_
  rintro ⟨item, ls₁⟩ ⟨_, ls₁'⟩ hitem ⟨rfl, hbeside₁⟩
  have hle := (ReadersLeave.readOr (hleave.read true false) ls.tail _ hitem).length_le
  exact (h.indentlessItems hbeside₁ (by dsimp only at hle ⊢; omega)).map

/-- A key and what follows it. -/
theorem entry {f g : Node String × Node String × List Lexeme →
      Except SyntaxError (α × List Lexeme)} {keyStops valueStops : List Token} {b i : Bool}
    (h : ReadersCopy handles r r' n n') (hr : Boundary r r') (hbeside : Beside r r' ls ls')
    (hkey : keyStops.contains .key = keyStops.contains .blockEnd)
    (hvalue : valueStops.contains .key = valueStops.contains .blockEnd)
    (hfuel : 2 * ls.length < min n n' + 2 * r.length)
    (hleaves : ∀ p, Leaves p.2.2 (f p))
    (hf : ∀ k v ls₁ ls₁', ls₁.length ≤ ls.length → Beside r r' ls₁ ls₁' →
      Copies r r' (f (k, v, ls₁)) (g (k, v, ls₁'))) :
    Copies r r'
      (Node.readOr keyStops (Node.read handles b i n) ls >>= fun p =>
        Node.readValue valueStops (Node.read handles b i n) p.2 >>= fun q => f (p.1, q.1, q.2))
      (Node.readOr keyStops (Node.read handles b i n') ls' >>= fun p =>
        Node.readValue valueStops (Node.read handles b i n') p.2 >>= fun q => g (p.1, q.1, q.2)) := by
  have hread := (readersLeave handles n).read b i
  refine .bind (readOr_copies hbeside (hbeside.test hr hkey) (h.read b i hbeside hfuel))
    (fun p => (ReadersLeave.readValue hread p.2).bind fun q => hleaves _) ?_
  rintro ⟨_, ls₁⟩ ⟨k, ls₁'⟩ hk ⟨rfl, hbeside₁⟩
  have hle₁ := (ReadersLeave.readOr hread ls _ hk).length_le
  dsimp only at hle₁
  refine .bind (readValue_copies hr hbeside₁ hvalue fun htail => h.read b i htail ?_)
    (fun q => hleaves _) ?_
  · dsimp only
    rw [List.length_tail]
    omega
  rintro ⟨v, ls₂⟩ ⟨_, ls₂'⟩ hv ⟨rfl, hbeside₂⟩
  have hle₂ := (ReadersLeave.readValue hread ls₁ _ hv).length_le
  exact hf _ _ ls₂ ls₂' (Nat.le_trans hle₂ hle₁) hbeside₂

theorem blockEntries_succ (h : ReadersCopy handles r r' n n') (hr : Boundary r r')
    (hbeside : Beside r r' ls ls') (hfuel : 2 * ls.length < min n n' + 2 * r.length) :
    Copies r r' (readBlockEntries handles (n + 1) ls) (readBlockEntries handles (n' + 1) ls') := by
  obtain ⟨rfl, rfl⟩ | ⟨hpeek, hlt, htail⟩ := hbeside.cases
  · exact .of_tail hr ((readersLeave handles (n + 1)).blockEntries ls)
  rw [readBlockEntries_succ, readBlockEntries_succ, hpeek]
  refine .ite rfl (fun _ => ?_) fun _ => .ite rfl (fun _ => .ok ⟨rfl, htail⟩) fun _ => .failAt
  refine h.entry (f := fun e => readBlockEntries handles n e.2.2 >>= fun es =>
      .ok ((e.1, e.2.1) :: es.1, es.2))
    (g := fun e => readBlockEntries handles n' e.2.2 >>= fun es =>
      .ok ((e.1, e.2.1) :: es.1, es.2)) hr htail rfl rfl (by omega)
    (fun p => ((readersLeave handles n).blockEntries p.2.2).of_tail.map) ?_
  intro k v ls₁ ls₁' hle hbeside₁
  exact (h.blockEntries hbeside₁ (by omega)).map

theorem flowPair_succ (h : ReadersCopy handles r r' n n') (hr : Boundary r r')
    (hbeside : Beside r r' ls ls') (hfuel : 2 * ls.length < min n n' + 2 * r.length) :
    Copies r r' (readFlowPair handles (n + 1) ls) (readFlowPair handles (n' + 1) ls') := by
  have hleave := readersLeave handles n
  obtain ⟨rfl, rfl⟩ | ⟨hpeek, -, htail⟩ := hbeside.cases
  · exact .of_tail hr ((readersLeave handles (n + 1)).flowPair ls)
  rw [readFlowPair_succ, readFlowPair_succ, hpeek]
  refine .bind (.ite rfl (fun _ => .ok ⟨rfl, htail⟩) fun _ => h.read false false hbeside hfuel)
    (fun p => (ReadersLeave.readValue (hleave.read false false) p.2).map) ?_
  rintro ⟨k, ls₁⟩ ⟨_, ls₁'⟩ hk ⟨rfl, hbeside₁⟩
  have hle : ls₁.length ≤ ls.length := by
    have hsuffix : Leaves ls (if [Token.value, .flowEntry, .flowSequenceEnd].contains (peek ls) then
        .ok (empty, ls.tail) else Node.read handles false false n ls) :=
      .ite (fun _ => .ok (List.tail_suffix ls)) fun _ => hleave.read false false ls
    exact (hsuffix _ hk).length_le
  refine Copies.map (readValue_copies hr hbeside₁ rfl fun htail₁ => h.read false false htail₁ ?_)
  dsimp only
  rw [List.length_tail]
  omega

theorem flowItems_succ (h : ReadersCopy handles r r' n n') (hr : Boundary r r')
    (hbeside : Beside r r' ls ls') (hfuel : 2 * ls.length < min n n' + 2 * r.length) :
    Copies r r' (readFlowItems handles first (n + 1) ls)
      (readFlowItems handles first (n' + 1) ls') := by
  have hleave := readersLeave handles n
  obtain ⟨rfl, rfl⟩ | ⟨hpeek, hlt, htail⟩ := hbeside.cases
  · exact .of_tail hr ((readersLeave handles (n + 1)).flowItems first ls)
  rw [readFlowItems_succ, readFlowItems_succ, hpeek]
  refine .ite rfl (fun _ => .ok ⟨rfl, htail⟩) fun _ => .ite rfl (fun _ => .failAt) fun _ => ?_
  obtain ⟨ls₀, ls₀', hls, hls', hle, hinner⟩ : ∃ ls₀ ls₀', (if first then ls else ls.tail) = ls₀ ∧
      (if first then ls' else ls'.tail) = ls₀' ∧ ls₀.length ≤ ls.length ∧ Beside r r' ls₀ ls₀' := by
    cases first with
    | true => exact ⟨ls, ls', rfl, rfl, Nat.le_refl _, hbeside⟩
    | false => exact ⟨ls.tail, ls'.tail, rfl, rfl, Nat.le_of_lt hlt, htail⟩
  rw [hls, hls']
  dsimp only
  obtain ⟨rfl, rfl⟩ | ⟨hpeek₀, hlt₀, htail₀⟩ := hinner.cases
  · refine .of_tail hr ?_
    rw [hr.alone]
    exact (hleave.read_tail false ls₀).bind fun p => (hleave.flowItems false p.2).of_tail.map
  rw [hpeek₀]
  refine .ite rfl (fun _ => .ok ⟨rfl, htail₀⟩) fun _ => .ite rfl (fun _ => ?_) fun _ => ?_
  · refine .bind (h.flowPair htail₀ (by omega)) (fun p => (hleave.flowItems false p.2).of_tail.map) ?_
    rintro ⟨_, ls₁⟩ ⟨pair, ls₁'⟩ hpair ⟨rfl, hbeside₁⟩
    have hle₁ := (hleave.flowPair ls₀.tail _ hpair).length_le
    rw [List.length_tail] at hle₁
    exact (h.flowItems false hbeside₁ (by dsimp only at hle₁ ⊢; omega)).map
  · refine .bind (h.read false false hinner (by omega))
      (fun p => (hleave.flowItems false p.2).of_tail.map) ?_
    rintro ⟨_, ls₁⟩ ⟨item, ls₁'⟩ hitem ⟨rfl, hbeside₁⟩
    have hle₁ := (hleave.read_tail false ls₀ _ hitem).length_le
    exact (h.flowItems false hbeside₁ (by dsimp only at hle₁ ⊢; omega)).map

theorem flowEntries_succ (h : ReadersCopy handles r r' n n') (hr : Boundary r r')
    (hbeside : Beside r r' ls ls') (hfuel : 2 * ls.length < min n n' + 2 * r.length) :
    Copies r r' (readFlowEntries handles first (n + 1) ls)
      (readFlowEntries handles first (n' + 1) ls') := by
  have hleave := readersLeave handles n
  obtain ⟨rfl, rfl⟩ | ⟨hpeek, hlt, htail⟩ := hbeside.cases
  · exact .of_tail hr ((readersLeave handles (n + 1)).flowEntries first ls)
  rw [readFlowEntries_succ, readFlowEntries_succ, hpeek]
  refine .ite rfl (fun _ => .ok ⟨rfl, htail⟩) fun _ => .ite rfl (fun _ => .failAt) fun _ => ?_
  obtain ⟨ls₀, ls₀', hls, hls', hle, hinner⟩ : ∃ ls₀ ls₀', (if first then ls else ls.tail) = ls₀ ∧
      (if first then ls' else ls'.tail) = ls₀' ∧ ls₀.length ≤ ls.length ∧ Beside r r' ls₀ ls₀' := by
    cases first with
    | true => exact ⟨ls, ls', rfl, rfl, Nat.le_refl _, hbeside⟩
    | false => exact ⟨ls.tail, ls'.tail, rfl, rfl, Nat.le_of_lt hlt, htail⟩
  rw [hls, hls']
  dsimp only
  obtain ⟨rfl, rfl⟩ | ⟨hpeek₀, hlt₀, htail₀⟩ := hinner.cases
  · refine .of_tail hr ?_
    rw [hr.alone]
    exact (hleave.read_tail false ls₀).bind fun p => (hleave.flowEntries false p.2).of_tail.map
  rw [hpeek₀]
  refine .ite rfl (fun _ => .ok ⟨rfl, htail₀⟩) fun _ => .ite rfl (fun _ => ?_) fun _ => ?_
  · refine h.entry (f := fun e => readFlowEntries handles false n e.2.2 >>= fun es =>
        .ok ((e.1, e.2.1) :: es.1, es.2))
      (g := fun e => readFlowEntries handles false n' e.2.2 >>= fun es =>
        .ok ((e.1, e.2.1) :: es.1, es.2)) hr htail₀ rfl rfl (by omega)
      (fun p => (hleave.flowEntries false p.2.2).of_tail.map) ?_
    intro k v ls₁ ls₁' hle₁ hbeside₁
    exact (h.flowEntries false hbeside₁ (by omega)).map
  · refine .bind (h.read false false hinner (by omega))
      (fun p => (hleave.flowEntries false p.2).of_tail.map) ?_
    rintro ⟨_, ls₁⟩ ⟨k, ls₁'⟩ hk ⟨rfl, hbeside₁⟩
    have hle₁ := (hleave.read_tail false ls₀ _ hk).length_le
    exact (h.flowEntries false hbeside₁ (by dsimp only at hle₁ ⊢; omega)).map

/-- Without fuel there are no tokens in front of the boundary. -/
theorem zero (hr : Boundary r r') (hn : min n n' = 0) : ReadersCopy handles r r' n n' where
  read _ _ _ _ h hfuel := absurd h.length_le (by omega)
  blockItems h hfuel := absurd h.length_le (by omega)
  indentlessItems {ls ls'} h hfuel := by
    have hend : ∀ {m : Nat} {ls : List Lexeme}, peek ls ≠ .blockEntry →
        readIndentlessItems handles m ls = .ok ([], ls) := by
      intro m ls hpeek
      cases m with
      | zero => rfl
      | succ m =>
        rw [readIndentlessItems_succ, if_neg]
        exact fun hentry => hpeek (eq_of_beq hentry)
    obtain ⟨rfl, rfl⟩ | ⟨-, hlt, htail⟩ := h.cases
    · rw [hend (by rw [hr.alone]; simp), hend (by rcases hr.stream with h | h <;> rw [h] <;> simp)]
      exact .ok ⟨rfl, h⟩
    · exact absurd htail.length_le (by omega)
  blockEntries h hfuel := absurd h.length_le (by omega)
  flowItems _ _ _ h hfuel := absurd h.length_le (by omega)
  flowPair h hfuel := absurd h.length_le (by omega)
  flowEntries _ _ _ h hfuel := absurd h.length_le (by omega)

theorem succ (h : ReadersCopy handles r r' n n') (hr : Boundary r r') :
    ReadersCopy handles r r' (n + 1) (n' + 1) where
  read _ _ _ _ hbeside hfuel := h.read_succ hr hbeside (by omega)
  blockItems hbeside hfuel := h.blockItems_succ hr hbeside (by omega)
  indentlessItems hbeside hfuel := h.indentlessItems_succ hr hbeside (by omega)
  blockEntries hbeside hfuel := h.blockEntries_succ hr hbeside (by omega)
  flowItems _ _ _ hbeside hfuel := h.flowItems_succ hr hbeside (by omega)
  flowPair hbeside hfuel := h.flowPair_succ hr hbeside (by omega)
  flowEntries _ _ _ hbeside hfuel := h.flowEntries_succ hr hbeside (by omega)

end ReadersCopy

/-- **Nodes are read alike by themselves and in a stream.** -/
theorem readersCopy (handles : Handles) (hr : Boundary r r') :
    ∀ n n', ReadersCopy handles r r' n n'
  | 0, n' => .zero hr (Nat.zero_min n')
  | n + 1, 0 => .zero hr (Nat.min_zero (n + 1))
  | n + 1, n' + 1 => (readersCopy handles hr n n').succ hr

/-! ## The entries of a block mapping -/

/-- Entries that are all of a block mapping by themselves are entries in the stream, where others
may follow. -/
theorem readBlockEntries_beside {e e' : Lexeme} (hr : Boundary [e, e'] r') :
    ∀ {n : Nat} (n' : Nat) {ls ls' : List Lexeme} {es : List (Node String × Node String)},
      Beside [e, e'] r' ls ls' → 2 * ls.length < min n n' + 4 →
      readBlockEntries handles n ls = .ok (es, [e']) →
        es.length + 2 ≤ ls.length ∧ readBlockEntries handles n' ls'
          = (readBlockEntries handles (n' - es.length) r').map fun q => (es ++ q.1, q.2)
  | 0, n', ls, ls', es, hbeside, hfuel, h => by
    cases ls <;> cases h
  | n + 1, 0, ls, ls', es, hbeside, hfuel, h => by
    have hle : 2 ≤ ls.length := hbeside.length_le
    omega
  | n + 1, n' + 1, ls, ls', es, hbeside, hfuel, h => by
    have hcopy := readersCopy handles hr n n'
    have hread := (readersLeave handles n).read true true
    obtain ⟨rfl, rfl⟩ | ⟨hpeek, hlt, htail⟩ := hbeside.cases
    · have hend : readBlockEntries handles (n + 1) [e, e'] = .ok ([], [e']) := by
        rw [readBlockEntries_succ, hr.alone]
        rfl
      rw [hend] at h
      cases h
      refine ⟨Nat.le_refl _, ?_⟩
      cases readBlockEntries handles (n' + 1) ls' <;> rfl
    rw [readBlockEntries_succ] at h ⊢
    rw [hpeek]
    split at h
    · rename_i hkey
      obtain ⟨k, hk, h⟩ := bind_eq_ok_iff.1 h
      obtain ⟨v, hv, h⟩ := bind_eq_ok_iff.1 h
      obtain ⟨⟨es', _⟩, hes, h⟩ := bind_eq_ok_iff.1 h
      cases h
      -- The mapping goes on behind the entry, so the entry ends in front of the boundary.
      obtain ⟨l, -, hleft⟩ := readBlockEntries_blockEnd hes
      have hleft : 2 ≤ v.2.length := hleft.length_le
      have hlev := (ReadersLeave.readValue hread k.2 v hv).length_le
      have hlek := (ReadersLeave.readOr hread ls.tail k hk).length_le
      have hlength : [e, e'].length = 2 := rfl
      obtain ⟨k', hk', hkey', hbesidek⟩ := readOr_copies htail (htail.test hr rfl)
        (hcopy.read true true htail (by omega)) k hk (by omega)
      obtain ⟨v', hv', hvalue', hbesidev⟩ := readValue_copies hr hbesidek rfl
        (fun htailk => hcopy.read true true htailk (by rw [List.length_tail]; omega)) v hv (by omega)
      obtain ⟨hcount, hrest⟩ := readBlockEntries_beside hr n' hbesidev (by omega) hes
      refine ⟨by dsimp only; rw [List.length_cons]; omega, ?_⟩
      rw [if_pos hkey, hk']
      change (readValue _ _ k'.2 >>= _) = _
      rw [hv']
      change (readBlockEntries handles n' v'.2 >>= _) = _
      rw [hrest, hkey', hvalue', List.length_cons, Nat.add_sub_add_right]
      cases readBlockEntries handles (n' - es'.length) r' <;> rfl
    split at h
    · have hend : ls.tail = [e'] := (Prod.mk.inj (Except.ok.inj h)).2
      have hlength := htail.length_le
      rw [hend] at hlength
      exact absurd hlength (by simp)
    · exact absurd h (by cases ls <;> simp [failAt])

end JobMatrix.Yaml.Node
