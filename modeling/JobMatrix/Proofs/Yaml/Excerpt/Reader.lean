import JobMatrix.Proofs.Log
import JobMatrix.Yaml.Node

/-!
# What the readers of nodes leave

Each reader answers with what is left of its tokens: a suffix of them.  `Leaves` says so of one
computation and is handed on by the combinators the readers are made of; `readersLeave` is the
induction over all seven readers at once.
-/

set_option autoImplicit false

namespace JobMatrix.Yaml.Node

variable {α β : Type} {handles : Handles} {block indentless first : Bool} {n : Nat}
  {ls rest : List Lexeme}

/-! ## The readers as compositions -/

/-- Reads a node, unless one of the tokens `stops` comes next; then nothing is written there. -/
def readOr (stops : List Token) (f : List Lexeme → Except SyntaxError (Node String × List Lexeme))
    (ls : List Lexeme) : Except SyntaxError (Node String × List Lexeme) :=
  if stops.contains (peek ls) then .ok (empty, ls) else f ls

/-- Reads the value of an entry, if one is written. -/
def readValue (stops : List Token)
    (f : List Lexeme → Except SyntaxError (Node String × List Lexeme)) (ls : List Lexeme) :
    Except SyntaxError (Node String × List Lexeme) :=
  if peek ls == .value then readOr stops f ls.tail else .ok (empty, ls)

/-- Reads a node behind its properties. -/
def readContent (handles : Handles) (block indentless : Bool) (n : Nat)
    (p : Properties String × List Lexeme) : Except SyntaxError (Node String × List Lexeme) :=
  match peek p.2 with
  | .scalar style text => .ok (.scalar p.1 style text, p.2.tail)
  | .flowSequenceStart => readFlowItems handles true n p.2.tail >>= fun q =>
      .ok (.sequence p.1 q.1, q.2)
  | .flowMappingStart => readFlowEntries handles true n p.2.tail >>= fun q =>
      .ok (.mapping p.1 q.1, q.2)
  | token =>
    if indentless && token == .blockEntry then
      readIndentlessItems handles n p.2 >>= fun q => .ok (.sequence p.1 q.1, q.2)
    else if block && token == .blockSequenceStart then
      readBlockItems handles n p.2.tail >>= fun q => .ok (.sequence p.1 q.1, q.2)
    else if block && token == .blockMappingStart then
      readBlockEntries handles n p.2.tail >>= fun q => .ok (.mapping p.1 q.1, q.2)
    else if p.1.anchor.isSome || p.1.tag.isSome then .ok (.scalar p.1 .plain "", p.2)
    else failAt p.2 "did not find expected node content"

theorem read_succ : read handles block indentless (n + 1) ls =
    match peek ls with
    | .alias name => .ok (.alias name, ls.tail)
    | _ => readProperties handles ls >>= readContent handles block indentless n := by
  rw [read]
  cases peek ls <;> rfl

theorem readBlockItems_succ : readBlockItems handles (n + 1) ls =
    if peek ls == .blockEntry then
      readOr [.blockEntry, .blockEnd] (read handles true false n) ls.tail >>= fun p =>
        readBlockItems handles n p.2 >>= fun q => .ok (p.1 :: q.1, q.2)
    else if peek ls == .blockEnd then .ok ([], ls.tail)
    else failAt ls "did not find expected '-' indicator" := by
  rw [readBlockItems, readOr]
  dsimp only
  cases peek ls <;> try rfl
  cases peek ls.tail <;> rfl

theorem readIndentlessItems_succ : readIndentlessItems handles (n + 1) ls =
    if peek ls == .blockEntry then
      readOr [.blockEntry, .key, .value, .blockEnd] (read handles true false n) ls.tail >>= fun p =>
        readIndentlessItems handles n p.2 >>= fun q => .ok (p.1 :: q.1, q.2)
    else .ok ([], ls) := by
  rw [readIndentlessItems, readOr]
  dsimp only
  cases peek ls <;> try rfl
  cases peek ls.tail <;> rfl

/-- The rest of an entry of a block mapping, behind its key. -/
theorem readBlockEntries_behind_key (p : Node String × List Lexeme) :
    (match p with
      | (key, ls) => do
        let (value, ls) ←
          match peek ls with
          | .value =>
            match peek ls.tail with
            | .key | .value | .blockEnd => .ok (empty, ls.tail)
            | _ => read handles true true n ls.tail
          | _ => .ok (empty, ls)
        let (entries, ls) ← readBlockEntries handles n ls
        .ok ((key, value) :: entries, ls))
    = readValue [.key, .value, .blockEnd] (read handles true true n) p.2 >>= fun q =>
        readBlockEntries handles n q.2 >>= fun r => .ok ((p.1, q.1) :: r.1, r.2) := by
  rw [readValue, readOr]
  dsimp only
  cases peek p.2 <;> try rfl
  cases peek p.2.tail <;> rfl

theorem readBlockEntries_succ : readBlockEntries handles (n + 1) ls =
    if peek ls == .key then
      readOr [.key, .value, .blockEnd] (read handles true true n) ls.tail >>= fun p =>
        readValue [.key, .value, .blockEnd] (read handles true true n) p.2 >>= fun q =>
          readBlockEntries handles n q.2 >>= fun r => .ok ((p.1, q.1) :: r.1, r.2)
    else if peek ls == .blockEnd then .ok ([], ls.tail)
    else failAt ls "did not find expected key" := by
  rw [readBlockEntries, readOr]
  dsimp only
  cases peek ls <;> try rfl
  cases peek ls.tail <;> exact bind_congr readBlockEntries_behind_key

theorem readFlowItems_succ : readFlowItems handles first (n + 1) ls =
    if peek ls == .flowSequenceEnd then .ok ([], ls.tail)
    else if !first && peek ls != .flowEntry then failAt ls "did not find expected ',' or ']'"
    else
      let ls := if first then ls else ls.tail
      if peek ls == .flowSequenceEnd then .ok ([], ls.tail)
      else if peek ls == .key then
        readFlowPair handles n ls.tail >>= fun p =>
          readFlowItems handles false n p.2 >>= fun q => .ok (.mapping {} [p.1] :: q.1, q.2)
      else
        read handles false false n ls >>= fun p =>
          readFlowItems handles false n p.2 >>= fun q => .ok (p.1 :: q.1, q.2) := by
  rw [readFlowItems]
  dsimp only
  cases peek (if first = true then ls else ls.tail) <;> rfl

/-- The rest of an entry that stands in a flow sequence, behind its key. -/
theorem readFlowPair_behind_key (p : Node String × List Lexeme) :
    (match p with
      | (key, ls) => do
        let (value, ls) ←
          match peek ls with
          | .value =>
            match peek ls.tail with
            | .flowEntry | .flowSequenceEnd => .ok (empty, ls.tail)
            | _ => read handles false false n ls.tail
          | _ => .ok (empty, ls)
        .ok ((key, value), ls))
    = readValue [.flowEntry, .flowSequenceEnd] (read handles false false n) p.2 >>= fun q =>
        .ok ((p.1, q.1), q.2) := by
  rw [readValue, readOr]
  dsimp only
  cases peek p.2 <;> try rfl
  cases peek p.2.tail <;> rfl

theorem readFlowPair_succ : readFlowPair handles (n + 1) ls =
    (if [Token.value, .flowEntry, .flowSequenceEnd].contains (peek ls) then .ok (empty, ls.tail)
      else read handles false false n ls) >>= fun p =>
        readValue [.flowEntry, .flowSequenceEnd] (read handles false false n) p.2 >>= fun q =>
          .ok ((p.1, q.1), q.2) := by
  rw [readFlowPair]
  dsimp only
  cases peek ls <;> exact bind_congr readFlowPair_behind_key

/-- The rest of an entry of a flow mapping, behind its key. -/
theorem readFlowEntries_behind_key (p : Node String × List Lexeme) :
    (match p with
      | (key, ls) => do
        let (value, ls) ←
          match peek ls with
          | .value =>
            match peek ls.tail with
            | .flowEntry | .flowMappingEnd => .ok (empty, ls.tail)
            | _ => read handles false false n ls.tail
          | _ => .ok (empty, ls)
        let (entries, ls) ← readFlowEntries handles false n ls
        .ok ((key, value) :: entries, ls))
    = readValue [.flowEntry, .flowMappingEnd] (read handles false false n) p.2 >>= fun q =>
        readFlowEntries handles false n q.2 >>= fun r => .ok ((p.1, q.1) :: r.1, r.2) := by
  rw [readValue, readOr]
  dsimp only
  cases peek p.2 <;> try rfl
  cases peek p.2.tail <;> rfl

theorem readFlowEntries_succ : readFlowEntries handles first (n + 1) ls =
    if peek ls == .flowMappingEnd then .ok ([], ls.tail)
    else if !first && peek ls != .flowEntry then failAt ls "did not find expected ',' or '\x7d'"
    else
      let ls := if first then ls else ls.tail
      if peek ls == .flowMappingEnd then .ok ([], ls.tail)
      else if peek ls == .key then
        readOr [.value, .flowEntry, .flowMappingEnd] (read handles false false n) ls.tail >>= fun p =>
          readValue [.flowEntry, .flowMappingEnd] (read handles false false n) p.2 >>= fun q =>
            readFlowEntries handles false n q.2 >>= fun r => .ok ((p.1, q.1) :: r.1, r.2)
      else
        read handles false false n ls >>= fun p =>
          readFlowEntries handles false n p.2 >>= fun q => .ok ((p.1, empty) :: q.1, q.2) := by
  rw [readFlowEntries]
  dsimp only [readOr]
  refine if_congr Iff.rfl rfl (if_congr Iff.rfl rfl ?_)
  cases peek (if first = true then ls else ls.tail) <;> try rfl
  cases peek (if first = true then ls else ls.tail).tail <;> exact bind_congr readFlowEntries_behind_key

/-! ## What is left -/

/-- What is left is a suffix of these tokens. -/
def Leaves (ls : List Lexeme) (x : Except SyntaxError (α × List Lexeme)) : Prop :=
  ∀ p, x = .ok p → p.2 <:+ ls

namespace Leaves

variable {x y : Except SyntaxError (α × List Lexeme)} {p : α × List Lexeme}

theorem ok (h : p.2 <:+ ls) : Leaves ls (.ok p) := by
  rintro _ ⟨⟩
  exact h

theorem failAt {problem : String} : Leaves ls (failAt (α := α × List Lexeme) rest problem) := by
  intro p hp
  cases rest <;> cases hp

theorem bind {f : α × List Lexeme → Except SyntaxError (β × List Lexeme)} (hx : Leaves ls x)
    (hf : ∀ p, Leaves p.2 (f p)) : Leaves ls (x >>= f) := by
  intro q hq
  obtain ⟨p, hp, hq⟩ := bind_eq_ok_iff.1 hq
  exact (hf p q hq).trans (hx p hp)

theorem map {f : α → β} (hx : Leaves ls x) : Leaves ls (x >>= fun p => .ok (f p.1, p.2)) :=
  hx.bind fun p => .ok (List.suffix_refl p.2)

theorem ite {c : Prop} [Decidable c] (hx : c → Leaves ls x) (hy : ¬c → Leaves ls y) :
    Leaves ls (if c then x else y) := by
  split
  · exact hx ‹_›
  · exact hy ‹_›

theorem mono (hx : Leaves rest x) (h : rest <:+ ls) : Leaves ls x := fun p hp => (hx p hp).trans h

theorem of_tail (hx : Leaves ls.tail x) : Leaves ls x := hx.mono (List.tail_suffix ls)

end Leaves

theorem readProperties_leaves {p : Properties String × List Lexeme}
    (h : readProperties handles ls = .ok p) :
    (p = ({}, ls)) ∨ p.2 <:+ ls.tail ∧ (p.1.anchor.isSome || p.1.tag.isSome) = true := by
  have hrefl := List.suffix_refl ls.tail
  have htail := List.tail_suffix ls.tail
  rw [readProperties] at h
  split at h
  · split at h
    · obtain ⟨tag, -, h⟩ := bind_eq_ok_iff.1 h
      cases h
      exact .inr ⟨htail, rfl⟩
    · cases h
      exact .inr ⟨hrefl, rfl⟩
  · obtain ⟨tag, -, h⟩ := bind_eq_ok_iff.1 h
    split at h
    · cases h
      exact .inr ⟨htail, rfl⟩
    · cases h
      exact .inr ⟨hrefl, rfl⟩
  · cases h
    exact .inl rfl

/-- What the seven readers leave.  Only where a sequence may share the indentation of its mapping,
nothing may have been read. -/
structure ReadersLeave (handles : Handles) (n : Nat) : Prop where
  read : ∀ block indentless ls, Leaves ls (read handles block indentless n ls)
  read_tail : ∀ block ls, Leaves ls.tail (Node.read handles block false n ls)
  blockItems : ∀ ls, Leaves ls.tail (readBlockItems handles n ls)
  indentlessItems : ∀ ls, Leaves ls (readIndentlessItems handles n ls)
  blockEntries : ∀ ls, Leaves ls.tail (readBlockEntries handles n ls)
  flowItems : ∀ first ls, Leaves ls.tail (readFlowItems handles first n ls)
  flowPair : ∀ ls, Leaves ls.tail (readFlowPair handles n ls)
  flowEntries : ∀ first ls, Leaves ls.tail (readFlowEntries handles first n ls)

namespace ReadersLeave

variable {stops : List Token} {f : List Lexeme → Except SyntaxError (Node String × List Lexeme)}

theorem readOr (hf : ∀ ls, Leaves ls (f ls)) (ls : List Lexeme) : Leaves ls (readOr stops f ls) :=
  .ite (fun _ => .ok (List.suffix_refl ls)) fun _ => hf ls

theorem readValue (hf : ∀ ls, Leaves ls (f ls)) (ls : List Lexeme) :
    Leaves ls (readValue stops f ls) :=
  .ite (fun _ => (readOr hf ls.tail).of_tail) fun _ => .ok (List.suffix_refl ls)

theorem readContent (h : ReadersLeave handles n) {p : Properties String × List Lexeme}
    (htail : p.2.tail <:+ ls)
    (hself : indentless = true ∨ (p.1.anchor.isSome || p.1.tag.isSome) = true → p.2 <:+ ls) :
    Leaves ls (readContent handles block indentless n p) := by
  rw [Node.readContent]
  split
  · exact .ok htail
  · exact ((h.flowItems true p.2.tail).of_tail.mono htail).map
  · exact ((h.flowEntries true p.2.tail).of_tail.mono htail).map
  · refine .ite (fun hindentless => ?_) fun _ => .ite (fun _ => ?_) fun _ => .ite (fun _ => ?_)
      fun _ => .ite (fun hproperties => ?_) fun _ => .failAt
    · exact ((h.indentlessItems p.2).mono (hself (.inl (Bool.and_eq_true_iff.1 hindentless).1))).map
    · exact ((h.blockItems p.2.tail).of_tail.mono htail).map
    · exact ((h.blockEntries p.2.tail).of_tail.mono htail).map
    · exact .ok (hself (.inr hproperties))

theorem zero (handles : Handles) : ReadersLeave handles 0 where
  read _ _ _ := .failAt
  read_tail _ _ := .failAt
  blockItems _ := .failAt
  indentlessItems ls := .ok (List.suffix_refl ls)
  blockEntries _ := .failAt
  flowItems _ _ := .failAt
  flowPair _ := .failAt
  flowEntries _ _ := .failAt

theorem read_succ (h : ReadersLeave handles n) (block indentless : Bool) (ls : List Lexeme) :
    Leaves ls (Node.read handles block indentless (n + 1) ls) ∧
      (indentless = false → Leaves ls.tail (Node.read handles block indentless (n + 1) ls)) := by
  rw [Node.read_succ]
  split
  · exact ⟨.ok (List.tail_suffix ls), fun _ => .ok (List.suffix_refl ls.tail)⟩
  · constructor
    · intro q hq
      obtain ⟨p, hp, hq⟩ := bind_eq_ok_iff.1 hq
      have hle : p.2 <:+ ls := by
        obtain rfl | ⟨hle, -⟩ := readProperties_leaves hp
        · exact List.suffix_refl ls
        · exact hle.trans (List.tail_suffix ls)
      exact h.readContent ((List.tail_suffix p.2).trans hle) (fun _ => hle) q hq
    · intro hindentless q hq
      obtain ⟨p, hp, hq⟩ := bind_eq_ok_iff.1 hq
      obtain rfl | ⟨hle, -⟩ := readProperties_leaves hp
      · refine h.readContent (List.suffix_refl ls.tail) (fun hself => ?_) q hq
        rw [hindentless] at hself
        simp at hself
      · exact h.readContent ((List.tail_suffix p.2).trans hle) (fun _ => hle) q hq

theorem succ (h : ReadersLeave handles n) : ReadersLeave handles (n + 1) where
  read block indentless ls := (h.read_succ block indentless ls).1
  read_tail block ls := (h.read_succ block false ls).2 rfl
  blockItems ls := by
    rw [readBlockItems_succ]
    refine .ite (fun _ => ?_) fun _ => .ite (fun _ => .ok (List.suffix_refl _)) fun _ => .failAt
    exact (readOr (h.read true false) ls.tail).bind fun p => (h.blockItems p.2).of_tail.map
  indentlessItems ls := by
    rw [readIndentlessItems_succ]
    refine .ite (fun _ => ?_) fun _ => .ok (List.suffix_refl _)
    exact ((readOr (h.read true false) ls.tail).bind fun p => (h.indentlessItems p.2).map).of_tail
  blockEntries ls := by
    rw [readBlockEntries_succ]
    refine .ite (fun _ => ?_) fun _ => .ite (fun _ => .ok (List.suffix_refl _)) fun _ => .failAt
    exact (readOr (h.read true true) ls.tail).bind fun p =>
      (readValue (h.read true true) p.2).bind fun q => (h.blockEntries q.2).of_tail.map
  flowItems first ls := by
    have hcomma : (if first then ls else ls.tail).tail <:+ ls.tail := by
      split
      · exact List.suffix_refl _
      · exact List.tail_suffix _
    rw [readFlowItems_succ]
    refine .ite (fun _ => .ok (List.suffix_refl _)) fun _ => .ite (fun _ => .failAt) fun _ => ?_
    refine .ite (fun _ => .ok hcomma) fun _ => .ite (fun _ => ?_) fun _ => ?_
    · exact ((h.flowPair _).of_tail.bind fun p => (h.flowItems false p.2).of_tail.map).mono hcomma
    · exact ((h.read_tail false _).bind fun p => (h.flowItems false p.2).of_tail.map).mono hcomma
  flowPair ls := by
    rw [readFlowPair_succ]
    refine .bind (.ite (fun _ => .ok (List.suffix_refl _)) fun _ => h.read_tail false ls) fun p => ?_
    exact (readValue (h.read false false) p.2).map
  flowEntries first ls := by
    have hcomma : (if first then ls else ls.tail).tail <:+ ls.tail := by
      split
      · exact List.suffix_refl _
      · exact List.tail_suffix _
    rw [readFlowEntries_succ]
    refine .ite (fun _ => .ok (List.suffix_refl _)) fun _ => .ite (fun _ => .failAt) fun _ => ?_
    refine .ite (fun _ => .ok hcomma) fun _ => .ite (fun _ => ?_) fun _ => ?_
    · refine ((readOr (h.read false false) _).bind fun p => ?_).mono hcomma
      exact (readValue (h.read false false) p.2).bind fun q => (h.flowEntries false q.2).of_tail.map
    · exact ((h.read_tail false _).bind fun p => (h.flowEntries false p.2).of_tail.map).mono hcomma

end ReadersLeave

/-- **What a reader leaves is a suffix of what it was given.** -/
theorem readersLeave (handles : Handles) : ∀ n, ReadersLeave handles n
  | 0 => .zero handles
  | n + 1 => (readersLeave handles n).succ

/-- The last token of a block mapping is the end of a block. -/
theorem readBlockEntries_blockEnd :
    ∀ {n : Nat} {ls : List Lexeme} {p : List (Node String × Node String) × List Lexeme},
      readBlockEntries handles n ls = .ok p → ∃ l, l.token = .blockEnd ∧ l :: p.2 <:+ ls
  | 0, [], p, h => by cases h
  | 0, l :: ls, p, h => by cases h
  | n + 1, ls, p, h => by
    have hreads := readersLeave handles n
    have hread := hreads.read true true
    rw [readBlockEntries_succ] at h
    split at h
    · obtain ⟨k, hk, h⟩ := bind_eq_ok_iff.1 h
      obtain ⟨v, hv, h⟩ := bind_eq_ok_iff.1 h
      obtain ⟨q, hq, h⟩ := bind_eq_ok_iff.1 h
      cases h
      obtain ⟨l, hl, hsuffix⟩ := readBlockEntries_blockEnd hq
      refine ⟨l, hl, hsuffix.trans ?_⟩
      exact ((ReadersLeave.readValue hread k.2 v hv).trans
        (ReadersLeave.readOr hread ls.tail k hk)).trans (List.tail_suffix ls)
    split at h
    · rename_i hpeek
      cases h
      cases ls with
      | nil => cases hpeek
      | cons l ls => exact ⟨l, eq_of_beq hpeek, List.suffix_refl _⟩
    · exact absurd h (by cases ls <;> simp [failAt])

end JobMatrix.Yaml.Node
