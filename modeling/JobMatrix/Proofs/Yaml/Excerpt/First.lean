import JobMatrix.Proofs.Yaml.Excerpt.Run

/-!
# The first key of a text

That a text starts with a block mapping shows only at the `:` behind its first key.  Up to there a
scanner of the text has no block open, while a scanner inside a block mapping has one.

`Scanner.entered` opens the block mapping in advance.  While the first token is still a possible key
(`Waiting`), a step of a scanner is a step of the scanner that has entered the mapping.  When the
possible key is given up, the tokens never start with a block mapping (`Started`).
-/

set_option autoImplicit false

namespace JobMatrix.Yaml

/-- A possible key when the block mapping has been entered: it has the start of the mapping in front
of it, and nothing but the first token can be the first key. -/
def ImplicitKey.entered (k : ImplicitKey) : ImplicitKey :=
  { k with required := k.number == 0, number := k.number + 1 }

namespace Scanner

variable {s t : Scanner} {l : Lexeme} {k : ImplicitKey} {token : Token} {Q : Lexeme → Prop}

/-- The scanner with the block mapping opened in advance by the token `l`. -/
def entered (l : Lexeme) (s : Scanner) : Scanner :=
  { s with
    indent := 0
    indents := [-1]
    lexemes := s.lexemes ++ [l]
    count := s.count + 1
    key := s.key.map .entered
    outerKeys := s.outerKeys.map (Option.map .entered) }

/-! ## The first token -/

/-- There is a first token for good, and it satisfies `Q`. -/
structure Started (Q : Lexeme → Prop) (s : Scanner) : Prop where
  counted : s.Counted
  first : ∃ x ∈ s.lexemes.getLast?, Q x
  keys : ∀ k, some k ∈ s.key :: s.outerKeys → 0 < k.number

theorem getLast?_insertIdx {α : Type} {x : α} :
    ∀ {i : Nat} {xs : List α}, i < xs.length → (xs.insertIdx i x).getLast? = xs.getLast?
  | 0, y :: xs, _ => by rw [List.insertIdx_zero, List.getLast?_cons_cons]
  | i + 1, y :: xs, h => by
    have hi : i < xs.length := Nat.lt_of_succ_lt_succ h
    rw [List.insertIdx_succ_cons, List.getLast?_cons, List.getLast?_cons, getLast?_insertIdx hi]

theorem stable_started (Q : Lexeme → Prop) : Stable (Started Q) where
  frame h hframe := by
    refine ⟨stable_counted.frame h.counted hframe, ?_, fun k hk => h.keys k (hframe.keys k hk)⟩
    rw [hframe.lexemes]
    exact h.first
  push {s} token h := by
    obtain ⟨x, hx, hQ⟩ := h.first
    refine ⟨stable_counted.push token h.counted, ⟨x, ?_, hQ⟩, h.keys⟩
    rw [push, List.getLast?_cons, Option.mem_def.1 hx]
    rfl
  insertAt {s k token} _ hkey h := by
    have hnumber := h.keys k (by rw [← hkey]; exact List.mem_cons_self)
    have hcounted : s.lexemes.length = s.count := h.counted
    obtain ⟨x, hx, hQ⟩ := h.first
    have hlength : 0 < s.lexemes.length := by
      rw [List.length_pos_iff]
      rintro hnil
      rw [hnil] at hx
      cases hx
    refine ⟨h.counted.insertAt k token, ⟨x, ?_, hQ⟩, h.keys⟩
    rw [insertAt, getLast?_insertIdx (by omega)]
    exact hx
  save {s k} hk h := by
    refine ⟨h.counted, h.first, fun j hj => ?_⟩
    obtain ⟨x, hx, -⟩ := h.first
    have hcounted : s.lexemes.length = s.count := h.counted
    rcases List.mem_cons.1 hj with hj | hj
    · cases hj
      rw [hk, ← hcounted, List.length_pos_iff]
      rintro hnil
      rw [hnil] at hx
      cases hx
    · exact h.keys j (List.mem_cons_of_mem _ hj)

/-- The first token of a run is the one that was first all the time. -/
theorem Started.run {m : Nat} {ls : List Lexeme} (h : Started Q s) (hrun : run m s = .ok (l :: ls)) :
    Q l := by
  obtain ⟨t, ht, hls⟩ := (stable_started Q).run h hrun
  obtain ⟨x, hx, hQ⟩ := ht.first
  rw [← List.head?_reverse, ← hls] at hx
  cases hx
  exact hQ

/-! ## Waiting for the first key -/

/-- The run, if it ends, does not start with a block mapping. -/
def Lost (s : Scanner) : Prop :=
  ∀ (m : Nat) (l : Lexeme) (ls : List Lexeme), run m s = .ok (l :: ls) →
    l.token ≠ .blockMappingStart

/-- The possible key at the first token has been given up. -/
def GivenUp (s : Scanner) : Prop := Started (·.token ≠ .blockMappingStart) s

theorem stable_givenUp : Stable GivenUp := stable_started _

theorem GivenUp.lost (h : GivenUp s) : Lost s := fun _ _ _ hrun => Started.run h hrun

theorem lost_of_finished (hfinished : s.finished = true)
    (hfirst : ∀ x ∈ s.lexemes.getLast?, x.token ≠ .blockMappingStart) : Lost s := by
  intro m l ls hrun
  cases m with
  | zero => cases hrun
  | succ m =>
    rw [run, hfinished] at hrun
    have hreverse : s.lexemes.reverse = l :: ls := Except.ok.inj hrun
    refine hfirst l ?_
    rw [← List.head?_reverse, hreverse]
    rfl

/-- The key `k` at the first token is still possible, and no block is open. -/
structure Waiting (k : ImplicitKey) (s : Scanner) : Prop where
  unfinished : s.finished = false
  counted : s.Counted
  indent : s.indent = -1
  indents : s.indents = []
  first : ∀ x ∈ s.lexemes.getLast?, x.token ≠ .blockMappingStart
  number : k.number = 0
  column : k.column = 0
  required : k.required = false
  keys : ∃ upper, s.key :: s.outerKeys = upper ++ [some k] ∧
    ∀ j, some j ∈ upper → 0 < j.number ∧ j.required = false

@[simp] theorem entered_cursor (l : Lexeme) (s : Scanner) : (s.entered l).cursor = s.cursor := rfl

@[simp] theorem entered_keyAllowed (l : Lexeme) (s : Scanner) :
    (s.entered l).keyAllowed = s.keyAllowed := rfl

@[simp] theorem entered_inFlow (l : Lexeme) (s : Scanner) : (s.entered l).inFlow = s.inFlow := by
  rw [inFlow, entered, List.isEmpty_map]
  rfl

namespace Waiting

/-- In block context the first token is the only possible key; inside a flow collection it is the
key of the block level. -/
theorem cases_level (h : Waiting k s) :
    (s.key = some k ∧ s.outerKeys = []) ∨
      s.outerKeys ≠ [] ∧ ∀ j, s.key = some j → 0 < j.number ∧ j.required = false := by
  obtain ⟨upper, hkeys, hupper⟩ := h.keys
  cases upper with
  | nil => exact .inl ⟨(List.cons.inj hkeys).1, (List.cons.inj hkeys).2⟩
  | cons key upper =>
    obtain ⟨hkey, houter⟩ := List.cons.inj hkeys
    refine .inr ⟨?_, fun j hj => hupper j ?_⟩
    · rw [houter]
      exact List.append_ne_nil_of_right_ne_nil _ (List.cons_ne_nil _ _)
    · rw [← hkey, hj]
      exact List.mem_cons_self

theorem move (h : Waiting k s) (c : Cursor) (allowed : Bool) :
    Waiting k { s with cursor := c, keyAllowed := allowed } :=
  { h with }

theorem push (h : Waiting k s) (token : Token) (htoken : token ≠ .blockMappingStart) :
    Waiting k (s.push token) :=
  { h with
    counted := stable_counted.push token h.counted
    first := fun x hx => by
      rw [Scanner.push, List.getLast?_cons] at hx
      cases hlast : s.lexemes.getLast? with
      | none =>
        rw [hlast] at hx
        cases hx
        exact htoken
      | some y =>
        rw [hlast] at hx
        cases hx
        exact h.first y hlast }

theorem started (h : Waiting k s) (hcount : 0 < s.count) :
    ∃ x ∈ s.lexemes.getLast?, x.token ≠ .blockMappingStart := by
  have hlength : s.lexemes.length = s.count := h.counted
  cases hlast : s.lexemes.getLast? with
  | none =>
    rw [List.getLast?_eq_none_iff.1 hlast] at hlength
    exact absurd hlength (Nat.ne_of_lt hcount)
  | some x => exact ⟨x, rfl, h.first x hlast⟩

/-! ### Keys -/

/-- Where the key at the first token is dropped, it is given up. -/
theorem givenUp (h : Waiting k s) (hcount : 0 < s.count) (houter : s.outerKeys = []) :
    GivenUp { s with key := none } := by
  refine ⟨h.counted, h.started hcount, fun j hj => ?_⟩
  change some j ∈ none :: s.outerKeys at hj
  rw [houter] at hj
  simp at hj

/-- Inside a flow collection its own keys may be dropped. -/
theorem forget (h : Waiting k s) (houter : s.outerKeys ≠ []) : Waiting k { s with key := none } := by
  obtain ⟨upper, hkeys, hupper⟩ := h.keys
  cases upper with
  | nil => exact absurd (List.cons.inj hkeys).2 houter
  | cons key upper =>
    refine { h with keys := ⟨none :: upper, congrArg (none :: ·) (List.cons.inj hkeys).2,
      fun j hj => hupper j (List.mem_cons_of_mem _ (by simpa using hj))⟩ }

theorem dropKey (h : Waiting k s) (hcount : 0 < s.count) (hdrop : s.dropKey = .ok t) :
    GivenUp t ∨ s.outerKeys ≠ [] ∧ Waiting k t ∧
      ∀ l, (s.entered l).dropKey = .ok (t.entered l) := by
  cases dropKey_eq hdrop
  rcases h.cases_level with ⟨-, houter⟩ | ⟨houter, hkey⟩
  · exact .inl (h.givenUp hcount houter)
  refine .inr ⟨houter, h.forget houter, fun l => ?_⟩
  rw [Scanner.dropKey]
  cases hk : s.key with
  | none =>
    rw [entered, hk]
    rfl
  | some j =>
    have hnumber : (j.number == 0) = false := beq_false_of_ne (Nat.ne_of_gt (hkey j hk).1)
    rw [entered, hk]
    change (if (j.number == 0) = true then _ else _) = _
    rw [hnumber]
    rfl

/-- A new key in block context takes the place of the first token. -/
theorem saveKey (h : Waiting k s) (hcount : 0 < s.count) (hsave : s.saveKey = .ok t) :
    GivenUp t ∨ Waiting k t ∧ t.cursor = s.cursor ∧
      ∀ l, (s.entered l).saveKey = .ok (t.entered l) := by
  rw [Scanner.saveKey] at hsave
  split at hsave
  · rename_i hallowed
    obtain ⟨u, hu, hsave⟩ := bind_eq_ok_iff.1 hsave
    cases hsave
    have hcountu : u.count = s.count := by rw [dropKey_eq hu]
    rcases h.dropKey hcount hu with hgiven | ⟨houter, hu', hentered⟩
    · exact .inl (stable_givenUp.save rfl hgiven)
    · have hflow : s.inFlow = true := by
        rw [Scanner.inFlow, List.isEmpty_eq_false_iff.2 houter]
        rfl
      refine .inr ⟨{ hu' with keys := ?_ }, by rw [dropKey_eq hu], fun l => ?_⟩
      · obtain ⟨upper, hkeys, hupper⟩ := hu'.keys
        cases upper with
        | nil =>
          rw [dropKey_eq hu] at hkeys
          exact absurd (List.cons.inj hkeys).2 houter
        | cons key upper =>
          refine ⟨some _ :: upper, congrArg (some _ :: ·) (List.cons.inj hkeys).2, fun j hj => ?_⟩
          rcases List.mem_cons.1 hj with hj | hj
          · cases hj
            refine ⟨hcountu ▸ hcount, ?_⟩
            rw [hflow]
            rfl
          · exact hupper j (List.mem_cons_of_mem _ hj)
      · have hzero : (u.count == 0) = false := beq_false_of_ne (by omega)
        rw [Scanner.saveKey, entered_keyAllowed, if_pos hallowed, hentered]
        rw [entered_inFlow, hflow]
        change Except.ok _ = Except.ok _
        simp only [entered, Option.map_some, ImplicitKey.entered, hzero]
        rfl
  · rename_i hallowed
    cases hsave
    refine .inr ⟨h, rfl, fun l => ?_⟩
    rw [Scanner.saveKey, entered_keyAllowed, if_neg hallowed]

theorem dropStaleKeys_stale (h : Waiting k s) (hcount : 0 < s.count) (hstale : s.isStale k = true)
    (hdrop : s.dropStaleKeys = .ok t) : GivenUp t := by
  obtain ⟨upper, hkeys, hupper⟩ := h.keys
  rw [dropStaleKeys_eq hdrop]
  refine ⟨h.counted, h.started hcount, fun j hj => ?_⟩
  change some j ∈ (s.key :: s.outerKeys).map s.freshKey at hj
  rw [hkeys, List.map_append] at hj
  rcases List.mem_append.1 hj with hj | hj
  · exact (hupper j (mem_freshKeys hj)).1
  · have hgone : s.freshKey (some k) = none := by rw [freshKey, Option.any_some, hstale]; rfl
    rw [List.map_singleton, hgone] at hj
    simp at hj

theorem dropStaleKeys_fresh (h : Waiting k s) (hfresh : s.isStale k = false)
    (hdrop : s.dropStaleKeys = .ok t) :
    Waiting k t ∧ ∀ l, (s.entered l).dropStaleKeys = .ok (t.entered l) := by
  obtain ⟨upper, hkeys, hupper⟩ := h.keys
  rw [dropStaleKeys_eq hdrop]
  refine ⟨{ h with keys := ⟨upper.map s.freshKey, ?_, fun j hj => hupper j (mem_freshKeys hj)⟩ },
    fun l => ?_⟩
  · change (s.key :: s.outerKeys).map s.freshKey = _
    have hstays : s.freshKey (some k) = some k := by rw [freshKey, Option.any_some, hfresh]; rfl
    rw [hkeys, List.map_append, List.map_singleton, hstays]
  · -- No key is both required and stale.
    have hrequired : (((s.entered l).key :: (s.entered l).outerKeys).any fun key =>
        key.any fun j => j.required && (s.entered l).isStale j) = false := by
      change (((s.key :: s.outerKeys).map (Option.map ImplicitKey.entered)).any fun key =>
        key.any fun j => j.required && (s.entered l).isStale j) = false
      rw [hkeys, List.any_map, List.any_eq_false]
      intro key hmem
      cases key with
      | none => exact Bool.false_ne_true
      | some j =>
        change ¬((j.number == 0) && s.isStale j) = true
        rcases List.mem_append.1 hmem with hmem | hmem
        · rw [beq_false_of_ne (Nat.ne_of_gt (hupper j hmem).1)]
          exact Bool.false_ne_true
        · cases List.mem_singleton.1 hmem
          rw [hfresh, Bool.and_false]
          exact Bool.false_ne_true
    have hkeep : ∀ key : Option ImplicitKey,
        (s.entered l).freshKey (key.map .entered) = (s.freshKey key).map .entered := by
      intro key
      cases key with
      | none => rfl
      | some j =>
        change (if s.isStale j = true then none else some j.entered)
          = (if s.isStale j = true then none else some j).map .entered
        split <;> rfl
    have houter : (s.outerKeys.map (Option.map ImplicitKey.entered)).map (s.entered l).freshKey
        = (s.outerKeys.map s.freshKey).map (Option.map ImplicitKey.entered) := by
      rw [List.map_map, List.map_map]
      exact List.map_congr_left fun key _ => hkeep key
    rw [Scanner.dropStaleKeys, hrequired]
    change Except.ok { s.entered l with
      key := (s.entered l).freshKey (s.key.map .entered)
      outerKeys := (s.outerKeys.map (Option.map ImplicitKey.entered)).map (s.entered l).freshKey } = _
    rw [hkeep, houter]
    rfl

end Waiting

end Scanner

end JobMatrix.Yaml
