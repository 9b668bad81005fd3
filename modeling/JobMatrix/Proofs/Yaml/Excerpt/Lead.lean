import JobMatrix.Proofs.Yaml.Excerpt.Entry
import JobMatrix.Proofs.Yaml.Excerpt.Reader
import JobMatrix.Proofs.Yaml.Tag

/-!
# The first token of a text

A key in front of the first token is put in later, and then a block mapping starts there.  So of the
first token that is scanned it shows whether the root can be a block mapping without properties.
-/

set_option autoImplicit false

namespace JobMatrix.Yaml

/-- A first token that tells what the root is: neither a document nor a block mapping with
properties starts with it, nor a flow mapping. -/
def Token.Leads : Token → Prop
  | .versionDirective _ _ | .tagDirective _ _ | .documentStart | .anchor _ | .flowMappingStart => False
  | .tag handle suffix => Cursor.ReadsLocal (.tag handle suffix)
  | _ => True

namespace Scanner

variable {s t : Scanner} {token : Token} {c : Cursor} {k : ImplicitKey}

/-! ## Tokens that stay in front -/

theorem leads_of_inserted (h : token = .key ∨ token = .blockMappingStart) : token.Leads := by
  obtain rfl | rfl := h <;> trivial

/-- The first token tells what the root is. -/
def Leading (s : Scanner) : Prop := ∃ x ∈ s.lexemes.getLast?, x.token.Leads

theorem getLast?_insertIdx_or {α : Type} {x y : α} :
    ∀ {i : Nat} {xs : List α}, y ∈ xs.getLast? →
      y ∈ (xs.insertIdx i x).getLast? ∨ x ∈ (xs.insertIdx i x).getLast?
  | 0, xs, h => by
    rw [List.insertIdx_zero, List.getLast?_cons, Option.mem_def.1 h]
    exact .inl rfl
  | i + 1, [z], h => by
    cases h
    rw [List.insertIdx_succ_cons]
    cases i with
    | zero => exact .inr rfl
    | succ i => exact .inl rfl
  | i + 1, z :: w :: xs, h => by
    rw [List.getLast?_cons_cons] at h
    rw [List.insertIdx_succ_cons, List.getLast?_cons]
    refine (getLast?_insertIdx_or (x := x) (i := i) h).imp (fun hy => ?_) fun hx => ?_
    · rw [Option.mem_def.1 hy]
      rfl
    · rw [Option.mem_def.1 hx]
      rfl

theorem stable_leading : Stable Leading where
  frame h hframe := by
    rw [Leading, hframe.lexemes]
    exact h
  push {s} token h := by
    obtain ⟨x, hx, hlead⟩ := h
    refine ⟨x, ?_, hlead⟩
    rw [push, List.getLast?_cons, Option.mem_def.1 hx]
    rfl
  insertAt {s k token} htoken _ h := by
    obtain ⟨x, hx, hlead⟩ := h
    obtain hlast | hlast := getLast?_insertIdx_or (i := s.count - k.number) hx
    · exact ⟨x, hlast, hlead⟩
    · exact ⟨_, hlast, leads_of_inserted htoken⟩
  save _ h := h

/-- The first two tokens are those of an empty flow mapping, and no key starts between them. -/
structure Braced (s : Scanner) : Prop where
  counted : s.Counted
  first : ∃ xs l l', s.lexemes = xs ++ [l', l] ∧ l.token = .flowMappingStart ∧
    l'.token = .flowMappingEnd
  keys : ∀ k, some k ∈ s.key :: s.outerKeys → k.number = 0 ∨ 2 ≤ k.number

/-- Either the first token tells what the root is, or an empty flow mapping comes first. -/
def Opened (s : Scanner) : Prop := Leading s ∨ Braced s

theorem Braced.insertAt (h : Braced s) (hkey : s.key = some k)
    (htoken : token = .key ∨ token = .blockMappingStart) : Opened (s.insertAt k token) := by
  obtain ⟨xs, l, l', hlexemes, hl, hl'⟩ := h.first
  have hcounted : s.lexemes.length = s.count := h.counted
  rcases h.keys k (by rw [← hkey]; exact List.mem_cons_self) with hnumber | hnumber
  · refine .inl ⟨⟨token, k.line, k.column⟩, ?_, leads_of_inserted htoken⟩
    rw [Scanner.insertAt, hnumber, Nat.sub_zero, ← hcounted, List.insertIdx_length_self,
      List.getLast?_concat]
    rfl
  · have hle : s.count - k.number ≤ xs.length := by
      rw [hlexemes, List.length_append] at hcounted
      change xs.length + 2 = s.count at hcounted
      omega
    exact .inr ⟨h.counted.insertAt k token, ⟨xs.insertIdx (s.count - k.number) _, l, l',
      by rw [Scanner.insertAt, hlexemes, Inside.insertIdx_append hle], hl, hl'⟩, h.keys⟩

theorem stable_opened : Stable Opened where
  frame h hframe := by
    refine h.imp (fun h => stable_leading.frame h hframe) fun h => ?_
    refine ⟨stable_counted.frame h.counted hframe, ?_, fun k hk => h.keys k (hframe.keys k hk)⟩
    rw [hframe.lexemes]
    exact h.first
  push {s} token h := by
    refine h.imp (stable_leading.push token) fun h => ?_
    obtain ⟨xs, l, l', hlexemes, hl, hl'⟩ := h.first
    exact ⟨stable_counted.push token h.counted,
      ⟨_ :: xs, l, l', congrArg (_ :: ·) hlexemes, hl, hl'⟩, h.keys⟩
  insertAt htoken hkey h :=
    h.elim (fun h => .inl (stable_leading.insertAt htoken hkey h)) fun h => h.insertAt hkey htoken
  save {s k} hk h := by
    refine h.imp_right fun h => ⟨h.counted, h.first, fun j hj => ?_⟩
    obtain ⟨xs, l, l', hlexemes, -, -⟩ := h.first
    have hcounted : s.lexemes.length = s.count := h.counted
    rw [hlexemes, List.length_append] at hcounted
    change xs.length + 2 = s.count at hcounted
    rcases List.mem_cons.1 hj with hj | hj
    · cases hj
      exact .inr (by omega)
    · exact h.keys j (List.mem_cons_of_mem _ hj)

/-! ## The first step -/

theorem leading_entered {l : Lexeme} (h : l.token.Leads) : Leading ((start c).entered l) :=
  ⟨l, rfl, h⟩

theorem leading_ite {p : Prop} [Decidable p] {a b : Except SyntaxError Scanner}
    (ha : p → a = .ok t → Leading t) (hb : b = .ok t → Leading t)
    (h : (if p then a else b) = .ok t) : Leading t := by
  split at h
  · exact ha ‹_› h
  · exact hb h

theorem leading_scanProperty {read : Cursor → Except SyntaxError (Token × Cursor)}
    (hread : ∀ token d, read c = .ok (token, d) → token.Leads)
    (hscan : (start c).scanProperty read = .ok t) : Leading t := by
  obtain ⟨u, hu, hscan⟩ := bind_eq_ok_iff.1 hscan
  cases hu
  obtain ⟨⟨token, d⟩, htoken, hscan⟩ := bind_eq_ok_iff.1 hscan
  cases hscan
  exact ⟨_, rfl, hread token d htoken⟩

theorem leading_scanBlockScalar {style : ScalarStyle} (hscan : (start c).scanBlockScalar style = .ok t) :
    Leading t := by
  obtain ⟨u, hu, hscan⟩ := bind_eq_ok_iff.1 hscan
  obtain ⟨⟨text, d⟩, -, hscan⟩ := bind_eq_ok_iff.1 hscan
  cases hu
  cases hscan
  exact ⟨_, rfl, trivial⟩

theorem leading_scanQuoted {style : ScalarStyle} (hscan : (start c).scanQuoted style = .ok t) :
    Leading t := by
  obtain ⟨u, hu, hscan⟩ := bind_eq_ok_iff.1 hscan
  obtain ⟨⟨text, d⟩, -, hscan⟩ := bind_eq_ok_iff.1 hscan
  cases hu
  cases hscan
  exact ⟨_, rfl, trivial⟩

theorem leading_scanPlain (hscan : (start c).scanPlain = .ok t) : Leading t := by
  obtain ⟨u, hu, hscan⟩ := bind_eq_ok_iff.1 hscan
  obtain ⟨⟨text, broken, d⟩, -, hscan⟩ := bind_eq_ok_iff.1 hscan
  cases hu
  cases hscan
  exact ⟨_, rfl, trivial⟩

/-- The first token stands for itself, unless it is a tag. -/
theorem leading_scanToken {x : Char} {r : List Char} (hcolumn : c.column = 0) (hrest : c.rest = x :: r)
    (hmark : startsMark c.rest = false) (hx : x ≠ '&' ∧ x ≠ '\x7b')
    (htag : x = '!' → ∀ token d, c.readTag false = .ok (token, d) → token.Leads)
    (hscan : (start c).scanToken = .ok t) : Leading t := by
  rw [startsMark, Bool.or_eq_false_iff, Bool.or_eq_false_iff, hrest] at hmark
  have hdash : ¬startsDocumentMark '-' (x :: r) = true := ne_true_of_eq_false hmark.1.2
  have hdot : ¬startsDocumentMark '.' (x :: r) = true := ne_true_of_eq_false hmark.2
  have hcursor : (start c).cursor.rest = x :: r := hrest
  rw [scanToken, hcursor] at hscan
  dsimp only at hscan
  revert hscan
  refine leading_ite (fun h => ?_) ?_
  · obtain ⟨-, rfl⟩ := h
    cases hmark.1.1
  refine leading_ite (fun h => absurd h.2 hdash) ?_
  refine leading_ite (fun h => absurd h.2 hdot) ?_
  refine leading_ite (fun _ hscan => ?_) ?_
  · cases hscan
    exact ⟨_, rfl, trivial⟩
  refine leading_ite (fun h => absurd h hx.2) ?_
  refine leading_ite (fun _ hscan => ?_) ?_
  · cases hscan
    exact ⟨_, rfl, trivial⟩
  refine leading_ite (fun _ hscan => ?_) ?_
  · cases hscan
    exact ⟨_, rfl, trivial⟩
  refine leading_ite (fun _ hscan => ?_) ?_
  · cases hscan
    exact ⟨_, rfl, trivial⟩
  refine leading_ite (fun _ hscan => ?_) ?_
  · change ((start c).openBlock c.column none .blockSequenceStart).dropKey >>= _ = .ok t at hscan
    rw [openBlock_start hcolumn] at hscan
    cases hscan
    exact ⟨_, rfl, trivial⟩
  refine leading_ite (fun _ hscan => ?_) ?_
  · rw [scanKey_entered hcolumn] at hscan
    exact stable_leading.scanKey (leading_entered (leads_of_inserted (.inr rfl))) hscan
  refine leading_ite (fun _ hscan => ?_) ?_
  · rw [scanValue_entered hcolumn] at hscan
    exact stable_leading.scanValue (leading_entered (leads_of_inserted (.inr rfl))) hscan
  refine leading_ite (fun _ => leading_scanProperty fun token d hread => ?_) ?_
  · obtain ⟨name, rfl⟩ := Cursor.readName_eq hread
    trivial
  refine leading_ite (fun h => absurd h hx.1) ?_
  refine leading_ite (fun h => leading_scanProperty (htag h)) ?_
  refine leading_ite (fun _ => leading_scanBlockScalar) ?_
  refine leading_ite (fun _ => leading_scanBlockScalar) ?_
  refine leading_ite (fun _ => leading_scanQuoted) ?_
  refine leading_ite (fun _ => leading_scanQuoted) ?_
  exact leading_ite (fun _ => leading_scanPlain) fun h => by cases h

/-- The end of a flow mapping that has just started. -/
theorem braced_close {r : List Char} {l : Lexeme} (hrest : s.cursor.rest = '\x7d' :: r)
    (hroom : s.cursor.rest.length ≤ s.cursor.size) (hcount : s.count = 1) (hlexemes : s.lexemes = [l])
    (hl : l.token = .flowMappingStart) (houter : s.outerKeys = [some k]) (hk : k.number = 0)
    (hstep : s.step = .ok t) : Braced t := by
  rw [step_eq hroom, next_spaces (k := 0) (by decide) hrest] at hstep
  obtain ⟨u, hdrop, hscan⟩ := bind_eq_ok_iff.1 hstep
  have hu := dropStaleKeys_eq hdrop
  have hlexemesu : u.lexemes = [l] := by rw [hu, hlexemes]
  have hcountu : u.count = 1 := by rw [hu, hcount]
  obtain ⟨key, hkey, houteru⟩ : ∃ key : Option ImplicitKey,
      (∀ j, key = some j → j.number = 0) ∧ u.outerKeys = [key] := by
    refine ⟨_, fun j hj => ?_, by rw [hu, houter]; rfl⟩
    have hmem : some j ∈ [some k] := mem_freshKeys (List.mem_singleton.2 hj.symm)
    cases List.mem_singleton.1 hmem
    exact hk
  have hrestu : u.cursor.rest = '\x7d' :: r := by rw [hu]; exact hrest
  rw [closeBlocks_flow (by rw [houteru]; exact List.cons_ne_nil _ _),
    scanToken_closing brackets_braces hrestu] at hscan
  obtain ⟨v, hv, hscan⟩ := bind_eq_ok_iff.1 hscan
  have hv := dropKey_eq hv
  have houterv : (v.push .flowMappingEnd).outerKeys = [key] := by rw [hv]; exact houteru
  dsimp only at hscan
  rw [houterv] at hscan
  cases hscan
  refine ⟨?_, ⟨[], l, ⟨.flowMappingEnd, v.cursor.line, v.cursor.column⟩, ?_, hl, rfl⟩, fun j hj => ?_⟩
  · change (_ :: v.lexemes).length = v.count + 1
    rw [hv, List.length_cons, hlexemesu, hcountu]
    rfl
  · change _ :: v.lexemes = _
    rw [hv, hlexemesu]
    rfl
  · exact .inl (hkey j (List.mem_singleton.1 hj).symm)

/-- **What the first token of a text tells**: with none of these characters in front, it tells what
the root is; a text may also start with an empty flow mapping. -/
theorem opened_run {x : Char} {r : List Char} {m : Nat} {ls : List Lexeme} (hcolumn : c.column = 0)
    (hrest : c.rest = x :: r) (hx : startsToken x = true) (hroom : c.rest.length ≤ c.size)
    (hmark : startsMark c.rest = false) (hanchor : x ≠ '&')
    (hbrace : x = '\x7b' → r.head? = some '\x7d')
    (htag : x = '!' → ∀ token d, c.readTag false = .ok (token, d) → token.Leads)
    (hrun : run m (start c) = .ok ls) : ∃ t, Opened t ∧ ls = t.lexemes.reverse := by
  obtain _ | m := m
  · cases hrun
  rw [run_succ (s := start c) m rfl] at hrun
  obtain ⟨t, ht, hrun⟩ := bind_eq_ok_iff.1 hrun
  rw [step_start hrest hx hroom] at ht
  by_cases hopen : x = '\x7b'
  · subst hopen
    obtain ⟨r, rfl⟩ : ∃ r', r = '\x7d' :: r' := by
      cases r with
      | nil => cases hbrace rfl
      | cons y r => exact ⟨r, by rw [Option.some.inj (hbrace rfl)]⟩
    rw [scanToken_opening (s := start c) brackets_braces hrest] at ht
    cases ht
    obtain _ | m := m
    · cases hrun
    rw [run_succ m rfl] at hrun
    obtain ⟨u, hu, hrun⟩ := bind_eq_ok_iff.1 hrun
    have hone : (c.advance 1).rest = '\x7d' :: r := by rw [Cursor.advance_rest, hrest]; rfl
    refine stable_opened.run (.inr (braced_close (r := r) hone ?_ rfl rfl rfl rfl rfl hu)) hrun
    exact Nat.le_trans (Cursor.behind_advance c 1).le hroom
  · exact stable_opened.run (.inl (leading_scanToken hcolumn hrest hmark ⟨hanchor, hopen⟩ htag ht)) hrun

end Scanner

/-! ## The root -/

namespace Node

variable {handles : Handles} {indentless : Bool} {n : Nat} {ls rest : List Lexeme}
  {p : Properties String} {es : List (Node String × Node String)}

theorem readContent_mapping {q : Properties String × List Lexeme}
    (h : readContent handles true indentless n q = .ok (.mapping p es, rest)) :
    p = q.1 ∧ (peek q.2 = .blockMappingStart ∨ peek q.2 = .flowMappingStart ∧
      ∃ ls', readFlowEntries handles true n q.2.tail = .ok (es, ls')) := by
  rw [readContent] at h
  split at h
  · cases h
  · obtain ⟨r, -, h⟩ := bind_eq_ok_iff.1 h
    cases h
  · rename_i heq
    obtain ⟨r, hr, h⟩ := bind_eq_ok_iff.1 h
    cases h
    exact ⟨rfl, .inr ⟨heq, r.2, hr⟩⟩
  split at h
  · obtain ⟨r, -, h⟩ := bind_eq_ok_iff.1 h
    cases h
  split at h
  · obtain ⟨r, -, h⟩ := bind_eq_ok_iff.1 h
    cases h
  split at h
  · rename_i hblock
    obtain ⟨r, -, h⟩ := bind_eq_ok_iff.1 h
    cases h
    exact ⟨rfl, .inl (eq_of_beq (Bool.and_eq_true_iff.1 hblock).2)⟩
  split at h
  · cases h
  · cases hq : q.2 <;> rw [hq] at h <;> cases h

/-- The properties of a node whose first token tells what it is. -/
theorem readProperties_lead {q : Properties String × List Lexeme} (hlead : (peek ls).Leads)
    (h : readProperties Handles.standard ls = .ok q) :
    q = ({}, ls) ∨ ∃ name, q.1.tag = some (.text (String.ofList ('!' :: name))) := by
  rw [readProperties] at h
  split at h
  · rename_i hanchor
    rw [hanchor] at hlead
    exact hlead.elim
  · rename_i htag
    rw [htag] at hlead
    obtain ⟨handle', suffix', name, hsame, hread⟩ := hlead
    cases hsame
    obtain ⟨tag, htag, h⟩ := bind_eq_ok_iff.1 h
    rw [hread] at htag
    cases htag
    refine .inr ⟨name, ?_⟩
    split at h <;> cases h <;> rfl
  · cases h
    exact .inl rfl

theorem localName?_written (name : List Char) :
    (Tag.text (String.ofList ('!' :: name))).localName? ≠ none := by
  cases name with
  | nil => simp [Tag.localName?]
  | cons x name => simp [Tag.localName?]

theorem read_lead (h : read Handles.standard true false n ls = .ok (.mapping p es, rest))
    (hes : es ≠ []) (htag : p.tag.bind Tag.localName? = none)
    (hlead : (∃ x ∈ ls.head?, x.token.Leads) ∨ ∃ l l' ls', ls = l :: l' :: ls' ∧
      l.token = .flowMappingStart ∧ l'.token = .flowMappingEnd) :
    peek ls = .blockMappingStart := by
  cases n with
  | zero => cases ls <;> cases h
  | succ n =>
  rw [read_succ] at h
  split at h
  · cases h
  obtain ⟨q, hq, h⟩ := bind_eq_ok_iff.1 h
  obtain ⟨rfl, hstart⟩ := readContent_mapping h
  rcases hlead with ⟨x, hx, hlead⟩ | ⟨l, l', ls', rfl, hl, hl'⟩
  · obtain ⟨ls, rfl⟩ : ∃ ls', ls = x :: ls' := List.head?_eq_some_iff.1 hx
    have hpeek : (peek (x :: ls)).Leads := hlead
    obtain rfl | ⟨name, hname⟩ := readProperties_lead hpeek hq
    · refine hstart.resolve_right fun hflow => ?_
      have hfalse : x.token = .flowMappingStart := hflow.1
      rw [hfalse] at hlead
      exact hlead
    · rw [hname] at htag
      exact absurd htag (localName?_written name)
  · have hpeek : peek (l :: l' :: ls') = .flowMappingStart := hl
    rw [readProperties, hpeek] at hq
    cases hq
    obtain ⟨-, ls'', hread⟩ := hstart.resolve_left (by rw [hpeek]; simp)
    cases n with
    | zero => cases hread
    | succ n =>
      have hend : (peek (l' :: ls') == .flowMappingEnd) = true := by
        rw [beq_iff_eq]
        exact hl'
      rw [readFlowEntries_succ, List.tail_cons, hend] at hread
      cases hread
      exact absurd rfl hes

/-- **A block mapping comes first** in the tokens of a mapping that has entries and no local tag, if
the first token tells what the root is. -/
theorem ofTokens_lead (h : ofTokens ls = .ok (.mapping p es)) (hes : es ≠ [])
    (htag : p.tag.bind Tag.localName? = none)
    (hlead : (∃ x ∈ ls.head?, x.token.Leads) ∨ ∃ l l' ls', ls = l :: l' :: ls' ∧
      l.token = .flowMappingStart ∧ l'.token = .flowMappingEnd) :
    peek ls = .blockMappingStart := by
  have hfinish : ∀ {x : Except SyntaxError (Node String × List Lexeme)},
      (x >>= fun q => if atStreamEnd q.2 then .ok q.1 else failAt q.2 "expected a single document")
        = .ok (.mapping p es) → ∃ rest, x = .ok (.mapping p es, rest) := by
    intro x h
    obtain ⟨⟨node, rest⟩, hx, hnode⟩ := bind_eq_ok_iff.1 h
    dsimp only at hnode
    split at hnode
    · cases hnode
      exact ⟨rest, hx⟩
    · cases rest <;> cases hnode
  have hexplicit : peek ls ≠ .documentStart ∧ (∀ major minor, peek ls ≠ .versionDirective major minor) ∧
      ∀ handle stem, peek ls ≠ .tagDirective handle stem := by
    rcases hlead with ⟨x, hx, hlead⟩ | ⟨l, l', ls', rfl, hl, -⟩
    · obtain ⟨ls, rfl⟩ : ∃ ls', ls = x :: ls' := List.head?_eq_some_iff.1 hx
      change x.token ≠ _ ∧ (∀ _ _, x.token ≠ _) ∧ ∀ _ _, x.token ≠ _
      refine ⟨?_, fun _ _ => ?_, fun _ _ => ?_⟩ <;>
      · intro hx
        rw [hx] at hlead
        exact hlead
    · change l.token ≠ _ ∧ (∀ _ _, l.token ≠ _) ∧ ∀ _ _, l.token ≠ _
      rw [hl]
      simp
  rw [ofTokens] at h
  split at h
  · cases hfinish h with
    | intro rest h => cases h
  · exact absurd ‹_› (hexplicit.2.1 _ _)
  · exact absurd ‹_› (hexplicit.2.2 _ _)
  · exact absurd ‹_› hexplicit.1
  · obtain ⟨rest, hread⟩ := hfinish h
    exact read_lead hread hes htag hlead

end Node

end JobMatrix.Yaml
