import JobMatrix.Proofs.Gitlab.Nodes
import JobMatrix.Proofs.Yaml.Excerpt.End
import JobMatrix.Proofs.Yaml.Excerpt.Entry
import JobMatrix.Proofs.Yaml.Excerpt.Stream
import JobMatrix.Proofs.Yaml.Excerpt.Written

/-!
# A template inside a pipeline file

The text of a template stands between the head of a pipeline file and its stages.  If the tokens of
the template by itself are those of a block mapping, then its entries are entries of the file
(`ofTokens_splice`).
-/

set_option autoImplicit false

namespace JobMatrix

namespace Yaml.Scanner

variable {t : Scanner} {toks : List Token} {cs after : List Char} {l : Lexeme}

/-- A scanner inside a block mapping, in front of the text, is where a scanner is that has entered
the block mapping of the text. -/
theorem AtToken.inside (h : t.AtToken [0] toks (cs ++ after) 0) (hcs : IsExcerpt cs)
    (hl : l.token = .blockMappingStart) (hafter : ∀ x ∈ after.head?, x = '#') :
    Inside ⟨t.cursor.line, t.cursor.index, after, hafter⟩ toks.reverse t.count
      ((start (Cursor.ofText cs)).entered l) t where
  cursor :=
    { rest := h.rest_eq
      column := h.column_eq
      line := (Nat.zero_add _).symm
      index := (Nat.zero_add _).symm
      room := Nat.le_refl _
      room' := h.room
      size := by
        have hroom := h.room
        rw [h.rest_eq, List.length_append] at hroom
        exact Nat.le_trans (Nat.le_add_right _ _) hroom
      last := hcs.last
      ends := fun _ => rfl
      unmarked := hcs.unmarked
      mark := fun _ => hcs.mark }
  entries :=
    { unfinished := rfl
      counted := rfl
      started := Nat.zero_lt_one
      levels_eq := ⟨[], by simp, rfl⟩
      keys := fun k hk => by simp [entered, start] at hk
      flow := fun hflow => by cases hflow
      inner := fun x hx => by
        cases List.mem_singleton.1 hx
        rw [hl]
        exact fun _ => rfl }
  lexemes := by
    refine ⟨[], by rw [List.nil_append, ← hl]; rfl, ?_⟩
    rw [List.nil_append, ← h.tokens_eq, tokens, List.reverse_reverse]
  count := (Nat.zero_add _).symm
  indent := (Prod.mk.inj h.levels_eq).1
  indents := (Prod.mk.inj h.levels_eq).2
  key := h.key
  outerKeys := h.outer
  keyAllowed := h.keyAllowed
  finished := h.unfinished

theorem AtToken.step_eq {stack : List Nat} {x : Char} {rest : List Char} {column : Nat}
    (h : t.AtToken stack toks (x :: rest) column) (hx : startsToken x = true)
    (hstack : ∀ o ∈ stack.head?, o ≤ column) : t.step = t.scanToken := by
  refine step_eq_scanToken h.rest_eq hx h.room h.key h.outer ?_
  refine closeBlocks_self h.outer h.levels_eq fun o ho => ?_
  rw [h.column_eq]
  exact Int.ofNat_le.2 (hstack o ho)

/-- A scanner at the start of a line goes on like one that stands on the first token of the line. -/
theorem InBlock.exists_token {s : Scanner} {x : Char} {rest : List Char}
    (h : s.InBlock 0 [] toks (x :: rest)) (hx : startsToken x = true) :
    ∃ t : Scanner, (∀ m, run (m + 1) s = run (m + 1) t) ∧ t.AtToken [0] toks (x :: rest) 0 := by
  obtain ⟨inner, toks', h, hinner, rfl⟩ := h
  have hstart : s.AtLine (inner ++ [0]) toks' (List.replicate 0 ' ' ++ x :: rest) := h
  obtain ⟨t, hstep, -, ht⟩ := hstart.exists_start hx hinner
    (fun o ho => by cases ho; exact Nat.le_refl _)
  refine ⟨t, fun m => ?_, ht⟩
  rw [run_succ m h.unfinished, run_succ m ht.unfinished, hstep,
    ht.step_eq hx fun o ho => by cases ho; exact Nat.le_refl _]

variable {s : Scanner} {text : String} {ls ys : List Lexeme} {e z : Lexeme}

/-- **A text inside a block mapping.**  The scanner comes to the end of the text with a scanner of
the text alone. -/
theorem InBlock.inside (h : s.InBlock 0 [] toks (text.toList ++ after))
    (hafter : ∀ x ∈ after.head?, x = '#') (htext : IsExcerpt text.toList)
    (hls : Yaml.tokens text = .ok (l :: ls)) (hl : l.token = .blockMappingStart) :
    ∃ (ex : Excerpt) (n : Nat) (u u' v : Scanner), ex.after = after ∧
      Inside ex toks.reverse n u u' ∧ EndsWith u v ∧ l :: ls = v.lexemes.reverse ∧
      ∀ n, (text.toList ++ after).length + 2 ≤ n →
        ∃ m, after.length + 2 ≤ m ∧ run n s = run m u' := by
  obtain ⟨x, r, hcons, hx⟩ := htext.first
  have hshown : run (text.toList.length + 2) (start (Cursor.ofText text.toList)) = .ok (l :: ls) := by
    rw [Yaml.tokens] at hls
    split at hls
    · exact hls
    · cases hls
  rw [hcons, List.cons_append] at h
  obtain ⟨t, hrun, ht⟩ := h.exists_token hx
  rw [← List.cons_append, ← hcons] at ht
  have hinside := ht.inside htext hl hafter
  have hentered := run_entered rfl hcons hx hl hinside hshown
  obtain ⟨k, u, u', v, hk, hu, hend, hv, hruns⟩ := hinside.run hentered
  refine ⟨_, _, u, u', v, rfl, hu, hend, hv, fun n hn => ?_⟩
  rw [List.length_append] at hn
  obtain ⟨m, rfl⟩ : ∃ m, n = m + 1 + k := ⟨n - 1 - k, by omega⟩
  refine ⟨m + 1, by omega, ?_⟩
  have hsucc : m + 1 + k = m + k + 1 := by omega
  rw [← hruns, hsucc, hrun]

/-- The tokens of a block mapping end with the end of the stream, which comes only there. -/
theorem exists_streamEnd (htext : IsExcerpt text.toList) (hls : Yaml.tokens text = .ok (l :: ls))
    (hl : l.token = .blockMappingStart) :
    ∃ xs z, l :: ls = l :: xs ++ [z] ∧ z.token = .streamEnd ∧
      ∀ x ∈ xs, x.token ≠ .streamEnd ∧ x.token ≠ .documentEnd := by
  have hblock : InBlock { start (Cursor.ofText text.toList) with indent := 0, indents := [-1] } 0 []
      [] (text.toList ++ []) :=
    AtLine.inBlock { atLine_start text.toList with
      rest_eq := (List.append_nil _).symm
      levels_eq := rfl }
  obtain ⟨_, _, u, _, v, _, hinside, hend, hv, _⟩ :=
    hblock.inside (fun x hx => by cases hx) htext hls hl
  obtain ⟨z, zs, hlexemes, hz, hzs⟩ := hend.lexemes_eq hinside.entries
  rw [hlexemes, List.reverse_cons] at hv
  cases hreverse : zs.reverse with
  | nil =>
    rw [hreverse] at hv
    cases hv
    rw [hl] at hz
    cases hz
  | cons l' xs =>
    rw [hreverse] at hv
    cases hv
    refine ⟨xs, z, rfl, hz, fun x hx => hzs x ?_⟩
    rw [← List.mem_reverse, hreverse]
    exact List.mem_cons_of_mem _ hx

/-- The tokens of a block mapping, as a scanner has them at the end of its text. -/
theorem tokens_of_lexemes {v : Scanner} (hl : l.token = .blockMappingStart)
    (he : e.token = .blockEnd) (hz : z.token = .streamEnd)
    (hv : l :: (ys ++ [e, z]) = v.lexemes.reverse) :
    v.tokens = .blockMappingStart :: ys.map (·.token) ++ [.blockEnd, .streamEnd] := by
  rw [tokens, ← List.map_reverse, ← hv]
  simp [hl, he, hz]

/-- Behind the text comes a comment. -/
theorem InBlock.excerpt {cs rest : List Char} (hcomment : ∀ x ∈ cs, isBreak x = false)
    (h : s.InBlock 0 [] toks (text.toList ++ ('#' :: cs ++ '\n' :: rest)))
    (htext : IsExcerpt text.toList) (hls : Yaml.tokens text = .ok (l :: (ys ++ [e, z])))
    (hl : l.token = .blockMappingStart) (he : e.token = .blockEnd) (hz : z.token = .streamEnd) :
    ∃ u, u.InBlock 0 [] (toks ++ ys.map (·.token)) rest ∧
      ∀ n, (text.toList ++ ('#' :: cs ++ '\n' :: rest)).length + 2 ≤ n →
        ∃ m, rest.length + 2 ≤ m ∧ run n s = run m u := by
  obtain ⟨ex, n, u, u', v, hafter, hinside, hend, hv, hruns⟩ :=
    h.inside (fun x hx => by cases hx; rfl) htext hls hl
  obtain ⟨inner, toks', w, hleads, hw, hinner, htoks⟩ :=
    hinside.exists_atLine hend (tokens_of_lexemes hl he hz hv) hafter hcomment
  rw [List.reverse_reverse] at htoks
  refine ⟨w, ⟨inner, toks', hw, hinner, htoks⟩, fun n hn => ?_⟩
  obtain ⟨m, hm, hrun⟩ := hruns n hn
  have hrest : u'.cursor.rest = '#' :: cs ++ '\n' :: rest := by
    rw [hinside.cursor.rest, hend.1, hafter, List.nil_append]
  obtain ⟨m', hm', hrun'⟩ := hleads.run m (by rw [hrest]; exact hm)
  rw [hw.rest_eq] at hm'
  exact ⟨m', hm', hrun.trans hrun'⟩

/-- Behind the text comes nothing. -/
theorem InBlock.excerpt_end (h : s.InBlock 0 [] toks text.toList) (htext : IsExcerpt text.toList)
    (hls : Yaml.tokens text = .ok (l :: (ys ++ [e, z]))) (hl : l.token = .blockMappingStart)
    (he : e.token = .blockEnd) (hz : z.token = .streamEnd) {n : Nat}
    (hn : text.toList.length + 2 ≤ n) :
    ∃ ls', run n s = .ok ls' ∧
      ls'.map (·.token) = toks ++ ys.map (·.token) ++ [.blockEnd, .streamEnd] := by
  rw [← List.append_nil text.toList] at h hn
  obtain ⟨ex, k, u, u', v, hafter, hinside, hend, hv, hruns⟩ :=
    h.inside (fun x hx => by cases hx) htext hls hl
  obtain ⟨m, hm, hrun⟩ := hruns n hn
  obtain ⟨ls', hls', htokens⟩ :=
    hinside.run_end hend (tokens_of_lexemes hl he hz hv) hafter (m := m) (by simpa using hm)
  refine ⟨ls', hrun.trans hls', ?_⟩
  rw [htokens, List.reverse_reverse, List.append_assoc]
  rfl

end Yaml.Scanner

namespace Gitlab

open Yaml Yaml.Scanner Yaml.Node

variable {p : Pipeline} {template text : String} {l e z : Lexeme} {ys : List Lexeme}

/-- Behind a template stand the jobs of the first stage. -/
theorem exists_behind_template {s : Scanner} {toks : List Token} {wave : Nat} {st : Stage}
    {rest : List Char}
    (h : s.InBlock 0 [] toks (template.toList ++ ((stageText wave st).toList ++ rest)))
    (htemplate : IsExcerpt template.toList) (hls : tokens template = .ok (l :: (ys ++ [e, z])))
    (hl : l.token = .blockMappingStart) (he : e.token = .blockEnd) (hz : z.token = .streamEnd) :
    ∃ u : Scanner, u.InBlock 0 [] (toks ++ ys.map (·.token))
        ('\n' :: (st.jobs.flatMap (fun j => (jobText j).toList ++ ['\n']) ++ rest)) ∧
      ∀ n, s.cursor.rest.length + 2 ≤ n →
        ∃ m, u.cursor.rest.length + 2 ≤ m ∧ run n s = run m u := by
  obtain ⟨cs, hseparator, hcs⟩ := exists_separator wave
  have hrest := h.rest_eq
  rw [toList_stageText, hseparator] at h hrest
  simp only [List.append_assoc, List.cons_append, List.nil_append] at h hrest
  obtain ⟨u, hu, hruns⟩ := InBlock.excerpt (fun x hx => (hcs x hx).1) h htemplate hls hl he hz
  refine ⟨u, hu, ?_⟩
  rw [hrest, hu.rest_eq]
  exact hruns

/-- **The tokens of a file with a template.**  Those of the template, less the bounds of its block
mapping, stand behind those of the head. -/
theorem tokens_splice (hp : ShortFile p) (htemplate : IsExcerpt template.toList)
    (hls : tokens template = .ok (l :: (ys ++ [e, z]))) (hl : l.token = .blockMappingStart)
    (he : e.token = .blockEnd) (hz : z.token = .streamEnd)
    (htext : text = headText p ++ template ++ stagesText 0 p.stages) :
    ∃ ls, tokens text = .ok ls ∧
      ls.map (·.token) = headTokens p ++ ys.map (·.token) ++ p.stages.flatMap stageTokens
        ++ [.blockEnd, .streamEnd] := by
  have hchars : text.toList
      = (headText p).toList ++ (template.toList ++ (stagesText 0 p.stages).toList) := by
    rw [htext, String.toList_append, String.toList_append, List.append_assoc]
  have hshown : text.toList.all isStreamChar = true := by
    have htemplate' : Shown template.toList := by
      rw [Yaml.tokens] at hls
      split at hls
      · exact List.all_eq_true.1 ‹_›
      · cases hls
    rw [List.all_eq_true, hchars]
    exact shown_append.2 ⟨shown_headText p,
      shown_append.2 ⟨htemplate', shown_stagesText p.stages 0⟩⟩
  have hstart : AtLine { cursor := Cursor.ofText text.toList } [] []
      ((headText p).toList ++ (template.toList ++ (stagesText 0 p.stages).toList)) :=
    { atLine_start text.toList with rest_eq := hchars }
  obtain ⟨s₁, hleads₁, h⟩ := inBlock_head hp.environment hstart
  obtain ⟨n, hn, hrun⟩ := hleads₁.run (text.toList.length + 2) (Nat.le_refl _)
  rw [Yaml.tokens, if_pos hshown]
  change ∃ ls, run (text.toList.length + 2) _ = .ok ls ∧ _
  rw [hrun]
  cases hstages : p.stages with
  | nil =>
    rw [h.rest_eq] at hn
    rw [hstages, stagesText, String.toList_empty, List.append_nil] at h hn
    rw [List.flatMap_nil, List.append_nil]
    exact h.excerpt_end htemplate hls hl he hz hn
  | cons st stages =>
    have hjobs := hp.jobs
    rw [hstages, List.forall_mem_cons] at hjobs
    rw [hstages, stagesText, String.toList_append] at h
    obtain ⟨s₂, h, hruns⟩ := exists_behind_template h htemplate hls hl he hz
    obtain ⟨m, hm, hrun⟩ := hruns n hn
    obtain ⟨s₃, hleads₃, h⟩ := inBlock_stageJobs hjobs.1 h
    rw [← List.append_nil (stagesText _ stages).toList] at h
    obtain ⟨s₄, hleads₄, h⟩ := inBlock_stages hjobs.2 h
    obtain ⟨k, hk, hrun'⟩ := (hleads₃.trans hleads₄).run m hm
    obtain ⟨ls, hls', htokens⟩ := h.run_end (n := k) (by omega)
    refine ⟨ls, hrun.trans (hrun'.trans hls'), ?_⟩
    rw [htokens, List.flatMap_cons]
    simp only [List.append_assoc]

/-- The tokens of a text that is a block mapping. -/
theorem exists_blockTokens {root : Node String} {ls : List Lexeme}
    (htemplate : IsExcerpt template.toList) (hls : tokens template = .ok ls)
    (hpeek : peek ls = .blockMappingStart) (hroot : ofTokens ls = .ok root) :
    ∃ l ys e z es, ls = l :: (ys ++ [e, z]) ∧ l.token = .blockMappingStart ∧ e.token = .blockEnd ∧
      z.token = .streamEnd ∧ root = .mapping {} es ∧
        readBlockEntries Handles.standard (2 * (ys.length + 1) + 5) (ys ++ [e, z]) = .ok (es, [z]) := by
  cases ls with
  | nil => cases hpeek
  | cons l ls =>
    obtain ⟨xs, z, hcons, hz, hxs⟩ := exists_streamEnd htemplate hls hpeek
    rw [hcons] at hroot ⊢
    obtain ⟨ys, e, es, rfl, he, hes, hread⟩ := ofTokens_entries hpeek hz hxs hroot
    rw [List.length_append, List.length_singleton] at hread
    exact ⟨l, ys, e, z, es, by simp, hpeek, he, hz, hes, hread⟩

/-- **The entries of a template are entries of the file.** -/
theorem ofTokens_splice {root : Node String} {ls : List Lexeme} (hp : ShortFile p)
    (htemplate : IsExcerpt template.toList) (hls : tokens template = .ok ls)
    (hpeek : peek ls = .blockMappingStart) (hroot : ofTokens ls = .ok root)
    (htext : text = headText p ++ template ++ stagesText 0 p.stages) :
    ∃ es ls', root = .mapping {} es ∧ tokens text = .ok ls' ∧
      ofTokens ls' = .ok (.mapping {} (headEntries p ++ es ++ p.jobs.map jobEntry)) := by
  obtain ⟨l, ys, e, z, es, rfl, hl, he, hz, hes, hread⟩ :=
    exists_blockTokens htemplate hls hpeek hroot
  obtain ⟨ls', hls', htokens⟩ := tokens_splice hp htemplate hls hl he hz htext
  refine ⟨es, ls', hes, hls', ?_⟩
  exact ofTokens_between he (readsEntries_head p) (readsEntries_jobs p) (by omega) hread htokens

end Gitlab

end JobMatrix
