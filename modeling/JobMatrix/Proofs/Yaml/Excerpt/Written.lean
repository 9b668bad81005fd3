import JobMatrix.Proofs.Yaml.Excerpt.Lead
import JobMatrix.Proofs.Yaml.Opening
import JobMatrix.Proofs.Yaml.Value

/-!
# The text of a value as an excerpt

The text of a value can stand inside a stream.  If it is read as a mapping that has entries, it is
the text of a block mapping (`Value.blockMapping_of_read`).
-/

set_option autoImplicit false

namespace JobMatrix.Yaml

open Scanner

/-- A text that can be read inside a stream: its lines are complete, none of them starts with a
mark, and its first character starts a token. -/
structure IsExcerpt (cs : List Char) : Prop where
  last : ∀ x ∈ cs.getLast?, isBreak x = true
  unmarked : Unmarked cs
  mark : startsMark cs = false
  first : ∃ x r, cs = x :: r ∧ startsToken x = true

theorem Cursor.ReadsLocal.leads {token : Token} (h : ReadsLocal token) : token.Leads := by
  obtain ⟨handle, suffix, -, rfl, -⟩ := id h
  exact h

namespace Opening

variable {tag : Option String} {cs : List Char}

theorem exists_cons (h : Opening tag cs) : ∃ x r, cs = x :: r ∧ startsToken x = true := by
  cases h with
  | char hx hne => exact ⟨_, _, rfl, hx⟩
  | braces r => exact ⟨_, _, rfl, rfl⟩
  | «tag» hname hy =>
    rename_i name y r
    obtain ⟨cs, hwritten, -⟩ := Layout.writtenTag_eq name
    exact ⟨'!', cs ++ y :: r, by rw [hwritten]; rfl, rfl⟩

/-- The first token of the text tells what the root is, or an empty flow mapping comes first. -/
theorem opened {m : Nat} {ls : List Lexeme} (h : Opening tag cs) (htag : IsLocalTag tag)
    (hmark : startsMark cs = false) (hrun : run m (start (Cursor.ofText cs)) = .ok ls) :
    ∃ t, Opened t ∧ ls = t.lexemes.reverse := by
  have hroom : (Cursor.ofText cs).rest.length ≤ (Cursor.ofText cs).size := Nat.le_refl _
  cases h with
  | char hx hne =>
    simp only [List.mem_cons, List.not_mem_nil, or_false, not_or] at hne
    exact opened_run rfl rfl hx hroom hmark hne.1 (fun h => absurd h hne.2.2)
      (fun h => absurd h hne.2.1) hrun
  | braces r =>
    exact opened_run rfl rfl rfl hroom hmark (by decide) (fun _ => rfl)
      (fun h => absurd h (by decide)) hrun
  | «tag» hname hy =>
    rename_i name y r
    obtain ⟨cs, hwritten, -⟩ := Layout.writtenTag_eq name
    obtain ⟨inner, hname⟩ := htag name hname
    have hrest : (Cursor.ofText (Layout.writtenTag name ++ y :: r)).rest = '!' :: (cs ++ y :: r) := by
      rw [hwritten]
      rfl
    exact opened_run rfl hrest rfl hroom hmark (by decide) (fun h => absurd h (by decide))
      (fun _ _ _ h => (Cursor.readTag_written hname hy rfl h).leads) hrun

end Opening

/-- The tokens of a text that opens with a token that tells what the root is. -/
theorem Scanner.Opened.lead {t : Scanner} (h : t.Opened) :
    (∃ x ∈ t.lexemes.reverse.head?, x.token.Leads) ∨ ∃ l l' ls', t.lexemes.reverse = l :: l' :: ls' ∧
      l.token = .flowMappingStart ∧ l'.token = .flowMappingEnd := by
  rcases h with ⟨x, hx, hlead⟩ | hbraced
  · exact .inl ⟨x, by rwa [List.head?_reverse], hlead⟩
  · obtain ⟨xs, l, l', hlexemes, hl, hl'⟩ := hbraced.first
    exact .inr ⟨l, l', xs.reverse, by rw [hlexemes]; simp, hl, hl'⟩

/-- **A value that is read back as a mapping with entries is written as a block mapping.** -/
theorem Value.blockMapping_of_read {v : Value} {text : String} {es : List (Value × Value)}
    (htext : v.render = .ok text) (hread : read Decoder.value text = .ok (.mapping es))
    (hes : es ≠ []) :
    IsExcerpt text.toList ∧ ∃ ls p entries, tokens text = .ok ls ∧
      Node.peek ls = .blockMappingStart ∧ Node.ofTokens ls = .ok (.mapping p entries) ∧
        ∃ p' entries' ns k, (Node.mapping p entries).number [] = some (.mapping p' entries', ns) ∧
          ((Decoder.valueEntries (Decoder.valueWithin 127) .root [] entries').run
            (.ofRoot (.mapping p' entries'))).run 0 = .ok (es, k) := by
  obtain ⟨events, hevents, htext⟩ := bind_eq_ok_iff.1 htext
  obtain ⟨o, ho, htext⟩ := bind_eq_ok_iff.1 htext
  cases htext
  obtain ⟨ls, p, entries, hls, hnode, htag, p', entries', ns, k, hnumber, hrun⟩ := read_mapping hread
  obtain ⟨hlast, hunmarked, hmark⟩ := o.render_lines
  have hopening : Opening o.leadTag o.render.toList := by
    refine o.render_opening.resolve_left fun hbreak => ?_
    have hbreak : o.render = "\n" := String.toList_inj.1 hbreak
    have hnull : read Decoder.value "\n" = .ok .null := rfl
    rw [hbreak, hnull] at hread
    cases hread
  have hentries : entries ≠ [] := by
    rintro rfl
    cases hnumber
    cases hrun
    exact hes rfl
  have hopened : ∃ t : Scanner, Opened t ∧ ls = t.lexemes.reverse := by
    have hlocal := Outline.isLocalTag_leadTag (Value.localEvents_eventsAfter v hevents) ho
    rw [tokens] at hls
    split at hls
    · exact hopening.opened hlocal hmark hls
    · cases hls
  obtain ⟨t, hopened, rfl⟩ := hopened
  exact ⟨⟨hlast, hunmarked, hmark, hopening.exists_cons⟩, _, p, entries, hls,
    Node.ofTokens_lead hnode hentries htag hopened.lead, hnode, p', entries', ns, k, hnumber, hrun⟩

end JobMatrix.Yaml
