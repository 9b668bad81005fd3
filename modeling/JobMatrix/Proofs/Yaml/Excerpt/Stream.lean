import JobMatrix.Proofs.Yaml.Excerpt.Node
import JobMatrix.Proofs.Yaml.Node

/-!
# A block mapping inside a stream
-/

set_option autoImplicit false

namespace JobMatrix.Yaml.Node

variable {handles : Handles} {n : Nat} {ls : List Lexeme}

/-! ## The whole stream -/

/-- Where a stream ends in front of its last tokens, only the end of the stream is left, if that is
the last token and comes only there. -/
theorem eq_singleton_of_atStreamEnd {z : Lexeme} {xs us rest : List Lexeme}
    (hxs : ∀ x ∈ xs, x.token ≠ .streamEnd ∧ x.token ≠ .documentEnd) (hsplit : xs ++ [z] = us ++ rest)
    (hrest : rest ≠ []) (hend : atStreamEnd rest = true) : rest = [z] := by
  obtain ⟨rest, z', rfl⟩ := rest.eq_nil_or_concat.resolve_left hrest
  rw [List.concat_eq_append] at *
  rw [← List.append_assoc] at hsplit
  obtain ⟨rfl, hz⟩ := List.append_inj' hsplit rfl
  cases hz
  cases rest with
  | nil => rfl
  | cons x rest =>
    have hx := hxs x (by simp)
    rw [List.cons_append, atStreamEnd] at hend
    split at hend
    · rename_i hx'
      exact absurd hx' hx.1
    · rename_i hx'
      exact absurd hx' hx.2
    · cases hend

/-- **Where a stream is a block mapping**, its tokens end with the end of the mapping. -/
theorem ofTokens_entries {l z : Lexeme} {xs : List Lexeme} {root : Node String}
    (hl : l.token = .blockMappingStart) (hz : z.token = .streamEnd)
    (hxs : ∀ x ∈ xs, x.token ≠ .streamEnd ∧ x.token ≠ .documentEnd)
    (h : ofTokens (l :: xs ++ [z]) = .ok root) :
    ∃ ys e es, xs = ys ++ [e] ∧ e.token = .blockEnd ∧ root = .mapping {} es ∧
      readBlockEntries Handles.standard (2 * xs.length + 5) (ys ++ [e, z]) = .ok (es, [z]) := by
  have hpeek : peek (l :: xs ++ [z]) = .blockMappingStart := hl
  rw [ofTokens, hpeek] at h
  dsimp only at h
  have hlength : 2 * (l :: xs ++ [z]).length + 2 = 2 * xs.length + 5 + 1 := by
    rw [List.length_append, List.length_cons, List.length_singleton]
    omega
  rw [hlength, List.cons_append, read_blockMapping hl] at h
  cases hread : readBlockEntries Handles.standard (2 * xs.length + 5) (xs ++ [z]) with
  | error e =>
    rw [hread] at h
    cases h
  | ok p =>
    obtain ⟨es, rest⟩ := p
    rw [hread] at h
    change (if atStreamEnd rest = true then _ else _) = _ at h
    split at h
    · rename_i hend
      cases h
      obtain ⟨e, he, ys, hys⟩ := readBlockEntries_blockEnd hread
      have hrest : rest = [z] := by
        rw [← List.singleton_append, ← List.append_assoc] at hys
        refine eq_singleton_of_atStreamEnd hxs hys.symm ?_ hend
        rintro rfl
        -- the end of the mapping is not the end of the stream
        have hez := congrArg List.getLast? hys
        rw [List.append_nil, List.getLast?_concat, List.getLast?_concat] at hez
        cases hez
        rw [he] at hz
        cases hz
      subst hrest
      have hxs' : xs = ys ++ [e] := by
        have hys' : (ys ++ [e]) ++ [z] = xs ++ [z] := by rw [← hys, List.append_assoc]; rfl
        exact (List.append_cancel_right hys').symm
      refine ⟨ys, e, es, hxs', he, rfl, ?_⟩
      rw [← hread, ← hys]
    · cases rest <;> cases h

theorem peek_readBlockEntries {n : Nat} {p : List (Node String × Node String) × List Lexeme}
    (h : readBlockEntries handles n ls = .ok p) : peek ls = .key ∨ peek ls = .blockEnd := by
  cases n with
  | zero => cases ls <;> cases h
  | succ n =>
    rw [readBlockEntries_succ] at h
    split at h
    · exact .inl (eq_of_beq ‹_›)
    split at h
    · exact .inr (eq_of_beq ‹_›)
    · exact absurd h (by cases ls <;> simp [failAt])

variable {ts ts' : List Token} {es es' es'' : List (Node String × Node String)}
  {xs ys ys' zs rest : List Lexeme} {e e' z : Lexeme}

/-- The entries `ys` of a block mapping by themselves are read alike between other entries. -/
theorem readBlockEntries_between {n' : Nat} (he : e.token = .blockEnd) (he' : e'.token = .blockEnd)
    (hts : ReadsEntries ts es) (hts' : ReadsEntries ts' es'') (hxs : xs.map (·.token) = ts)
    (hys' : ys'.map (·.token) = ys.map (·.token)) (hzs : zs.map (·.token) = ts')
    (hn : 2 * ys.length < n) (hn' : ts.length + 2 * ys.length + ts'.length < n')
    (hys : readBlockEntries handles n (ys ++ [e, z]) = .ok (es', [z])) :
    readBlockEntries handles n' (xs ++ (ys' ++ (zs ++ e' :: rest)))
      = .ok (es ++ es' ++ es'', rest) := by
  have hle := hts.length_le
  have hle' := hts'.length_le
  have hafter : peek (zs ++ e' :: rest) = .key ∨ peek (zs ++ e' :: rest) = .blockEnd := by
    cases zs with
    | nil => exact .inr he'
    | cons x zs => exact .inl (hts'.starts x.token (by rw [← hzs]; rfl))
  have hboundary : Boundary [e, z] (zs ++ e' :: rest) := ⟨he, hafter⟩
  have hnext : peek (ys' ++ (zs ++ e' :: rest)) = .key ∨
      peek (ys' ++ (zs ++ e' :: rest)) = .blockEnd := by
    cases ys with
    | nil =>
      obtain rfl := List.map_eq_nil_iff.1 hys'
      exact hafter
    | cons y ys =>
      obtain ⟨y', ys', rfl, hy', -⟩ := List.map_eq_cons_iff.1 hys'
      have hpeek : peek (y' :: ys' ++ (zs ++ e' :: rest)) = peek (y :: ys ++ [e, z]) := hy'
      rw [hpeek]
      exact peek_readBlockEntries hys
  have hlength : (ys ++ [e, z]).length = ys.length + 2 := List.length_append
  obtain ⟨hcount, hmiddle⟩ := readBlockEntries_beside hboundary (n' - es.length)
    ⟨ys, ys', hys'.symm, rfl, rfl⟩ (by omega) hys
  obtain ⟨k, hk⟩ : ∃ k, n' - es.length - es'.length - es''.length = k + 1 :=
    ⟨_, (Nat.succ_pred_eq_of_pos (by omega)).symm⟩
  have hend : peek (e' :: rest) = .blockEnd := he'
  rw [hts.reads hxs (by omega) hnext, hmiddle, hts'.reads hzs (by omega) (.inr hend), hk,
    readBlockEntries_end he']
  simp only [Except.map, List.append_nil, List.append_assoc]

/-- **Entries of a stream between other entries.**  The tokens `ys` are those of the block mapping
of a stream of their own. -/
theorem ofTokens_between (he : e.token = .blockEnd) (hts : ReadsEntries ts es)
    (hts' : ReadsEntries ts' es'') (hn : 2 * ys.length < n)
    (hys : readBlockEntries Handles.standard n (ys ++ [e, z]) = .ok (es', [z]))
    (hls : ls.map (·.token)
      = .blockMappingStart :: ts ++ ys.map (·.token) ++ ts' ++ [.blockEnd, .streamEnd]) :
    ofTokens ls = .ok (.mapping {} (es ++ es' ++ es'')) := by
  have hlength : ls.length = ts.length + ys.length + ts'.length + 3 := by
    rw [← List.length_map (fun l : Lexeme => l.token), hls]
    simp only [List.length_append, List.length_cons, List.length_map, List.length_nil]
    omega
  obtain ⟨_, ends, rfl, hls, hends⟩ := List.map_eq_append_iff.1 hls
  obtain ⟨_, zs, rfl, hls, hzs⟩ := List.map_eq_append_iff.1 hls
  obtain ⟨_, ys', rfl, hls, hys'⟩ := List.map_eq_append_iff.1 hls
  obtain ⟨l, xs, rfl, hl, hxs⟩ := List.map_eq_cons_iff.1 hls
  obtain ⟨e', _, rfl, he', hends⟩ := List.map_eq_cons_iff.1 hends
  obtain ⟨z', _, rfl, hz', hends⟩ := List.map_eq_cons_iff.1 hends
  obtain rfl := List.map_eq_nil_iff.1 hends
  rw [List.append_assoc, List.append_assoc, List.cons_append] at hlength ⊢
  have hpeek : peek (l :: (xs ++ (ys' ++ (zs ++ [e', z'])))) = .blockMappingStart := hl
  have hend : atStreamEnd [z'] = true := by rw [atStreamEnd, hz']
  rw [ofTokens, hpeek, hlength]
  dsimp only
  rw [read_blockMapping hl,
    readBlockEntries_between he he' hts hts' hxs hys' hzs hn (by omega) hys]
  change (if atStreamEnd [z'] = true then _ else _) = _
  rw [if_pos hend]

end JobMatrix.Yaml.Node
