import JobMatrix.Proofs.Gitlab.Template

/-!
# Pipeline files that cannot be loaded

What has to be a key, but is none or is too long, stops a scanner (`Scanner.Fails`).  So a file
cannot be loaded if the template is an empty collection (`tokens_emptyCollection`) or if the name of
a job is too long (`tokens_longName`).  With `read_file_iff` this says for which templates that add
entries the file of a verified matrix can be loaded (`verified_file_loads_iff`): no verification
looks at the keys of the template or at the length of a name (`verified_file_may_not_load`).
-/

set_option autoImplicit false

namespace JobMatrix

open Yaml Yaml.Decode Yaml.Decoder Yaml.Scanner

namespace Yaml.Scanner

variable {s s' t : Scanner} {k : ImplicitKey} {toks : List Token} {rest : List Char}

/-- A run through the rest of the text ends with an error. -/
def Fails (s : Scanner) : Prop := ∀ n, s.cursor.rest.length + 2 ≤ n → ∃ e, run n s = .error e

theorem fails_of_step (hfinished : s.finished = false) (h : ∃ e, s.step = .error e) : s.Fails := by
  intro n hn
  obtain ⟨n, rfl⟩ : ∃ m, n = m + 1 := ⟨n - 1, by omega⟩
  obtain ⟨e, he⟩ := h
  exact ⟨e, by rw [run_succ n hfinished, he]; rfl⟩

theorem fails_of_runs (hfails : s'.Fails) (hruns : ∀ n, s.cursor.rest.length + 2 ≤ n →
    ∃ m, s'.cursor.rest.length + 2 ≤ m ∧ run n s = run m s') : s.Fails := by
  intro n hn
  obtain ⟨m, hm, hrun⟩ := hruns n hn
  rw [hrun]
  exact hfails m hm

theorem Leads.fails (h : Leads s s') (hfails : s'.Fails) : s.Fails := fails_of_runs hfails h.run

theorem tokens_of_fails {text : String} (h : Fails { cursor := Cursor.ofText text.toList }) :
    ∃ e, Yaml.tokens text = .error e := by
  rw [Yaml.tokens]
  split
  · exact h _ (Nat.le_refl _)
  · exact ⟨_, rfl⟩

/-- A block goes on like the scanner that stands on the first token of the line. -/
theorem InBlock.fails {x : Char} (h : s.InBlock 0 [] toks (x :: rest)) (hx : startsToken x = true)
    (hfails : ∀ t : Scanner, t.AtToken [0] toks (x :: rest) 0 → t.Fails) : s.Fails := by
  intro n hn
  obtain ⟨t, hrun, ht⟩ := h.exists_token hx
  obtain ⟨n, rfl⟩ : ∃ m, n = m + 1 := ⟨n - 1, by omega⟩
  rw [hrun n]
  refine hfails t ht (n + 1) ?_
  rw [ht.rest_eq, ← h.rest_eq]
  exact hn

/-- Where the next entry of a block has to start, a token has to be a key. -/
theorem AtToken.required {column : Nat} {outer : List Nat}
    (h : t.AtToken (column :: outer) toks rest column) :
    (t.indent == (t.cursor.column : Int)) = true := by
  have hindent : t.indent = (column : Int) := (Prod.mk.inj h.levels_eq).1
  rw [hindent, h.column_eq]
  exact beq_self_eq_true _

/-! ## Collections on a line of their own -/

/-- A key that has to be one comes to its end on the same line. -/
theorem step_required (hkey : s.key = some k) (hrequired : k.required = true)
    (hline : k.line ≤ s.cursor.line) (hrest : s.cursor.rest = '\n' :: rest) :
    ∃ e, s.step = .error e := by
  have htrimmed : s.trimmed = s.cursor := trimmed_break hrest
  have hbroken : s.broken.cursor.line = s.cursor.line + 1 := by
    rw [broken, htrimmed, Cursor.nextLine, hrest]
    rfl
  obtain ⟨u, hu, hukey, huline⟩ : ∃ u, toNextToken s.cursor.size s.broken = u ∧ u.key = some k ∧
      k.line < u.cursor.line := by
    obtain ⟨c, allowed, hle, hnext, -⟩ := toNextToken_eq s.cursor.size s.broken
    exact ⟨_, hnext, hkey, by change k.line < c.line; omega⟩
  obtain ⟨e, he⟩ := dropStaleKeys_required hukey hrequired
    (by rw [isStale, Bool.or_eq_true, decide_eq_true_eq]; exact .inl huline)
  refine ⟨e, ?_⟩
  rw [step, toNextToken_succ, htrimmed, Cursor.sees_eq hrest, if_pos (by rfl), hu, he]
  rfl

/-- A bracket starts a collection, which may be a key. -/
theorem AtToken.step_opening {l : Char} {start finish : Token} {r : Char} {stack : List Nat}
    {column : Nat} (hlr : Brackets l r start finish) (h : t.AtToken stack toks (l :: rest) column)
    (hstack : ∀ o ∈ stack.head?, o ≤ column) :
    ∃ u : Scanner, t.step = .ok u ∧ u.finished = false ∧ u.key = none ∧
      u.outerKeys = [some ⟨t.indent == (t.cursor.column : Int), t.count, t.cursor.index,
        t.cursor.line, t.cursor.column⟩] ∧ u.cursor = t.cursor.advance 1 := by
  have hl : startsToken l = true := by
    obtain ⟨rfl, -⟩ | ⟨rfl, -⟩ := hlr <;> rfl
  rw [h.step_eq hl hstack, scanToken_opening hlr h.rest_eq, scanFlowStart, h.saveKey]
  refine ⟨_, rfl, h.unfinished, rfl, ?_, rfl⟩
  change some _ :: t.outerKeys = _
  rw [h.outer]

/-- The other bracket ends the collection, and the key is waited for again. -/
theorem step_closing {l r : Char} {start finish : Token} (hlr : Brackets l r start finish)
    (hkey : s.key = none) (houter : s.outerKeys = [some k]) (hline : k.line = s.cursor.line)
    (hindex : s.cursor.index ≤ k.index + 1024) (hrest : s.cursor.rest = r :: rest)
    (hroom : s.cursor.rest.length ≤ s.cursor.size) :
    ∃ u : Scanner, s.step = .ok u ∧ u.finished = s.finished ∧ u.key = some k ∧
      u.cursor = s.cursor.advance 1 := by
  have hr : startsToken r = true := by
    obtain ⟨-, rfl, -⟩ | ⟨-, rfl, -⟩ := hlr <;> rfl
  have hnext : s.next = s := next_spaces (k := 0) hr hrest
  have hdrop : s.dropStaleKeys = .ok s := by
    refine dropStaleKeys_self fun j hj => ?_
    rw [hkey, houter] at hj
    rcases List.mem_cons.1 hj with hj | hj
    · cases hj
    · cases List.mem_singleton.1 hj
      exact isStale_eq_false hline hindex
  rw [Scanner.step_eq hroom, hnext, hdrop]
  change ∃ u, (s.closeBlocks _).scanToken = .ok u ∧ _
  rw [closeBlocks_flow (by rw [houter]; exact List.cons_ne_nil _ _), scanToken_closing hlr hrest,
    scanFlowEnd_eq hkey houter]
  exact ⟨_, rfl, rfl, rfl, rfl⟩

/-- **An empty collection on a line of its own** is no entry of the block mapping around it. -/
theorem AtToken.fails_brackets {l r : Char} {start finish : Token} (hlr : Brackets l r start finish)
    (h : t.AtToken [0] toks (l :: r :: '\n' :: rest) 0) : t.Fails := by
  obtain ⟨u, hstep, hunfinished, hkey, houter, hcursor⟩ :=
    h.step_opening hlr fun o ho => by cases ho; exact Nat.le_refl _
  have hrest : u.cursor.rest = r :: '\n' :: rest := by
    rw [hcursor]
    exact Cursor.rest_advance (w := [l]) h.rest_eq
  have hroom : u.cursor.rest.length ≤ u.cursor.size := by
    rw [hcursor]
    exact Nat.le_trans (Cursor.behind_advance _ _).le h.room
  obtain ⟨v, hstep', hunfinished', hkey', hcursor'⟩ := step_closing hlr hkey houter
    (by rw [hcursor]; rfl) (by rw [hcursor]; exact Nat.add_le_add_left (by decide) _) hrest hroom
  rw [hunfinished] at hunfinished'
  have hrest' : v.cursor.rest = '\n' :: rest := by
    rw [hcursor']
    exact Cursor.rest_advance (w := [r]) hrest
  -- the key has to be one, and a line break comes
  have hline : t.cursor.line ≤ v.cursor.line := by
    rw [hcursor', hcursor]
    exact Nat.le_refl _
  have hfails : v.Fails := fails_of_step hunfinished' (step_required hkey' h.required hline hrest')
  refine (leads_of_step h.unfinished hstep ?_).fails
    ((leads_of_step hunfinished hstep' ?_).fails hfails)
  · rw [hrest, h.rest_eq]
    exact Nat.lt_succ_self _
  · rw [hrest', hrest]
    exact Nat.lt_succ_self _

/-! ## Keys that are too long -/

/-- A key that has to be one is too far behind. -/
theorem step_stale {x : Char} (hkey : s.key = some k) (hrequired : k.required = true)
    (hstale : s.isStale k = true) (hx : startsToken x = true) (hrest : s.cursor.rest = x :: rest)
    (hroom : s.cursor.rest.length ≤ s.cursor.size) : ∃ e, s.step = .error e := by
  have hnext : s.next = s := next_spaces (k := 0) hx hrest
  obtain ⟨e, he⟩ := dropStaleKeys_required hkey hrequired hstale
  refine ⟨e, ?_⟩
  rw [Scanner.step_eq hroom, hnext, he]
  rfl

/-- **A key that is too long** is given up in front of its `:`. -/
theorem AtToken.fails_longKey {name : String} (hend : endsWord rest = true)
    (hlong : 1024 < (Gitlab.key name).length)
    (h : t.AtToken [0] toks ((Gitlab.key name).toList ++ ':' :: rest) 0) : t.Fails := by
  obtain ⟨x, cs, hcons, hx⟩ := exists_key_eq_cons name
  have hstep : t.step = t.scanToken := by
    rw [hcons, List.cons_append] at h
    exact h.step_eq hx fun o ho => by cases ho; exact Nat.le_refl _
  have hscan := hstep.trans (h.scan_key hend)
  generalize Yaml.Token.scalar (Gitlab.keyStyle name) name = token at hscan
  have hrest : (t.keyed token (Gitlab.key name).length).cursor.rest = ':' :: rest := by
    have hrest := Cursor.rest_advance h.rest_eq
    rwa [String.length_toList] at hrest
  have hfails := step_stale (s := t.keyed token (Gitlab.key name).length) rfl h.required
    (by
      rw [isStale, Bool.or_eq_true, decide_eq_true_eq, decide_eq_true_eq]
      exact .inr (Nat.add_lt_add_left hlong _))
    (show startsToken ':' = true from rfl) hrest
    (Nat.le_trans (Cursor.behind_advance _ _).le h.room)
  refine (leads_of_step h.unfinished hscan ?_).fails (fails_of_step h.unfinished hfails)
  rw [hrest, h.rest_eq, List.length_append, String.length_toList]
  omega

end Yaml.Scanner

namespace Gitlab

variable {p : Pipeline} {s : Scanner} {toks : List Token} {rest : List Char} {text : String}

/-! ## Files -/

theorem read_ne_ok_of_tokens {α : Type} {decoder : Decoder α} (h : ∃ e, tokens text = .error e)
    (a : α) : Yaml.read decoder text ≠ .ok a := by
  intro ha
  obtain ⟨e, he⟩ := h
  obtain ⟨d, k, hparse, -⟩ := read_eq_ok_iff.1 ha
  obtain ⟨ls, -, -, -, hls, -⟩ := Document.parse_eq_ok hparse
  cases he.symm.trans hls

/-- What stands behind the head stops the scanner. -/
theorem tokens_of_fails_behind_head (hp : ShortNames p.environment)
    (htext : text.toList = (headText p).toList ++ rest)
    (hfails : ∀ s : Scanner, s.InBlock 0 [] (headTokens p) rest → s.Fails) :
    ∃ e, tokens text = .error e := by
  obtain ⟨s, hleads, h⟩ := inBlock_head hp { atLine_start text.toList with rest_eq := htext }
  exact tokens_of_fails (hleads.fails (hfails s h))

/-- **An empty collection as template** breaks the file of any pipeline. -/
theorem tokens_emptyCollection {l r : Char} {start finish : Token} (hlr : Brackets l r start finish)
    (hp : ShortNames p.environment)
    (htemplate : p.template.render = .ok (String.ofList [l, r, '\n'])) (htext : render p = .ok text) :
    ∃ e, tokens text = .error e := by
  rw [render_eq htemplate] at htext
  cases htext
  have hl : startsToken l = true := by
    obtain ⟨rfl, -⟩ | ⟨rfl, -⟩ := hlr <;> rfl
  have hchars : (headText p ++ String.ofList [l, r, '\n'] ++ stagesText 0 p.stages).toList
      = (headText p).toList ++ l :: r :: '\n' :: (stagesText 0 p.stages).toList := by
    rw [String.toList_append, String.toList_append, String.toList_ofList, List.append_assoc]
    rfl
  exact tokens_of_fails_behind_head hp hchars fun s h => h.fails hl fun t ht =>
    ht.fails_brackets hlr

/-! ## Jobs with long names -/

/-- The printed name of the job is too long for a key. -/
def LongName (j : Job) : Prop := 1024 < (key j.name).length

theorem fails_job {j : Job} (hj : LongName j)
    (h : s.InBlock 0 [] toks ((jobText j).toList ++ rest)) : s.Fails := by
  obtain ⟨x, cs, hcons, hx⟩ := exists_key_eq_cons j.name
  obtain ⟨rest', hrest'⟩ : ∃ rest', (jobText j).toList ++ rest
      = (key j.name).toList ++ ':' :: '\n' :: rest' := by
    rw [toList_jobText]
    simp only [entryLine, List.replicate_zero, List.nil_append, List.append_assoc, List.cons_append]
    exact ⟨_, rfl⟩
  rw [hrest', hcons, List.cons_append] at h
  refine h.fails hx fun t ht => ?_
  rw [← List.cons_append, ← hcons] at ht
  exact ht.fails_longKey rfl hj

/-- The jobs in front of the first one with a long name are passed over. -/
theorem fails_jobs {jobs : List Job} (hshort : ∀ j ∈ jobs, ShortNames j.body.environment)
    (hlong : ∃ j ∈ jobs, LongName j)
    (h : s.InBlock 0 [] toks (jobs.flatMap (fun j => (jobText j).toList ++ ['\n']) ++ rest)) :
    s.Fails := by
  induction jobs generalizing s toks with
  | nil => simp at hlong
  | cons j jobs ih =>
    rw [List.flatMap_cons, List.append_assoc, List.append_assoc] at h
    by_cases hj : LongName j
    · exact fails_job hj h
    · obtain ⟨hfirst, hshort⟩ := List.forall_mem_cons.1 hshort
      have hlong := ((List.exists_mem_cons_iff _ _ _).1 hlong).resolve_left hj
      obtain ⟨s₁, hleads₁, h⟩ := inBlock_job ⟨Nat.le_of_not_lt hj, hfirst⟩ h
      obtain ⟨s₂, hleads₂, h⟩ := h.blank
      exact (hleads₁.trans hleads₂).fails (ih hshort hlong h)

/-- Behind the separator of a stage.  The name is one of the stage or of those behind it. -/
theorem fails_behind_separator {st : Stage} {P : Prop}
    (hshort : ∀ j ∈ st.jobs, ShortNames j.body.environment)
    (hrest : ∀ {s : Scanner} {toks : List Token}, P → s.InBlock 0 [] toks rest → s.Fails)
    (hlong : (∃ j ∈ st.jobs, LongName j) ∨ P)
    (h : s.InBlock 0 [] toks
      ('\n' :: (st.jobs.flatMap (fun j => (jobText j).toList ++ ['\n']) ++ rest))) : s.Fails := by
  by_cases hst : ∃ j ∈ st.jobs, LongName j
  · obtain ⟨s₁, hleads, h⟩ := h.blank
    exact hleads.fails (fails_jobs hshort hst h)
  · have hkeys : ∀ j ∈ st.jobs, ShortKeys j := fun j hj =>
      ⟨Nat.le_of_not_lt fun hlong => hst ⟨j, hj, hlong⟩, hshort j hj⟩
    obtain ⟨s₁, hleads, h⟩ := inBlock_stageJobs hkeys h
    exact hleads.fails (hrest (hlong.resolve_left hst) h)

theorem fails_stages {stages : List Stage} {wave : Nat}
    (hshort : ∀ st ∈ stages, ∀ j ∈ st.jobs, ShortNames j.body.environment)
    (hlong : ∃ st ∈ stages, ∃ j ∈ st.jobs, LongName j)
    (h : s.InBlock 0 [] toks (stagesText wave stages).toList) : s.Fails := by
  induction stages generalizing wave s toks with
  | nil => simp at hlong
  | cons st stages ih =>
    obtain ⟨hfirst, hshort⟩ := List.forall_mem_cons.1 hshort
    have hlong := (List.exists_mem_cons_iff _ _ _).1 hlong
    obtain ⟨cs, hseparator, hcs⟩ := exists_separator wave
    rw [stagesText, String.toList_append, toList_stageText, hseparator, List.append_assoc,
      List.append_assoc, List.singleton_append] at h
    obtain ⟨s₁, hleads, h⟩ := h.comment fun x hx => (hcs x hx).1
    exact hleads.fails (fails_behind_separator hfirst (fun hlong h => ih hshort hlong h) hlong h)

/-- **A job whose name is too long** breaks the file of a pipeline. -/
theorem tokens_longName {es : List (Value × Value)} (henvironment : ShortNames p.environment)
    (hvariables : ∀ j ∈ p.jobs, ShortNames j.body.environment) (htemplate : p.template.Adds es)
    (htrips : p.template.RoundTrips) (hlong : ∃ j ∈ p.jobs, LongName j) (htext : render p = .ok text) :
    ∃ e, tokens text = .error e := by
  have hshort : ∀ st ∈ p.stages, ∀ j ∈ st.jobs, ShortNames j.body.environment :=
    fun st hst j hj => hvariables j (List.mem_flatMap_of_mem hst hj)
  have hlong : ∃ st ∈ p.stages, ∃ j ∈ st.jobs, LongName j := by
    obtain ⟨j, hj, hlong⟩ := hlong
    obtain ⟨st, hst, hj⟩ := List.mem_flatMap.1 hj
    exact ⟨st, hst, j, hj, hlong⟩
  obtain ⟨inner, hinner, rfl⟩ := render_eq_ok_iff.1 htext
  generalize p.template = t at htemplate htrips hinner
  cases htemplate with
  | nothing =>
    cases hinner
    rw [String.append_empty]
    exact tokens_of_fails_behind_head henvironment String.toList_append
      fun s h => fails_stages hshort hlong h
  | entries hne =>
    obtain ⟨hexcerpt, ls, q, entries, hls, hpeek, hnode, -⟩ :=
      Value.blockMapping_of_read hinner (htrips _ rfl inner hinner) hne
    obtain ⟨l, ys, e, z, -, rfl, hl, he, hz, -⟩ := exists_blockTokens hexcerpt hls hpeek hnode
    have hchars : (headText p ++ inner ++ stagesText 0 p.stages).toList
        = (headText p).toList ++ (inner.toList ++ (stagesText 0 p.stages).toList) := by
      rw [String.toList_append, String.toList_append, List.append_assoc]
    refine tokens_of_fails_behind_head henvironment hchars fun s h => ?_
    cases hstages : p.stages with
    | nil => simp [hstages] at hlong
    | cons st stages =>
      rw [hstages] at hlong hshort
      rw [hstages, stagesText, String.toList_append] at h
      obtain ⟨hfirst, hshort⟩ := List.forall_mem_cons.1 hshort
      have hlong := (List.exists_mem_cons_iff _ _ _).1 hlong
      obtain ⟨u, hu, hruns⟩ := exists_behind_template h hexcerpt hls hl he hz
      have hfails : u.Fails := fails_behind_separator hfirst
        (fun hlong h => fails_stages hshort hlong h) hlong hu
      exact fails_of_runs hfails hruns

/-! ## Verified matrices -/

/-- **When the file of a verified matrix can be loaded**, with a template that adds entries to it:
if the keys of the template are free and no name of a job is too long for a key. -/
theorem verified_file_loads_iff {m : Matrix} {version : ContainerVersion} {template : Template}
    {es : List (Value × Value)} (hverify : m.verify.value.passed = true)
    (htemplate : template.Adds es) (htrips : template.RoundTrips)
    (hassemble : (Pipeline.assemble m version template).outcome = .ok p)
    (htext : render p = .ok text) :
    (∃ v, Yaml.read Decoder.value text = .ok v) ↔ p.Free es ∧ ∀ j ∈ p.jobs, ¬LongName j := by
  obtain ⟨p', hp', hnodup, -⟩ := (Matrix.passed_iff_assembles m version template).1 hverify
  rw [hassemble] at hp'
  cases hp'
  obtain ⟨-, -, hp⟩ := Pipeline.assemble_outcome_iff.1 hassemble
  rw [← hp] at htemplate htrips
  by_cases hshort : ∀ j ∈ p.jobs, ¬LongName j
  · have hreadable := readable_of_assemble hassemble hnodup fun j hj =>
      Nat.le_of_not_lt (hshort j hj)
    simp only [read_file_iff hreadable htemplate htrips htext, and_iff_left hshort]
    exact ⟨fun ⟨v, h, _⟩ => h, fun h => ⟨_, h, rfl⟩⟩
  · obtain ⟨henvironment, hvariables⟩ := isKeyName_of_assemble hassemble
    have hlong : ∃ j ∈ p.jobs, LongName j := by
      simpa only [not_forall, not_not, exists_prop] using hshort
    have herror := tokens_longName (fun entry hentry => (henvironment entry hentry).length_le)
      (fun j hj entry hentry => (hvariables j hj entry hentry).length_le) htemplate htrips hlong htext
    exact iff_of_false (fun ⟨v, hv⟩ => read_ne_ok_of_tokens herror v hv) fun h => hshort h.2

/-- The matrix is verified, but its file with the template that the text is parsed as cannot be
loaded. -/
def Unloadable (m : Matrix) (source : String) : Prop :=
  m.verify.value.passed = true ∧ ∃ template p text, Template.ofYaml source = .ok template ∧
    template.RoundTrips ∧ (Pipeline.assemble m .first template).outcome = .ok p ∧
      render p = .ok text ∧ ∀ v, Yaml.read Decoder.value text ≠ .ok v

theorem shortNames_global : ShortNames Variables.global :=
  fun _ hentry => (isKeyName_of_global hentry).length_le

theorem assemble_nil (version : ContainerVersion) (template : Template) :
    (Pipeline.assemble [] version template).outcome = .ok ⟨[], Variables.global, template⟩ :=
  Pipeline.assemble_outcome_iff.2 ⟨.nil, rfl, rfl⟩

/-- No jobs and an empty collection. -/
theorem ofYaml_of_read {v : Value} {source : String} (hblank : Text.isBlankText source = false)
    (hnull : v.isNull = false) (hread : Yaml.read Decoder.value source = .ok v) :
    Template.ofYaml source = .ok ⟨some v⟩ := by
  rw [Template.ofYaml, hblank, if_neg Bool.false_ne_true, hread]
  change Except.ok (Template.ofValue v) = _
  rw [Template.ofValue, hnull]
  rfl

theorem eq_of_same_emptyMapping (w : Value) (h : w.same (.mapping []) = true) : w = .mapping [] := by
  cases w with
  | mapping es =>
    rw [Value.same, Bool.and_eq_true, beq_iff_eq] at h
    rw [List.eq_nil_of_length_eq_zero h.1]
  | _ => simp [Value.same] at h

theorem eq_of_same_emptySequence (w : Value) (h : w.same (.sequence []) = true) :
    w = .sequence [] := by
  cases w with
  | sequence items =>
    cases items with
    | nil => rfl
    | cons x items => simp [Value.same, Value.sameItems] at h
  | _ => simp [Value.same] at h

theorem unloadable_of_brackets {l r : Char} {start finish : Token} (hlr : Brackets l r start finish)
    {v : Value} {source : String} (hsource : Template.ofYaml source = .ok ⟨some v⟩)
    (hrender : v.render = .ok (String.ofList [l, r, '\n']))
    (hread : Yaml.read Decoder.value (String.ofList [l, r, '\n']) = .ok v) :
    Unloadable [] source := by
  have htext := render_eq (p := ⟨[], Variables.global, ⟨some v⟩⟩) hrender
  have herror := tokens_emptyCollection (p := ⟨[], Variables.global, ⟨some v⟩⟩) hlr shortNames_global
    hrender htext
  exact ⟨by decide, _, _, _, hsource, roundTrips_of_read hrender hread, assemble_nil _ _, htext,
    read_ne_ok_of_tokens herror⟩

/-- An entry whose key every file has. -/
def takenKey : List (Value × Value) := [(.string "stages", .string "a")]

theorem render_takenKey : Value.render (.mapping takenKey) = .ok "stages: a\n" := by
  have hrender : Outline.render (.mapping none
      [(.scalar none .plain "stages", .scalar none .plain "a")]) = "stages: a\n" := by
    decide +kernel
  exact congrArg Except.ok hrender

theorem unloadable_takenKey : Unloadable [] "stages: a\n" := by
  have hread : Yaml.read Decoder.value "stages: a\n" = .ok (.mapping takenKey) :=
    read_eq_of_same eq_of_same_textEntry (by decide +kernel)
  have hsource := ofYaml_of_read (by decide) rfl hread
  have htrips := roundTrips_of_read render_takenKey hread
  have htext := render_eq (p := ⟨[], Variables.global, ⟨some (.mapping takenKey)⟩⟩) render_takenKey
  refine ⟨by decide, _, _, _, hsource, htrips, assemble_nil _ _, htext, fun v hv => ?_⟩
  have hverify : (Matrix.verify []).value.passed = true := by decide
  have hadds : Template.Adds ⟨some (.mapping takenKey)⟩ takenKey := .entries (List.cons_ne_nil _ _)
  obtain ⟨hfree, -⟩ :=
    (verified_file_loads_iff hverify hadds htrips (assemble_nil .first _) htext).1 ⟨v, hv⟩
  exact hfree.ne_stages _ (List.mem_singleton_self _) rfl

theorem length_le_of_jobName {r : Record} {name : String} (h : r.jobName = .ok name) :
    r.deviceCompiler.version.length ≤ name.length := by
  obtain ⟨dependency, -, rfl⟩ := map_eq_ok_iff.1 h
  simp only [Parameter.text, String.length_append]
  omega

/-- A compiler with a version of 1025 digits. -/
def longCompiler : Parameter := ⟨"gcc", String.ofList (List.replicate 1025 '1')⟩

/-- A job whose name has the version of its compiler in it. -/
theorem unloadable_longCompiler :
    Unloadable [[Record.release longCompiler longCompiler Parameter.off]] "" := by
  obtain ⟨name, hname⟩ : ∃ name,
    (Record.release longCompiler longCompiler Parameter.off).jobName = .ok name := ⟨_, rfl⟩
  obtain ⟨hverify, p, j, hp, hjobs, rfl⟩ :=
    exists_assemble_singleton rfl hname (not_conflicts_release _ _) .first .empty
  have hlong : LongName j := by
    have hversion := length_le_of_jobName hname
    have hkey := length_le_length_key j.name
    have hlength : longCompiler.version.length = 1025 := by
      rw [longCompiler, String.length_ofList, List.length_replicate]
    change longCompiler.version.length ≤ _ at hversion
    rw [LongName]
    omega
  have htrips : Template.RoundTrips .empty := fun v hv => by cases hv
  have hrender : p.template.render = .ok "" := by
    rw [(Pipeline.assemble_outcome_iff.1 hp).2.2]
    rfl
  have htext := render_eq hrender
  refine ⟨hverify, .empty, p, _, rfl, htrips, hp, htext, fun v hv => ?_⟩
  have hloads := (verified_file_loads_iff hverify .nothing htrips hp htext).1 ⟨v, hv⟩
  exact hloads.2 j (hjobs ▸ List.mem_singleton_self j) hlong

/-- **A verified matrix may have a file that cannot be loaded**: the template may be an empty
collection or have a key that is taken, and the name of a job may be too long. -/
theorem verified_file_may_not_load :
    Unloadable [] "\x7b\x7d" ∧ Unloadable [] "[]" ∧ Unloadable [] "stages: a\n" ∧
      Unloadable [[Record.release longCompiler longCompiler Parameter.off]] "" :=
  ⟨unloadable_of_brackets brackets_braces
      (ofYaml_of_read (by decide) rfl (read_eq_of_same eq_of_same_emptyMapping (by decide +kernel)))
      rfl (read_eq_of_same eq_of_same_emptyMapping (by decide +kernel)),
    unloadable_of_brackets (.inl ⟨rfl, rfl, rfl, rfl⟩)
      (ofYaml_of_read (by decide) rfl (read_eq_of_same eq_of_same_emptySequence (by decide +kernel)))
      rfl (read_eq_of_same eq_of_same_emptySequence (by decide +kernel)),
    unloadable_takenKey, unloadable_longCompiler⟩

end Gitlab

end JobMatrix
