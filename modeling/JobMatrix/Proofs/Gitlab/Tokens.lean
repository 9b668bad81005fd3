import JobMatrix.Gitlab.Document
import JobMatrix.Proofs.Gitlab.Line

/-!
# The tokens of a pipeline file

A block of entries stays open behind its last line until a line further left comes.  Whether it is
closed already makes no difference to what follows: `Scanner.InBlock` counts the tokens that are
still to come, so the parts of a file can be put one behind the other.

* `AwaitsEntry.list`, `AwaitsEntry.variables` and `InBlock.job` scan the parts.
* `tokens_render` is the result: the tokens of a whole file.
-/

set_option autoImplicit false

namespace JobMatrix

open Yaml Yaml.Scanner

namespace Yaml.Scanner

variable {s : Scanner} {toks : List Token} {rest : List Char} {column : Nat} {outer : List Nat}

/-! ## Blocks -/

/-- The block of entries at a column is open.  Blocks inside it may still have to be closed; the
tokens include that. -/
def InBlock (s : Scanner) (column : Nat) (outer : List Nat) (toks : List Token)
    (rest : List Char) : Prop :=
  ∃ inner toks', s.AtLine (inner ++ column :: outer) toks' rest ∧ (∀ i ∈ inner, column < i) ∧
    toks = toks' ++ List.replicate inner.length .blockEnd

/-- An entry at a column goes on with the block there, or is the first in it. -/
def AwaitsEntry (s : Scanner) (column : Nat) (outer : List Nat) (toks : List Token)
    (rest : List Char) : Prop :=
  ∃ inner base toks', s.AtLine (inner ++ base) toks' rest ∧ (∀ i ∈ inner, column < i) ∧
    (∀ o ∈ base.head?, o ≤ column) ∧ opened column base = column :: outer ∧
      toks = toks' ++ List.replicate inner.length .blockEnd ++ opening column base

/-- At the start of a line in a block, the block is open. -/
theorem AtLine.inBlock (h : s.AtLine (column :: outer) toks rest) : s.InBlock column outer toks rest :=
  ⟨[], toks, h, fun _ hi => (nomatch hi), (List.append_nil toks).symm⟩

theorem InBlock.rest_eq (h : s.InBlock column outer toks rest) : s.cursor.rest = rest := by
  obtain ⟨inner, toks', h, -⟩ := h
  exact h.rest_eq

/-- An open block awaits its next entry. -/
theorem InBlock.awaitsEntry (h : s.InBlock column outer toks rest) :
    s.AwaitsEntry column outer toks rest := by
  obtain ⟨inner, toks', h, hinner, rfl⟩ := h
  refine ⟨inner, column :: outer, toks', h, hinner, fun o ho => (Option.some.inj ho).ge,
    opened_self column outer, ?_⟩
  rw [opening_self, List.append_nil]

/-- The first entry of a block further right. -/
theorem AtLine.awaitsEntry {stack : List Nat} (h : s.AtLine stack toks rest) (column : Nat)
    (hstack : ∀ o ∈ stack.head?, o < column) :
    s.AwaitsEntry column stack (toks ++ [.blockMappingStart]) rest := by
  have hne : ¬stack.head? = some column := fun hhead =>
    absurd (hstack column hhead) (Nat.lt_irrefl _)
  refine ⟨[], stack, toks, h, fun _ hi => (nomatch hi), fun o ho => Nat.le_of_lt (hstack o ho),
    ?_, ?_⟩
  · rw [opened, if_neg hne]
  · rw [opening, if_neg hne, List.length_nil, List.replicate_zero, List.append_nil]

/-- Seen from outside, a block is closed. -/
theorem InBlock.close {column' : Nat} (h : s.InBlock column' (column :: outer) toks rest)
    (hlt : column < column') : s.InBlock column outer (toks ++ [.blockEnd]) rest := by
  obtain ⟨inner, toks', h, hinner, rfl⟩ := h
  refine ⟨inner ++ [column'], toks', ?_, ?_, ?_⟩
  · rwa [List.append_assoc]
  · intro i hi
    rcases List.mem_append.1 hi with hi | hi
    · exact Nat.lt_trans hlt (hinner i hi)
    · exact List.mem_singleton.1 hi ▸ hlt
  · rw [List.length_append, List.length_singleton, List.replicate_succ', List.append_assoc]

theorem InBlock.blank (h : s.InBlock column outer toks ('\n' :: rest)) :
    ∃ s', Leads s s' ∧ s'.InBlock column outer toks rest := by
  obtain ⟨inner, toks', h, hinner, rfl⟩ := h
  obtain ⟨s', hleads, h⟩ := h.blank
  exact ⟨s', hleads, inner, toks', h, hinner, rfl⟩

theorem InBlock.comment {cs : List Char} (hcs : ∀ x ∈ cs, isBreak x = false)
    (h : s.InBlock column outer toks ('#' :: cs ++ '\n' :: rest)) :
    ∃ s', Leads s s' ∧ s'.InBlock column outer toks rest := by
  obtain ⟨inner, toks', h, hinner, rfl⟩ := h
  obtain ⟨s', hleads, h⟩ := h.comment hcs
  exact ⟨s', hleads, inner, toks', h, hinner, rfl⟩

/-- Pieces that each go on with the block go on with it one after the other. -/
theorem InBlock.pieces {α : Type} {text : α → List Char} {tokensOf : α → List Token} :
    ∀ {as : List α} {s : Scanner} {toks : List Token},
      (∀ a ∈ as, ∀ {s : Scanner} {toks : List Token} {rest : List Char},
        s.InBlock column outer toks (text a ++ rest) →
          ∃ s', Leads s s' ∧ s'.InBlock column outer (toks ++ tokensOf a) rest) →
      s.InBlock column outer toks (as.flatMap text ++ rest) →
        ∃ s', Leads s s' ∧ s'.InBlock column outer (toks ++ as.flatMap tokensOf) rest
  | [], s, toks, _, h => ⟨s, .refl s, by simpa using h⟩
  | a :: as, s, toks, hpiece, h => by
    rw [List.flatMap_cons, List.append_assoc] at h
    obtain ⟨s', hleads, h⟩ := hpiece a List.mem_cons_self h
    obtain ⟨s'', hleads', h⟩ := InBlock.pieces (fun b hb => hpiece b (List.mem_cons_of_mem _ hb)) h
    refine ⟨s'', hleads.trans hleads', ?_⟩
    rwa [List.flatMap_cons, ← List.append_assoc]

/-! ## Entries -/

/-- What stands behind the `:` of an entry, with its tokens. -/
def IsValue (cs : List Char) (ts : List Token) : Prop :=
  (∀ rest, endsWord (cs ++ '\n' :: rest) = true) ∧
    ∀ {s : Scanner} {stack : List Nat} {toks : List Token} {rest : List Char},
      s.AtValue stack toks (cs ++ rest) →
        ∃ s', Leads s s' ∧ s'.InLine stack (toks ++ ts) rest

theorem isValue_nil : IsValue [] [] :=
  ⟨fun _ => rfl, fun {s _ toks _} h => ⟨s, .refl s, by rw [List.append_nil]; exact h.toInLine⟩⟩

theorem isValue_quote (text : String) :
    IsValue (' ' :: (Gitlab.quote text).toList) [.scalar .doubleQuoted text] :=
  ⟨fun _ => rfl, fun h => h.quote⟩

theorem isValue_brackets {l r : Char} {start finish : Token} (hlr : Brackets l r start finish) :
    IsValue [' ', l, r] [start, finish] :=
  ⟨fun _ => rfl, fun h => h.brackets hlr⟩

/-- The tokens of a key. -/
def keyTokens (name : String) : List Token := [.key, .scalar (Gitlab.keyStyle name) name, .value]

/-- The line of an entry. -/
def entryLine (column : Nat) (name : String) (value : List Char) : List Char :=
  List.replicate column ' ' ++ ((Gitlab.key name).toList ++ ':' :: (value ++ ['\n']))

/-- The line of an entry is read as its key and its value. -/
theorem AwaitsEntry.entry {name : String} {value : List Char} {ts : List Token}
    (hlength : (Gitlab.key name).length ≤ 1024) (hvalue : IsValue value ts)
    (h : s.AwaitsEntry column outer toks (entryLine column name value ++ rest)) :
    ∃ s', Leads s s' ∧ s'.AtLine (column :: outer) (toks ++ keyTokens name ++ ts) rest := by
  obtain ⟨inner, base, toks', h, hinner, hbase, hopened, rfl⟩ := h
  rw [entryLine, List.append_assoc, List.append_assoc, List.cons_append, List.append_assoc,
    List.singleton_append] at h
  obtain ⟨s₁, hleads₁, h⟩ := h.entry (hvalue.1 rest) hlength hinner hbase
  obtain ⟨s₂, hleads₂, h⟩ := hvalue.2 h
  obtain ⟨s₃, hleads₃, h⟩ := h.line
  rw [hopened] at h
  exact ⟨s₃, hleads₁.trans (hleads₂.trans hleads₃), h⟩

/-- The line of an item. -/
def itemLine (column : Nat) (text : String) : List Char :=
  List.replicate column ' ' ++ '-' :: ' ' :: ((Gitlab.quote text).toList ++ ['\n'])

theorem InBlock.item {text : String}
    (h : s.InBlock column outer toks (itemLine column text ++ rest)) :
    ∃ s', Leads s s' ∧
      s'.InBlock column outer (toks ++ [.blockEntry, .scalar .doubleQuoted text]) rest := by
  obtain ⟨inner, toks', h, hinner, rfl⟩ := h
  rw [itemLine, List.append_assoc, List.cons_append, List.cons_append, List.append_assoc,
    List.singleton_append] at h
  obtain ⟨s₁, hleads₁, h⟩ := h.item hinner
  obtain ⟨s₂, hleads₂, h⟩ := h.line
  exact ⟨s₂, hleads₁.trans hleads₂, h.inBlock⟩

end Yaml.Scanner

/-! ## The parts of a file -/

namespace Gitlab

variable {s : Scanner} {toks : List Token} {rest : List Char} {column : Nat} {outer : List Nat}

/-- The tokens of a list of texts, with its name. -/
def listTokens (name : String) (items : List String) : List Token :=
  keyTokens name ++
    if items.isEmpty then [.flowSequenceStart, .flowSequenceEnd]
    else items.flatMap fun text => [.blockEntry, .scalar .doubleQuoted text]

/-- The tokens of an entry whose value is a text. -/
def textEntryTokens (entry : String × String) : List Token :=
  keyTokens entry.1 ++ [.scalar .doubleQuoted entry.2]

/-- The tokens of variables, with their name. -/
def variablesTokens (v : Variables) : List Token :=
  keyTokens "variables" ++
    if v.isEmpty then [.flowMappingStart, .flowMappingEnd]
    else .blockMappingStart :: v.entries.flatMap textEntryTokens ++ [.blockEnd]

/-- The tokens of the entries of a body. -/
def bodyTokens (b : JobBody) : List Token :=
  textEntryTokens ("image", b.image) ++ listTokens "script" b.script
    ++ textEntryTokens ("stage", b.stage) ++ listTokens "tags" b.tags
    ++ variablesTokens b.environment

/-- The tokens of a job. -/
def jobTokens (j : Job) : List Token :=
  keyTokens j.name ++ (.blockMappingStart :: bodyTokens j.body ++ [.blockEnd])

/-! ### Lists -/

theorem toList_listText {indent name : String} (items : List String)
    (hindent : indent.toList = List.replicate column ' ') (hname : key name = name) :
    (listText indent name items).toList =
      if items.isEmpty then entryLine column name [' ', '[', ']']
      else entryLine column name [] ++ items.flatMap (itemLine column) := by
  rw [listText]
  split
  · simp [entryLine, hindent, hname]
  · simp [entryLine, hindent, hname, List.flatMap_map]
    rfl

/-- Both forms of a list, the empty one in brackets, leave the block open behind them. -/
theorem awaitsEntry_list {indent name : String} {items : List String}
    (hindent : indent.toList = List.replicate column ' ') (hname : key name = name)
    (hlength : name.length ≤ 1024)
    (h : s.AwaitsEntry column outer toks ((listText indent name items).toList ++ rest)) :
    ∃ s', Leads s s' ∧ s'.InBlock column outer (toks ++ listTokens name items) rest := by
  rw [← hname] at hlength
  rw [toList_listText items hindent hname] at h
  rw [listTokens]
  split
  · rename_i hempty
    rw [if_pos hempty] at h
    obtain ⟨s', hleads, h⟩ := h.entry hlength (isValue_brackets (.inl ⟨rfl, rfl, rfl, rfl⟩))
    rw [List.append_assoc] at h
    exact ⟨s', hleads, h.inBlock⟩
  · rename_i hempty
    rw [if_neg hempty, List.append_assoc] at h
    obtain ⟨s₁, hleads₁, h⟩ := h.entry hlength isValue_nil
    obtain ⟨s₂, hleads₂, h⟩ := h.inBlock.pieces fun text _ => InBlock.item
    rw [List.append_nil, List.append_assoc] at h
    exact ⟨s₂, hleads₁.trans hleads₂, h⟩

/-! ### Variables -/

/-- The line of an entry whose value is a text. -/
def textEntryLine (column : Nat) (entry : String × String) : List Char :=
  entryLine column entry.1 (' ' :: (quote entry.2).toList)

theorem awaitsEntry_textEntry {entry : String × String}
    (h : s.AwaitsEntry column outer toks (textEntryLine column entry ++ rest))
    (hlength : (key entry.1).length ≤ 1024) :
    ∃ s', Leads s s' ∧ s'.InBlock column outer (toks ++ textEntryTokens entry) rest := by
  obtain ⟨s', hleads, h⟩ := h.entry hlength (isValue_quote entry.2)
  rw [List.append_assoc] at h
  exact ⟨s', hleads, h.inBlock⟩

theorem toList_variablesText {indent : String} (v : Variables)
    (hindent : indent.toList = List.replicate column ' ') :
    (variablesText indent v).toList =
      if v.isEmpty then entryLine column "variables" [' ', '\x7b', '\x7d']
      else entryLine column "variables" [] ++ v.entries.flatMap (textEntryLine (column + 2)) := by
  have hname : key "variables" = "variables" := by decide
  have hdeeper : (indent ++ "  ").toList = List.replicate (column + 2) ' ' := by
    rw [String.toList_append, hindent, ← List.replicate_append_replicate]
    rfl
  rw [variablesText]
  split
  · simp [entryLine, hindent, hname]
  · have hline : ∀ entry : String × String,
        (indent ++ "  " ++ key entry.1 ++ ": " ++ quote entry.2 ++ "\n").toList
          = textEntryLine (column + 2) entry := by
      intro entry
      rw [String.toList_append, String.toList_append, String.toList_append, String.toList_append,
        hdeeper]
      simp [textEntryLine, entryLine]
    have hhead : (indent ++ "variables:\n").toList = entryLine column "variables" [] := by
      simp [entryLine, hindent, hname]
    rw [String.toList_append, hhead, String.toList_join, List.flatMap_map]
    exact congrArg (fun f => entryLine column "variables" [] ++ v.entries.flatMap f) (funext hline)

/-- The keys of variables are short enough. -/
def ShortNames (v : Variables) : Prop := ∀ entry ∈ v.entries, (key entry.1).length ≤ 1024

instance (v : Variables) : Decidable (ShortNames v) :=
  inferInstanceAs (Decidable (∀ entry ∈ v.entries, (key entry.1).length ≤ 1024))

/-- Both forms of variables, the empty one in brackets, leave the block open behind them. -/
theorem awaitsEntry_variables {indent : String} {v : Variables} (hv : ShortNames v)
    (hindent : indent.toList = List.replicate column ' ')
    (h : s.AwaitsEntry column outer toks ((variablesText indent v).toList ++ rest)) :
    ∃ s', Leads s s' ∧ s'.InBlock column outer (toks ++ variablesTokens v) rest := by
  have hlength : (key "variables").length ≤ 1024 := by decide
  rw [toList_variablesText v hindent] at h
  rw [variablesTokens]
  split
  · rename_i hempty
    rw [if_pos hempty] at h
    obtain ⟨s', hleads, h⟩ := h.entry hlength (isValue_brackets (.inr ⟨rfl, rfl, rfl, rfl⟩))
    rw [List.append_assoc] at h
    exact ⟨s', hleads, h.inBlock⟩
  · rename_i hempty
    rw [if_neg hempty, List.append_assoc] at h
    obtain ⟨s₁, hleads₁, h⟩ := h.entry hlength isValue_nil
    have h := h.awaitsEntry (column + 2) fun o ho => by
      have ho : column = o := Option.some.inj ho
      omega
    rw [Bindings.isEmpty] at hempty
    rw [ShortNames] at hv
    -- the first entry opens the block, the others go on with it
    obtain ⟨entry, entries, hentries⟩ := List.exists_cons_of_ne_nil (mt List.isEmpty_iff.2 hempty)
    rw [hentries] at h hv ⊢
    rw [List.flatMap_cons, List.append_assoc (textEntryLine _ _)] at h
    obtain ⟨s₂, hleads₂, h⟩ := awaitsEntry_textEntry h (hv entry List.mem_cons_self)
    obtain ⟨s₃, hleads₃, h⟩ := h.pieces fun e he _ _ _ h =>
      awaitsEntry_textEntry h.awaitsEntry (hv e (List.mem_cons_of_mem _ he))
    refine ⟨s₃, hleads₁.trans (hleads₂.trans hleads₃), ?_⟩
    have h := h.close (by omega)
    simpa using h

/-! ### Jobs -/

/-- The keys of a job are short enough. -/
def ShortKeys (j : Job) : Prop := (key j.name).length ≤ 1024 ∧ ShortNames j.body.environment

instance (j : Job) : Decidable (ShortKeys j) :=
  inferInstanceAs (Decidable ((key j.name).length ≤ 1024 ∧ ShortNames j.body.environment))

theorem toList_jobText (j : Job) :
    (jobText j).toList =
      entryLine 0 j.name [] ++ (textEntryLine 2 ("image", j.body.image)
        ++ ((listText "  " "script" j.body.script).toList
          ++ (textEntryLine 2 ("stage", j.body.stage)
            ++ ((listText "  " "tags" j.body.tags).toList
              ++ (variablesText "  " j.body.environment).toList)))) := by
  have himage : key "image" = "image" := by decide
  have hstage : key "stage" = "stage" := by decide
  simp [jobText, entryLine, textEntryLine, himage, hstage]

/-- **A job** is one entry of the block of all jobs. -/
theorem inBlock_job {j : Job} (hj : ShortKeys j)
    (h : s.InBlock 0 outer toks ((jobText j).toList ++ rest)) :
    ∃ s', Leads s s' ∧ s'.InBlock 0 outer (toks ++ jobTokens j) rest := by
  have hindent : "  ".toList = List.replicate 2 ' ' := rfl
  have himage : (key "image").length ≤ 1024 := by decide
  have hscript : key "script" = "script" := by decide
  have hstage : (key "stage").length ≤ 1024 := by decide
  have htags : key "tags" = "tags" := by decide
  simp only [toList_jobText, List.append_assoc] at h
  obtain ⟨s₁, hleads₁, h⟩ := h.awaitsEntry.entry hj.1 isValue_nil
  have h := h.awaitsEntry 2 fun o ho => by
    have ho : 0 = o := Option.some.inj ho
    omega
  obtain ⟨s₂, hleads₂, h⟩ := awaitsEntry_textEntry h himage
  obtain ⟨s₃, hleads₃, h⟩ := awaitsEntry_list hindent hscript (by decide) h.awaitsEntry
  obtain ⟨s₄, hleads₄, h⟩ := awaitsEntry_textEntry h.awaitsEntry hstage
  obtain ⟨s₅, hleads₅, h⟩ := awaitsEntry_list hindent htags (by decide) h.awaitsEntry
  obtain ⟨s₆, hleads₆, h⟩ := awaitsEntry_variables hj.2 hindent h.awaitsEntry
  have h := h.close (Nat.zero_lt_two)
  refine ⟨s₆, hleads₁.trans (hleads₂.trans (hleads₃.trans (hleads₄.trans
    (hleads₅.trans hleads₆)))), ?_⟩
  rw [jobTokens, bodyTokens]
  simpa only [List.append_assoc, List.append_nil, List.cons_append, List.nil_append] using h

/-! ### Stages -/

/-- The separator of a stage is a comment. -/
theorem exists_separator (wave : Nat) :
    ∃ cs, (separator wave).toList = '#' :: cs ++ ['\n'] ∧
      ∀ x ∈ cs, isBreak x = false ∧ isStreamChar x = true := by
  have htext : separator wave
      = "# <<<<<<<<<<<<< stage " ++ toString wave ++ " >>>>>>>>>>>>>\n" := rfl
  have hstart : "# <<<<<<<<<<<<< stage ".toList = '#' :: " <<<<<<<<<<<<< stage ".toList := by decide
  have hend : " >>>>>>>>>>>>>\n".toList = " >>>>>>>>>>>>>".toList ++ ['\n'] := by decide
  refine ⟨" <<<<<<<<<<<<< stage ".toList ++ ((toString wave).toList ++ " >>>>>>>>>>>>>".toList),
    ?_, fun x hx => ?_⟩
  · rw [htext, String.toList_append, String.toList_append, hstart, hend]
    simp only [List.cons_append, List.append_assoc]
  have hfixed : ∀ x ∈ " <<<<<<<<<<<<< stage ".toList ++ " >>>>>>>>>>>>>".toList,
      isBreak x = false ∧ isStreamChar x = true := fun x hx => by
    have hchecked : (!isBreak x && isStreamChar x) = true :=
      (List.all_eq_true (p := fun x => !isBreak x && isStreamChar x)).1 (by decide) x hx
    simpa using hchecked
  rcases List.mem_append.1 hx with hx | hx
  · exact hfixed x (List.mem_append_left _ hx)
  rcases List.mem_append.1 hx with hx | hx
  · have hdigit : x.isDigit = true := by
      rw [Nat.toString_eq_repr, Nat.toList_repr] at hx
      exact Nat.isDigit_of_mem_toDigits (by decide) (by decide) hx
    have hchar : isPlainKeyChar x = true := by simp [isPlainKeyChar, Char.isAlphanum, hdigit]
    exact ⟨(not_blank_of_isPlainKeyChar hchar).2, isStreamChar_of_isPlainKeyChar hchar⟩
  · exact hfixed x (List.mem_append_right _ hx)

/-- The tokens of the jobs of a stage. -/
def stageTokens (st : Stage) : List Token := st.jobs.flatMap jobTokens

theorem toList_stageText (wave : Nat) (st : Stage) :
    (stageText wave st).toList = (separator wave).toList
      ++ '\n' :: st.jobs.flatMap fun j => (jobText j).toList ++ ['\n'] := by
  simp [stageText, List.flatMap_map]

/-- What stands behind the separator of a stage. -/
theorem inBlock_stageJobs {st : Stage} (hst : ∀ j ∈ st.jobs, ShortKeys j)
    (h : s.InBlock 0 outer toks
      ('\n' :: (st.jobs.flatMap (fun j => (jobText j).toList ++ ['\n']) ++ rest))) :
    ∃ s', Leads s s' ∧ s'.InBlock 0 outer (toks ++ stageTokens st) rest := by
  obtain ⟨s₁, hleads₁, h⟩ := h.blank
  obtain ⟨s₂, hleads₂, h⟩ := h.pieces fun j hj _ _ _ h => by
    rw [List.append_assoc] at h
    obtain ⟨s₃, hleads₃, h⟩ := inBlock_job (hst j hj) h
    obtain ⟨s₄, hleads₄, h⟩ := h.blank
    exact ⟨s₄, hleads₃.trans hleads₄, h⟩
  exact ⟨s₂, hleads₁.trans hleads₂, h⟩

/-- A stage adds the tokens of its jobs; its separator has none. -/
theorem inBlock_stage {wave : Nat} {st : Stage} (hst : ∀ j ∈ st.jobs, ShortKeys j)
    (h : s.InBlock 0 outer toks ((stageText wave st).toList ++ rest)) :
    ∃ s', Leads s s' ∧ s'.InBlock 0 outer (toks ++ stageTokens st) rest := by
  obtain ⟨cs, hseparator, hcs⟩ := exists_separator wave
  rw [toList_stageText, hseparator, List.append_assoc, List.append_assoc, List.singleton_append,
    List.cons_append] at h
  obtain ⟨s₁, hleads₁, h⟩ := h.comment fun x hx => (hcs x hx).1
  obtain ⟨s₂, hleads₂, h⟩ := inBlock_stageJobs hst h
  exact ⟨s₂, hleads₁.trans hleads₂, h⟩

theorem inBlock_stages :
    ∀ {stages : List Stage} {wave : Nat} {s : Scanner} {toks : List Token},
      (∀ st ∈ stages, ∀ j ∈ st.jobs, ShortKeys j) →
      s.InBlock 0 outer toks ((stagesText wave stages).toList ++ rest) →
        ∃ s', Leads s s' ∧ s'.InBlock 0 outer (toks ++ stages.flatMap stageTokens) rest
  | [], wave, s, toks, _, h => ⟨s, .refl s, by simpa [stagesText] using h⟩
  | st :: stages, wave, s, toks, hstages, h => by
    rw [stagesText, String.toList_append, List.append_assoc] at h
    obtain ⟨s₁, hleads₁, h⟩ := inBlock_stage (hstages st List.mem_cons_self) h
    obtain ⟨s₂, hleads₂, h⟩ :=
      inBlock_stages (fun st' hst => hstages st' (List.mem_cons_of_mem _ hst)) h
    rw [List.append_assoc] at h
    exact ⟨s₂, hleads₁.trans hleads₂, h⟩

/-! ### Characters -/

/-- All characters may stand in a document as they are. -/
def Shown (cs : List Char) : Prop := ∀ x ∈ cs, isStreamChar x = true

@[simp] theorem shown_nil : Shown [] := fun _ hx => (nomatch hx)

@[simp] theorem shown_cons {x : Char} {cs : List Char} :
    Shown (x :: cs) ↔ isStreamChar x = true ∧ Shown cs := List.forall_mem_cons

@[simp] theorem shown_append {cs ds : List Char} : Shown (cs ++ ds) ↔ Shown cs ∧ Shown ds :=
  List.forall_mem_append

theorem shown_flatMap {α : Type} {as : List α} {text : α → List Char}
    (h : ∀ a ∈ as, Shown (text a)) : Shown (as.flatMap text) := by
  intro x hx
  obtain ⟨a, ha, hx⟩ := List.mem_flatMap.1 hx
  exact h a ha x hx

@[simp] theorem shown_spaces (k : Nat) : Shown (List.replicate k ' ') := fun x hx => by
  rw [List.eq_of_mem_replicate hx]
  rfl

@[simp] theorem shown_key (name : String) : Shown (key name).toList :=
  fun _ => isStreamChar_of_mem_key

@[simp] theorem shown_quote (text : String) : Shown (quote text).toList :=
  fun _ => isStreamChar_of_mem_quote

theorem shown_entryLine {name : String} {value : List Char} (hvalue : Shown value) :
    Shown (entryLine column name value) := by
  simp [entryLine, hvalue, isStreamChar]

theorem shown_itemLine (text : String) : Shown (itemLine column text) := by
  simp [itemLine, isStreamChar]

theorem shown_listText {indent name : String} (items : List String)
    (hindent : indent.toList = List.replicate column ' ') (hname : key name = name) :
    Shown (listText indent name items).toList := by
  rw [toList_listText items hindent hname]
  split
  · exact shown_entryLine (by simp [isStreamChar])
  · exact shown_append.2 ⟨shown_entryLine shown_nil, shown_flatMap fun text _ => shown_itemLine text⟩

theorem shown_textEntryLine (entry : String × String) : Shown (textEntryLine column entry) :=
  shown_entryLine (shown_cons.2 ⟨rfl, shown_quote entry.2⟩)

theorem shown_variablesText {indent : String} (v : Variables)
    (hindent : indent.toList = List.replicate column ' ') :
    Shown (variablesText indent v).toList := by
  rw [toList_variablesText v hindent]
  split
  · exact shown_entryLine (by simp [isStreamChar])
  · exact shown_append.2 ⟨shown_entryLine shown_nil,
      shown_flatMap fun entry _ => shown_textEntryLine entry⟩

theorem shown_jobText (j : Job) : Shown (jobText j).toList := by
  have hindent : "  ".toList = List.replicate 2 ' ' := rfl
  have hscript : key "script" = "script" := by decide
  have htags : key "tags" = "tags" := by decide
  simp only [toList_jobText, shown_append]
  exact ⟨shown_entryLine shown_nil, shown_textEntryLine _, shown_listText _ hindent hscript,
    shown_textEntryLine _, shown_listText _ hindent htags, shown_variablesText _ hindent⟩

theorem shown_stagesText (stages : List Stage) (wave : Nat) :
    Shown (stagesText wave stages).toList := by
  induction stages generalizing wave with
  | nil => exact shown_nil
  | cons st stages ih =>
    obtain ⟨cs, hseparator, hcs⟩ := exists_separator wave
    rw [stagesText, String.toList_append, shown_append, toList_stageText, hseparator]
    refine ⟨?_, ih (wave + 1)⟩
    have hbreak : Shown ['\n'] := shown_cons.2 ⟨rfl, shown_nil⟩
    have hcomment : Shown ('#' :: cs ++ ['\n']) :=
      shown_append.2 ⟨shown_cons.2 ⟨rfl, fun x hx => (hcs x hx).2⟩, hbreak⟩
    exact shown_append.2 ⟨hcomment, shown_cons.2 ⟨rfl,
      shown_flatMap fun j _ => shown_append.2 ⟨shown_jobText j, hbreak⟩⟩⟩

/-! ### The whole file -/

/-- What stands in front of the template. -/
def headText (p : Pipeline) : String :=
  listText "" "stages" p.stageLabels ++ "\n" ++ variablesText "" p.environment ++ "\n"

/-- The tokens of what stands in front of the template. -/
def headTokens (p : Pipeline) : List Token :=
  .blockMappingStart :: listTokens "stages" p.stageLabels ++ variablesTokens p.environment

/-- No key of the file is too long. -/
structure ShortFile (p : Pipeline) : Prop where
  environment : ShortNames p.environment
  jobs : ∀ st ∈ p.stages, ∀ j ∈ st.jobs, ShortKeys j

theorem shown_headText (p : Pipeline) : Shown (headText p).toList := by
  have hindent : "".toList = List.replicate 0 ' ' := rfl
  have hname : key "stages" = "stages" := by decide
  have hbreak : Shown "\n".toList := shown_cons.2 ⟨rfl, shown_nil⟩
  simp only [headText, String.toList_append, shown_append]
  exact ⟨⟨⟨shown_listText _ hindent hname, hbreak⟩, shown_variablesText _ hindent⟩, hbreak⟩

/-- The head of a file opens the block that the jobs go on with. -/
theorem inBlock_head {p : Pipeline} (hp : ShortNames p.environment)
    (h : s.AtLine [] [] ((headText p).toList ++ rest)) :
    ∃ s', Leads s s' ∧ s'.InBlock 0 [] (headTokens p) rest := by
  have hindent : "".toList = List.replicate 0 ' ' := rfl
  have hname : key "stages" = "stages" := by decide
  simp only [headText, String.toList_append, List.append_assoc] at h
  have h := h.awaitsEntry 0 fun o ho => (nomatch ho)
  obtain ⟨s₁, hleads₁, h⟩ := awaitsEntry_list hindent hname (by decide) h
  obtain ⟨s₂, hleads₂, h⟩ := h.blank
  obtain ⟨s₃, hleads₃, h⟩ := awaitsEntry_variables hp hindent h.awaitsEntry
  obtain ⟨s₄, hleads₄, h⟩ := h.blank
  exact ⟨s₄, hleads₁.trans (hleads₂.trans (hleads₃.trans hleads₄)), h⟩

end Gitlab

namespace Yaml.Scanner

variable {s : Scanner} {toks : List Token} {column : Nat}

/-- At the end of the stream the blocks are closed. -/
theorem InBlock.run_end (h : s.InBlock column [] toks []) {n : Nat} (hn : 2 ≤ n) :
    ∃ ls, run n s = .ok ls ∧ ls.map (·.token) = toks ++ [.blockEnd, .streamEnd] := by
  obtain ⟨inner, toks', h, -, rfl⟩ := h
  obtain ⟨ls, hrun, hls⟩ := h.run_end hn
  refine ⟨ls, hrun, ?_⟩
  rw [hls, List.length_append, List.length_singleton, List.replicate_succ']
  simp

/-- The state in front of a stream. -/
theorem atLine_start (cs : List Char) :
    AtLine { cursor := Cursor.ofText cs } [] [] cs where
  unfinished := rfl
  rest_eq := rfl
  column := rfl
  room := Nat.le_refl _
  levels_eq := rfl
  key := fun _ hk => (nomatch hk)
  outer := rfl
  keyAllowed := rfl
  tokens_eq := rfl

end Yaml.Scanner

namespace Gitlab

theorem render_eq {p : Pipeline} {template : String} (htemplate : p.template.render = .ok template) :
    render p = .ok (headText p ++ template ++ stagesText 0 p.stages) := by
  rw [render, htemplate, headText]

theorem render_eq_ok_iff {p : Pipeline} {text : String} : render p = .ok text ↔
    ∃ template, p.template.render = .ok template ∧
      headText p ++ template ++ stagesText 0 p.stages = text := by
  cases htemplate : p.template.render with
  | error e =>
    rw [render, htemplate]
    simp
  | ok template =>
    rw [render_eq htemplate]
    simp

/-- **The tokens of a file without a template.** -/
theorem tokens_render {p : Pipeline} (hp : ShortFile p) {text : String}
    (htext : text = headText p ++ stagesText 0 p.stages) :
    ∃ ls, tokens text = .ok ls ∧
      ls.map (·.token)
        = headTokens p ++ p.stages.flatMap stageTokens ++ [.blockEnd, .streamEnd] := by
  have hchars : text.toList = (headText p).toList ++ ((stagesText 0 p.stages).toList ++ []) := by
    rw [htext, String.toList_append, List.append_nil]
  have hshown : text.toList.all isStreamChar = true := by
    rw [List.all_eq_true, hchars, List.append_nil]
    exact shown_append.2 ⟨shown_headText p, shown_stagesText p.stages 0⟩
  have hstart : AtLine { cursor := Cursor.ofText text.toList } [] []
      ((headText p).toList ++ ((stagesText 0 p.stages).toList ++ [])) :=
    { atLine_start text.toList with rest_eq := hchars }
  obtain ⟨s₁, hleads₁, h⟩ := inBlock_head hp.environment hstart
  obtain ⟨s₂, hleads₂, h⟩ := inBlock_stages hp.jobs h
  obtain ⟨n, hn, hrun⟩ := (hleads₁.trans hleads₂).run (text.toList.length + 2) (Nat.le_refl _)
  obtain ⟨ls, hls, htokens⟩ := h.run_end (n := n) (by omega)
  refine ⟨ls, ?_, htokens⟩
  rw [Yaml.tokens, if_pos hshown]
  exact hrun.trans hls

end Gitlab

end JobMatrix
