import JobMatrix.Proofs.Gitlab.Value

/-!
# Reading keys back

A mapping key is printed plain or between quotes.  Read without a type in mind, it is the text that
was printed, unless it is a number behind a point: `isPlainKey` takes those for texts, but a reader
does not (`key_value`).
-/

set_option autoImplicit false

namespace JobMatrix.Gitlab

open Yaml Yaml.Node Yaml.Scanner Yaml.Decode Yaml.Decoder

variable {name : String} {path : Path}

/-! ## The value of a key -/

/-- What a printed key is read as: a text, or a number if it is one behind a point. -/
inductive KeyValue (name : String) : Value → Prop
  | text (h : ¬IsPointNumber name) : KeyValue name (.string name)
  | number (x : Binary64) (h : IsPointNumber name) (hplain : key name = name) :
      KeyValue name (.float x)

theorem gives_float {inner? : Option (Decoder Value)} {text : String} {x : Binary64}
    (h : resolvePlain text = .float x) :
    (valueWith inner? path (.scalar {} .plain text)).Gives (.float x) := by
  refine gives_of_scalarValue ?_
  have htype : scalarType false none .plain text = .ok (.float x) := by
    rw [scalarType, if_pos rfl, h]
  rw [scalarValue]
  rw [htype]
  exact gives_pure _

/-- **The value of a key**, wherever it stands. -/
theorem exists_keyValue (name : String) :
    ∃ v, KeyValue name v ∧ ∀ (inner? : Option (Decoder Value)) (path : Path),
      (valueWith inner? path (keyNode name)).Gives v := by
  by_cases hnumber : IsPointNumber name
  · have hplain := hnumber.isPlainKey
    obtain ⟨x, hx⟩ := (resolvePlain_key_iff hplain).1 hnumber
    refine ⟨.float x, .number x hnumber (if_pos hplain), fun inner? path => ?_⟩
    rw [keyNode, keyStyle, if_pos hplain]
    exact gives_float hx
  · refine ⟨.string name, .text hnumber, fun inner? path => gives_scalar fun hstyle => ?_⟩
    rw [keyStyle] at hstyle
    split at hstyle
    · exact (resolvePlain_key_iff ‹_›).2 hnumber
    · cases hstyle

/-! ## An entry -/

/-- The line of an entry whose value is a text. -/
def entryText (name text : String) : String := key name ++ ": " ++ quote text ++ "\n"

theorem toList_entryText (name text : String) :
    (entryText name text).toList = textEntryLine 0 (name, text) := by
  simp [entryText, textEntryLine, entryLine]

theorem tokens_entryText (text : String) (hlength : (key name).length ≤ 1024) :
    ∃ ls, Yaml.tokens (entryText name text) = .ok ls ∧
      ls.map (·.token)
        = .blockMappingStart :: textEntryTokens (name, text) ++ [.blockEnd, .streamEnd] := by
  have hshown : (entryText name text).toList.all isStreamChar = true := by
    rw [List.all_eq_true, toList_entryText]
    exact shown_textEntryLine (name, text)
  have hstart : AtLine { cursor := Cursor.ofText (entryText name text).toList } [] []
      (textEntryLine 0 (name, text) ++ []) :=
    { atLine_start (entryText name text).toList with
      rest_eq := by rw [List.append_nil, ← toList_entryText]; rfl }
  obtain ⟨s, hleads, h⟩ := awaitsEntry_textEntry
    (hstart.awaitsEntry 0 fun o ho => (nomatch ho)) hlength
  obtain ⟨n, hn, hrun⟩ := hleads.run ((entryText name text).toList.length + 2) (Nat.le_refl _)
  obtain ⟨ls, hls, htokens⟩ := h.run_end (n := n) (by omega)
  refine ⟨ls, ?_, htokens⟩
  rw [Yaml.tokens, if_pos hshown]
  exact hrun.trans hls

theorem parse_entryText (text : String) (hlength : (key name).length ≤ 1024) :
    ∃ d, Document.parse (entryText name text) = .ok d ∧
      d.root = .mapping {} [textEntry (name, text)] := by
  obtain ⟨ls, hls, htokens⟩ := tokens_entryText text hlength
  have hnode := ofTokens_blockMapping (readsEntries_textEntry (name, text)) htokens
  have hnumbers : NumbersEntries [textEntry (name, text)] [textEntry (name, text)] :=
    .cons (numbers_key name) (numbers_text text) numbersEntries_nil
  exact ⟨_, Document.parse_eq hls hnode ((numbers_mapping hnumbers).number []), rfl⟩

/-- An entry is read as its key and its text. -/
theorem read_entryText {v : Value} (text : String) (hlength : (key name).length ≤ 1024)
    (hkey : ∀ (inner? : Option (Decoder Value)) (path : Path),
      (valueWith inner? path (keyNode name)).Gives v) :
    read Decoder.value (entryText name text) = .ok (.mapping [(v, .string text)]) := by
  obtain ⟨d, hparse, hroot⟩ := parse_entryText text hlength
  have hentry : ∀ path, (valueEntries (valueWithin 127) path [] [textEntry (name, text)]).Gives
      [(v, .string text)] := fun path =>
    gives_valueEntries_cons (hkey _ _) (gives_within_text text) (by simp) (gives_valueEntries_nil _)
  refine read_eq hparse ?_
  rw [hroot]
  exact gives_within_mapping (hentry .root)

/-- The words that are switches in YAML 1.1. -/
def switchWords : List String :=
  ["y", "Y", "yes", "Yes", "YES", "n", "N", "no", "No", "NO", "true", "True", "TRUE", "false",
    "False", "FALSE", "on", "On", "ON", "off", "Off", "OFF"]

theorem key_switchWord : ∀ word ∈ switchWords, key word = quote word := by decide

/-- **Keys are read back as they were printed, except numbers behind a point.** -/
theorem key_value (name : String) :
    (name ∈ switchWords → key name = quote name) ∧
      ∃ v, KeyValue name v ∧
        (∀ (inner? : Option (Decoder Value)) (path : Path),
          (valueWith inner? path (keyNode name)).Gives v) ∧
        ∀ text, (key name).length ≤ 1024 →
          read Decoder.value (entryText name text) = .ok (.mapping [(v, .string text)]) := by
  obtain ⟨v, hv, hkey⟩ := exists_keyValue name
  exact ⟨key_switchWord name, v, hv, hkey, fun text hlength => read_entryText text hlength hkey⟩

/-- The key `.5` stays plain, and is read as a number. -/
theorem key_point_five :
    key ".5" = ".5" ∧
      (∃ x, read Decoder.value ".5: \"x\"\n" = .ok (.mapping [(.float x, .string "x")])) ∧
      read Decoder.value ".5: \"x\"\n" ≠ .ok (.mapping [(.string ".5", .string "x")]) := by
  have hnumber : IsPointNumber ".5" :=
    .inr ⟨⟨['5'], [], rfl, by simp, by simp, .inl rfl⟩, by decide +kernel⟩
  have hplain : key ".5" = ".5" := if_pos hnumber.isPlainKey
  have htext : entryText ".5" "x" = ".5: \"x\"\n" := by rw [entryText, hplain]; rfl
  obtain ⟨v, hv, hkey⟩ := exists_keyValue ".5"
  have hread := read_entryText "x" (by rw [hplain]; decide) hkey
  rw [htext] at hread
  cases hv with
  | text h => exact absurd hnumber h
  | number x =>
    refine ⟨hplain, ⟨x, hread⟩, ?_⟩
    rw [hread]
    simp

end JobMatrix.Gitlab
