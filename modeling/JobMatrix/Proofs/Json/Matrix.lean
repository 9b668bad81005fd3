import JobMatrix.Pipeline.Matrix
import JobMatrix.Proofs.Job.Record
import JobMatrix.Proofs.Json.Nodes
import JobMatrix.Proofs.Yaml.Decode
import Mathlib.Data.Set.List

/-!
# Matrices written in JSON

A value of JSON that has the shape of a matrix (`Json.IsMatrix`) denotes one
(`Json.DenotesMatrix`), and a portable text of the value is read as that matrix
(`Matrix.ofYaml_json`).
-/

set_option autoImplicit false

namespace JobMatrix

open Yaml

/-! ## What values denote -/

/-- The value of a parameter: an array of its name and its version. -/
def Parameter.json (p : Parameter) : Json := .list [.text p.name, .text p.version]

namespace Json

/-- The fields of a record: keys of categories with parameters, each key once, and all keys that
are required. -/
structure AreRecord (fields : List (String × Json)) : Prop where
  parameters : ∀ field ∈ fields, ∃ (c : Category) (p : Parameter), field = (c.key, p.json)
  distinct : (fields.map Prod.fst).Nodup
  required : ∀ c ∈ Category.required, c.key ∈ fields.map Prod.fst

def IsRecord (j : Json) : Prop := ∃ fields, j = .object fields ∧ AreRecord fields

/-- An array of values like this. -/
def IsList (P : Json → Prop) (j : Json) : Prop := ∃ items, j = .list items ∧ ∀ x ∈ items, P x

/-- An array of arrays of records. -/
def IsMatrix : Json → Prop := IsList (IsList IsRecord)

/-- The record binds a category to a parameter when the object does. -/
def DenotesRecord (j : Json) (r : Record) : Prop :=
  ∃ fields, j = .object fields ∧ ∀ c p, r.get? c = some p ↔ (c.key, p.json) ∈ fields

/-- The array has one item for each of these, in order. -/
def DenotesList {α : Type} (R : Json → α → Prop) (j : Json) (xs : List α) : Prop :=
  ∃ items, j = .list items ∧ List.Forall₂ R items xs

/-- The waves and their records are those of the value, in order. -/
def DenotesMatrix : Json → Matrix → Prop := DenotesList (DenotesList DenotesRecord)

end Json

/-! ## A matrix of one record -/

namespace Json

/-- A string in which nothing is escaped. -/
def unescaped (s : String) (h : s.toList.all fun c => IsRaw c) : List Spelling :=
  s.toList.attach.map fun c => .raw c.1 (of_decide_eq_true (List.all_eq_true.1 h c.1 c.2))

theorem spelledValue_unescaped (s : String) (h : s.toList.all fun c => IsRaw c) :
    spelledValue (unescaped s h) = s := by
  have hchars : (unescaped s h).map Spelling.char = s.toList := by
    rw [unescaped, List.map_map]
    exact List.attach_map_subtype_val s.toList
  rw [spelledValue, hchars, String.ofList_toList]

/-- No blanks. -/
def Blanks.none : Blanks := ⟨[], nofun⟩

/-- Something without blanks around it. -/
def tight {α : Type} (content : α) : Padded α := ⟨.none, content, .none⟩

/-- The member of an object that binds a category to a parameter. -/
def boundTo (key name version : List Spelling) : Blanks × Member Source :=
  (.none, ⟨key, .none, .none, .array .none [tight (.string name), tight (.string version)], .none⟩)

/-- The members of a record.  The version of its compilers is spelled like this. -/
def oneRecordMembers (version : List Spelling) : List (Blanks × Member Source) :=
  [boundTo (unescaped "host_compiler" (by decide)) (unescaped "gcc" (by decide)) version,
    boundTo (unescaped "device_compiler" (by decide)) (unescaped "gcc" (by decide)) version,
    boundTo (unescaped "build_type" (by decide)) (unescaped "build_type" (by decide))
      (unescaped "Release" (by decide)),
    boundTo (unescaped "test_type" (by decide)) (unescaped "test_type" (by decide))
      (unescaped "runtime" (by decide))]

/-- A matrix of this record alone, without blanks. -/
def oneRecord (version : List Spelling) : Document :=
  tight (.array .none [tight (.array .none [tight (.object .none (oneRecordMembers version))])])

/-- The parameters of the record. -/
def oneRecordParameters (version : String) : List (Category × Parameter) :=
  [(.hostCompiler, ⟨"gcc", version⟩), (.deviceCompiler, ⟨"gcc", version⟩),
    (.buildType, ⟨"build_type", "Release"⟩), (.testType, ⟨"test_type", "runtime"⟩)]

theorem oneRecord_value (version : List Spelling) :
    (oneRecord version).value = .list [.list [.object
      ((oneRecordParameters (spelledValue version)).map fun (c, p) => (c.key, p.json))]] := by
  simp only [oneRecord, oneRecordMembers, Document.value, tight, boundTo, Source.value,
    Source.itemsValue, Source.membersValue, spelledValue_unescaped]
  rfl

theorem oneRecord_isMatrix (version : List Spelling) : (oneRecord version).value.IsMatrix := by
  rw [oneRecord_value]
  refine ⟨_, rfl, ?_⟩
  -- the only wave, and in it the only record
  rintro _ (_ | ⟨_, ⟨⟩⟩)
  refine ⟨_, rfl, ?_⟩
  rintro _ (_ | ⟨_, ⟨⟩⟩)
  refine ⟨_, rfl, ⟨fun field hfield => ?_, ?_, ?_⟩⟩
  · obtain ⟨q, -, rfl⟩ := List.mem_map.1 hfield
    exact ⟨q.1, q.2, rfl⟩
  · exact (by decide : (["host_compiler", "device_compiler", "build_type", "test_type"]).Nodup)
  · exact (by decide : ∀ c ∈ Category.required,
      c.key ∈ ["host_compiler", "device_compiler", "build_type", "test_type"])

/-- A misread text has a separator. -/
theorem IsMisread.exists_separator {cs : List Char} (h : IsMisread cs) :
    ∃ c ∈ cs, IsSeparator c := by
  cases h with
  | spaceBefore h => exact ⟨_, by simp, h⟩
  | spaceBehind h => exact ⟨_, by simp, h⟩
  | mark h => exact ⟨_, by simp, h⟩

/-- A string without separators is portable when its characters are. -/
theorem stringPortable_of_line {s : List Spelling} (h : ∀ x ∈ s, x.Portable)
    (hline : ∀ c ∈ s.flatMap Spelling.text, ¬IsSeparator c) : StringPortable s where
  spelling := h
  separators cs hcs hinside := by
    obtain ⟨c, hc, hseparator⟩ := hcs.exists_separator
    exact hline c (hinside.subset hc) hseparator

section Unescaped

variable {s : String} {h : s.toList.all fun c => IsRaw c}

theorem text_unescaped : (unescaped s h).flatMap Spelling.text = s.toList := by
  rw [unescaped, List.flatMap_map]
  exact List.map_eq_flatMap.symm.trans (List.attach_map_subtype_val s.toList)

theorem toNat_unescaped (h : s.toList.all fun c => IsRaw c)
    (hs : s.toList.all fun c => c.toNat < 0x7F) {c : Char} (hc : c ∈ s.toList) :
    0x20 ≤ c.toNat ∧ c.toNat < 0x7F := by
  have hraw : IsRaw c := of_decide_eq_true (List.all_eq_true.1 h c hc)
  exact ⟨hraw.1, of_decide_eq_true (List.all_eq_true.1 hs c hc)⟩

theorem unescaped_portable (hs : s.toList.all fun c => c.toNat < 0x7F) :
    ∀ x ∈ unescaped s h, x.Portable := by
  intro x hx
  obtain ⟨⟨c, hc⟩, -, rfl⟩ := List.mem_map.1 hx
  obtain ⟨-, hlt⟩ := toNat_unescaped h hs hc
  have hcontrol : ¬(0x7F ≤ c.toNat ∧ c.toNat < 0xA0) := by omega
  have hhigh : c.toNat ∉ [0xFFFE, 0xFFFF] := by
    simp only [List.mem_cons, List.not_mem_nil, or_false]
    omega
  exact ⟨hcontrol, hhigh⟩

theorem unescaped_stringPortable (hs : s.toList.all fun c => c.toNat < 0x7F) :
    StringPortable (unescaped s h) := by
  refine stringPortable_of_line (unescaped_portable hs) ?_
  rw [text_unescaped]
  intro c hc hseparator
  have hlt := (toNat_unescaped h hs hc).2
  rcases hseparator with rfl | rfl <;> exact absurd hlt (by decide)

theorem unescaped_namePortable {version name : List Spelling}
    (hs : s.toList.all fun c => c.toNat < 0x7F) (hnear : s.toList.length ≤ 1022) :
    (boundTo (unescaped s h) name version).2.NamePortable where
  spelling := unescaped_portable (h := h) hs
  line := by
    intro c hc
    simp only [boundTo, spelledText, text_unescaped, Blanks.none, List.append_nil, List.mem_cons,
      List.mem_append, List.not_mem_nil, or_false] at hc
    have hascii : 0x20 ≤ c.toNat ∧ c.toNat < 0x7F := by
      rcases hc with rfl | hc | rfl
      · decide
      · exact toNat_unescaped h hs hc
      · decide
    refine ⟨?_, ?_, ?_⟩
    · rintro rfl
      exact absurd hascii (by decide)
    · rintro rfl
      exact absurd hascii (by decide)
    · rintro (rfl | rfl) <;> exact absurd hascii (by decide)
  near := by
    simp only [boundTo, spelledText, text_unescaped, Blanks.none, List.length_cons,
      List.length_append, List.length_nil]
    omega

end Unescaped

theorem oneRecordMembers_portable {version : List Spelling} (h : StringPortable version) :
    Source.membersPortable (oneRecordMembers version) := by
  have hword {s : String} {hs : s.toList.all fun c => IsRaw c} :
      (s.toList.all fun c => c.toNat < 0x7F) → StringPortable (unescaped s hs) :=
    unescaped_stringPortable
  refine ⟨unescaped_namePortable (by decide) (by decide), ⟨hword (by decide), h, trivial⟩, ?_⟩
  refine ⟨unescaped_namePortable (by decide) (by decide), ⟨hword (by decide), h, trivial⟩, ?_⟩
  refine ⟨unescaped_namePortable (by decide) (by decide),
    ⟨hword (by decide), hword (by decide), trivial⟩, ?_⟩
  exact ⟨unescaped_namePortable (by decide) (by decide),
    ⟨hword (by decide), hword (by decide), trivial⟩, trivial⟩

theorem oneRecord_portable {version : List Spelling} (h : StringPortable version) :
    (oneRecord version).Portable where
  before := nofun
  content := ⟨⟨oneRecordMembers_portable h, trivial⟩, trivial⟩
  after := .nil

end Json

/-! ## Reading -/

theorem Parameter.json_injective : Function.Injective Parameter.json := by
  rintro ⟨name, version⟩ ⟨name', version'⟩ h
  simp only [json, Json.list.injEq, List.cons.injEq, Json.text.injEq, and_true] at h
  rw [h.1, h.2]

theorem Parameter.gives_decoder (p : Parameter) (path : Path) :
    (decoder path p.json.node).Gives p := by
  rw [json, Json.node, Json.itemNodes, Json.itemNodes, Json.itemNodes, Json.node, Json.node]
  exact (Decoder.gives_textPair {} {} {} p.name p.version).bind (Decode.gives_pure _)

namespace Json

/-- The fields of a record, with the parameters that the values stand for. -/
theorem AreRecord.exists_entries {fields : List (String × Json)} (h : AreRecord fields) :
    ∃ es : List (String × Parameter), fields = es.map fun e => (e.1, e.2.json) := by
  have hmem : fields ∈ Set.range (List.map fun e : String × Parameter => (e.1, e.2.json)) := by
    rw [Set.range_list_map]
    intro field hfield
    obtain ⟨c, p, rfl⟩ := h.parameters field hfield
    exact ⟨(c.key, p), rfl⟩
  obtain ⟨es, hes⟩ := hmem
  exact ⟨es, hes.symm⟩

theorem mem_map_json {es : List (String × Parameter)} {k : String} {p : Parameter} :
    (k, p.json) ∈ es.map (fun e => (e.1, e.2.json)) ↔ (k, p) ∈ es := by
  have hinjective : Function.Injective fun e : String × Parameter => (e.1, e.2.json) :=
    Function.injective_id.prodMap Parameter.json_injective
  exact List.mem_map_of_injective hinjective (a := (k, p))

/-- The entries of a record bind its categories. -/
theorem AreRecord.exists_record {es : List (String × Parameter)}
    (h : AreRecord (es.map fun e => (e.1, e.2.json))) :
    ∃ r, Record.ofBindings (.ofList es) = .ok r ∧ ∀ c p, r.get? c = some p ↔ (c.key, p) ∈ es := by
  have hnames : (es.map fun e => (e.1, e.2.json)).map Prod.fst = es.map Prod.fst := List.map_map
  have hdistinct : es.Pairwise fun a b => a.1 ≠ b.1 := by
    have := h.distinct
    rw [hnames] at this
    exact List.pairwise_map.1 this
  have hget {k : String} {p : Parameter} : (Bindings.ofList es).get? k = some p ↔ (k, p) ∈ es :=
    Bindings.get?_ofList_eq_some_iff hdistinct
  have hread : ∃ r, Record.ofBindings (.ofList es) = .ok r := by
    refine (Record.exists_ofBindings_iff _).2 ⟨?_, fun c hc => ?_⟩
    · rintro ⟨k, hk, hno⟩
      obtain ⟨p, hp⟩ := Bindings.mem_names_iff.1 hk
      obtain ⟨c, p', hfield⟩ := h.parameters (k, p.json) (mem_map_json.2 (hget.1 hp))
      exact hno c (congrArg Prod.fst hfield).symm
    · have hrequired := h.required c hc
      rw [hnames] at hrequired
      obtain ⟨⟨k, p⟩, hmem, rfl⟩ := List.mem_map.1 hrequired
      exact Bindings.mem_names_iff.2 ⟨p, hget.2 hmem⟩
  obtain ⟨r, hr⟩ := hread
  refine ⟨r, hr, fun c p => ?_⟩
  have hbindings : r.toBindings = .ofList es := Record.ofBindings_eq_ok_iff.1 hr
  rw [← hget, ← hbindings, Record.get?_toBindings, Category.ofKey?_eq_some_iff.2 rfl,
    Option.bind_some]

theorem IsRecord.gives_decoder {j : Json} (h : j.IsRecord) :
    ∃ r, j.DenotesRecord r ∧ ∀ path, (Record.decoder path j.node).Gives r := by
  obtain ⟨fields, rfl, hfields⟩ := h
  obtain ⟨es, rfl⟩ := hfields.exists_entries
  obtain ⟨r, hread, hget⟩ := hfields.exists_record
  refine ⟨r, ⟨_, rfl, fun c p => (hget c p).trans mem_map_json.symm⟩, fun path => ?_⟩
  rw [node, fieldNodes_eq_map, List.map_map]
  refine (Decoder.gives_textEntries {} fun e _ =>
    ⟨⟨{}, .doubleQuoted, rfl⟩, e.2.gives_decoder⟩).bind ?_
  rw [hread]
  exact Decode.gives_pure r

/-- The items of an array are read as what they denote if they can be read at all. -/
theorem IsList.gives_decoder {α : Type} {P : Json → Prop} {R : Json → α → Prop} {item : Decoder α}
    (hitem : ∀ j, P j → ∃ a, R j a ∧ ∀ path, (item path j.node).Gives a) (j : Json)
    (h : IsList P j) :
    ∃ as, DenotesList R j as ∧ ∀ path, (Decoder.list item path j.node).Gives as := by
  obtain ⟨items, rfl, hitems⟩ := h
  have hread : ∃ as, List.Forall₂ R items as ∧
      List.Forall₂ (fun node a => ∀ path, (item path node).Gives a) (items.map node) as := by
    induction items with
    | nil => exact ⟨[], .nil, .nil⟩
    | cons x items ih =>
      obtain ⟨a, hdenotes, hgives⟩ := hitem x (hitems x List.mem_cons_self)
      obtain ⟨as, has, hread⟩ := ih fun y hy => hitems y (List.mem_cons_of_mem _ hy)
      exact ⟨a :: as, .cons hdenotes has, .cons hgives hread⟩
  obtain ⟨as, has, hread⟩ := hread
  refine ⟨as, ⟨items, rfl, has⟩, fun path => ?_⟩
  rw [node, itemNodes_eq_map]
  exact Decoder.gives_list {} hread

theorem IsMatrix.gives_decoder {j : Json} (h : j.IsMatrix) :
    ∃ m : Matrix, j.DenotesMatrix m ∧ ∀ path, (Matrix.decoder path j.node).Gives m :=
  IsList.gives_decoder (IsList.gives_decoder fun _ => IsRecord.gives_decoder) j h

end Json

/-- **A matrix in JSON** is read as the matrix that its value denotes, if the text is portable. -/
theorem Matrix.ofYaml_json {d : Json.Document} (hd : d.Portable) (hm : d.value.IsMatrix) :
    ∃ m, ofYaml d.text = .ok m ∧ d.value.DenotesMatrix m := by
  obtain ⟨y, hparse, hroot⟩ := Json.Document.parse_text hd
  obtain ⟨m, hdenotes, hgives⟩ := hm.gives_decoder
  have hread : (decoder .root y.root).Gives m := hroot ▸ hgives .root
  exact ⟨m, read_eq hparse hread, hdenotes⟩

/-- A text of `1é/` with two escapes. -/
def Json.escapedVersion : List Json.Spelling :=
  unescaped "1" (by decide) ++
    [.unit ⟨⟨0, false⟩, ⟨0, false⟩, ⟨0xE, false⟩, ⟨9, false⟩⟩ (by decide), .short .slash]

theorem Matrix.ofYaml_json_escaped :
    ∃ d : Json.Document,
      d.text = "[[\x7b\"host_compiler\":[\"gcc\",\"1\\u00e9\\/\"],"
        ++ "\"device_compiler\":[\"gcc\",\"1\\u00e9\\/\"],"
        ++ "\"build_type\":[\"build_type\",\"Release\"],"
        ++ "\"test_type\":[\"test_type\",\"runtime\"]\x7d]]" ∧
      d.Portable ∧ d.value.IsMatrix ∧ ∃ m, ofYaml d.text = .ok m ∧ d.value.DenotesMatrix m := by
  have hversion : ∀ x ∈ Json.escapedVersion, x.Portable := by
    intro x hx
    rcases List.mem_append.1 hx with hx | hx
    · exact Json.unescaped_portable (by decide) x hx
    · rcases hx with _ | ⟨_, _ | ⟨_, ⟨⟩⟩⟩
      · trivial
      · trivial
  have hline : (Json.escapedVersion.flatMap Json.Spelling.text).all fun c =>
      ¬Json.IsSeparator c := by decide
  have hd := Json.oneRecord_portable
    (Json.stringPortable_of_line hversion fun c hc =>
      of_decide_eq_true (List.all_eq_true.1 hline c hc))
  have hm := Json.oneRecord_isMatrix Json.escapedVersion
  exact ⟨_, by decide +kernel, hd, hm, ofYaml_json hd hm⟩

/-- A surrogate pair for U+1F600. -/
def Json.Spelling.emoji : Json.Spelling :=
  .pair ⟨⟨0xD, true⟩, ⟨8, true⟩, ⟨3, true⟩, ⟨0xD, true⟩⟩
    ⟨⟨0xD, true⟩, ⟨0xE, true⟩, ⟨0, true⟩, ⟨0, true⟩⟩ (by decide) (by decide)

/-- A matrix with a surrogate pair is refused. -/
theorem Matrix.ofYaml_json_emoji :
    ∃ d : Json.Document,
      d.text = "[[\x7b\"host_compiler\":[\"gcc\",\"\\uD83D\\uDE00\"],"
        ++ "\"device_compiler\":[\"gcc\",\"\\uD83D\\uDE00\"],"
        ++ "\"build_type\":[\"build_type\",\"Release\"],"
        ++ "\"test_type\":[\"test_type\",\"runtime\"]\x7d]]" ∧
      d.value.IsMatrix ∧ ¬∃ m, ofYaml d.text = .ok m := by
  have hrefused : (ofYaml (Json.oneRecord [.emoji]).text).toBool = false := by decide +kernel
  refine ⟨Json.oneRecord [.emoji], by decide +kernel, Json.oneRecord_isMatrix _, ?_⟩
  rintro ⟨m, hm⟩
  rw [hm] at hrefused
  cases hrefused

end JobMatrix
