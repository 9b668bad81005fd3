import JobMatrix.Job.Record
import JobMatrix.Proofs.Bindings
import JobMatrix.Proofs.Log
import JobMatrix.Proofs.Text.Bytes
import Mathlib.Data.List.Nodup

/-!
# Records and what they bind

A record is what `Record.get?` sees of it.  This file says what the operations do to that view.

* `Category.ofKey?_eq_some_iff` says that a category is read from its key, and from no other text.
* `Record.get?_set` and `Record.get?_foldl_set` are about binding categories one after the other,
  and `Record.ofParameters_eq_ok_iff` about a record made from a list of parameters.
* `Record.get?_toBindings` is the view of the mapping of a record, and
  `Record.ofBindings_eq_ok_iff` says that reading and writing mappings are inverse to each other.
* `Record.ofBindings_of_unknownKey` and `Record.ofBindings_of_missing` say what is reported of a
  mapping that is no record.
-/

set_option autoImplicit false

namespace JobMatrix

namespace Backend

theorem flag_injective : Function.Injective flag := fun b d h =>
  have hflags : (all.map flag).Nodup := by decide
  List.inj_on_of_nodup_map hflags b.mem_all d.mem_all h

theorem ofFlag?_eq_some_iff {s : String} {b : Backend} : ofFlag? s = some b ↔ b.flag = s := by
  constructor
  · intro h
    simpa using List.find?_some h
  · rintro rfl
    have hsome : (ofFlag? b.flag).isSome := List.find?_isSome.2 ⟨b, b.mem_all, beq_self_eq_true _⟩
    obtain ⟨d, hd⟩ := Option.isSome_iff_exists.1 hsome
    have hflag : d.flag = b.flag := by simpa using List.find?_some hd
    rw [hd, flag_injective hflag]

end Backend

namespace Category

/-! ## Keys -/

theorem key_injective : Function.Injective key := fun c d h =>
  have hkeys : (all.map key).Nodup := by decide
  List.inj_on_of_nodup_map hkeys c.mem_all d.mem_all h

/-- No flag is the key of another category. -/
theorem ofKey?_flag (b : Backend) : ofKey? b.flag = (Backend.ofFlag? b.flag).map backend := by
  cases b <;> rfl

/-- **The category of a key** is the one that goes by it. -/
theorem ofKey?_eq_some_iff {k : String} {c : Category} : ofKey? k = some c ↔ c.key = k := by
  constructor
  · intro h
    rw [ofKey?.eq_def] at h
    split at h
    case h_9 =>
      obtain ⟨b, hb, rfl⟩ := Option.map_eq_some_iff.1 h
      exact Backend.ofFlag?_eq_some_iff.1 hb
    all_goals
      obtain rfl := Option.some.inj h
      rfl
  · rintro rfl
    cases c with
    | backend b => rw [key, ofKey?_flag, Backend.ofFlag?_eq_some_iff.2 rfl, Option.map_some]
    | _ => rfl

theorem ofKey?_eq_none_iff {k : String} : ofKey? k = none ↔ ∀ c : Category, c.key ≠ k := by
  rw [Option.eq_none_iff_forall_ne_some]
  exact forall_congr' fun c => not_congr ofKey?_eq_some_iff

end Category

namespace Record

theorem require_eq_ok_iff {r : Record} {c : Category} {p : Parameter} :
    r.require c = .ok p ↔ r.get? c = some p := by
  rw [require]
  cases r.get? c <;> simp

/-! ## Binding categories -/

theorem get?_set (r : Record) (c d : Category) (p : Parameter) :
    (r.set c p).get? d = if d = c then some p else r.get? d := by
  cases c with
  | backend b =>
    cases d with
    | backend d => simp only [set, get?, Category.backend.injEq]
    | _ => rfl
  | _ => cases d <;> rfl

/-- A record after a list of parameters was bound to it one after the other. -/
theorem get?_foldl_set (ps : List (Category × Parameter)) (d : Category) :
    ∀ r : Record, (ps.foldl (fun r (c, p) => r.set c p) r).get? d
      = (ps.reverse.lookup d).or (r.get? d) := by
  induction ps with
  | nil => exact fun _ => rfl
  | cons q ps ih =>
    intro r
    rw [List.foldl_cons, ih, List.reverse_cons, List.lookup_append, Option.or_assoc, get?_set,
      Bindings.lookup_cons_eq]
    split <;> simp

theorem take_eq_ok_iff {c : Category} {b b' : Bindings Parameter Category} {p : Parameter} :
    take c b = .ok (p, b') ↔ b.get? c = some p ∧ b.erase c = b' := by
  rw [take]
  cases b.get? c <;> simp

/-- Taking a category fails if the map does not have it. -/
theorem failureOf?_take_bind {β : Type} (c : Category) (b : Bindings Parameter Category)
    (f : Parameter × Bindings Parameter Category → Except JobError β) :
    failureOf? (take c b >>= f) = match b.get? c with
      | some p => failureOf? (f (p, b.erase c))
      | none => some (.missingCategory c) := by
  rw [take]
  cases b.get? c <;> rfl

/-- A record after the entries of a map were bound to it. -/
theorem get?_foldl_entries (b : Bindings Parameter Category) (r : Record) (c : Category) :
    (b.entries.foldl (fun r (c, p) => r.set c p) r).get? c = (b.get? c).or (r.get? c) := by
  rw [get?_foldl_set, Bindings.lookup_reverse_entries]

/-- **A record from parameters** binds each category to what the list binds it to last. -/
theorem ofParameters_eq_ok_iff {ps : List (Category × Parameter)} {r : Record} :
    ofParameters ps = .ok r ↔ ∀ c, r.get? c = ps.reverse.lookup c := by
  simp only [ofParameters, bind_eq_ok_iff, Prod.exists, take_eq_ok_iff, Except.ok.injEq]
  constructor
  · rintro ⟨host, _, ⟨hhost, rfl⟩, device, _, ⟨hdevice, rfl⟩, build, _, ⟨hbuild, rfl⟩,
      test, _, ⟨htest, rfl⟩, rfl⟩ c
    simp only [Bindings.get?_erase, Bindings.get?_ofList, reduceCtorEq, if_false]
      at hhost hdevice hbuild htest
    rw [get?_foldl_entries]
    simp only [Bindings.get?_erase, Bindings.get?_ofList]
    cases c with
    | hostCompiler => rw [hhost]; rfl
    | deviceCompiler => rw [hdevice]; rfl
    | buildType => rw [hbuild]; rfl
    | testType => rw [htest]; rfl
    | _ => exact Option.or_none
  · intro h
    have hview (c : Category) : (Bindings.ofList ps).get? c = r.get? c :=
      (Bindings.get?_ofList ps c).trans (h c).symm
    refine ⟨r.hostCompiler, _, ⟨hview _, rfl⟩, r.deviceCompiler, _, ⟨?device, rfl⟩,
      r.buildType, _, ⟨?build, rfl⟩, r.testType, _, ⟨?test, rfl⟩, ext_get? fun c => ?record⟩
    case record =>
      rw [get?_foldl_entries]
      simp only [Bindings.get?_erase, hview]
      cases c with
      | hostCompiler | deviceCompiler | buildType | testType => rfl
      | _ => exact Option.or_none
    all_goals
      simp only [Bindings.get?_erase, hview, reduceCtorEq, if_false]
      rfl

/-- The first required category that a list leaves out is reported. -/
theorem failureOf?_ofParameters (ps : List (Category × Parameter)) :
    failureOf? (ofParameters ps)
      = (Category.required.find? fun c => (ps.reverse.lookup c).isNone).map .missingCategory := by
  simp only [ofParameters, failureOf?_take_bind, Bindings.get?_erase, Bindings.get?_ofList,
    reduceCtorEq, if_false, Category.required, List.find?_cons]
  cases ps.reverse.lookup Category.hostCompiler with
  | none => rfl
  | some host =>
    cases ps.reverse.lookup Category.deviceCompiler with
    | none => rfl
    | some device =>
      cases ps.reverse.lookup Category.buildType with
      | none => rfl
      | some build => cases ps.reverse.lookup Category.testType <;> rfl

/-! ## The parameters of a record -/

/-- The parameters are those of all categories in order. -/
theorem parameters_eq (r : Record) :
    r.parameters = Category.all.filterMap fun c => (r.get? c).map fun p => (c, p) := by
  rw [parameters, Category.all, List.filterMap_append, List.filterMap_map]
  rfl

theorem mem_parameters_iff {r : Record} {c : Category} {p : Parameter} :
    (c, p) ∈ r.parameters ↔ r.get? c = some p := by
  simp only [parameters_eq, List.mem_filterMap, Option.map_eq_some_iff, Prod.mk.injEq]
  constructor
  · rintro ⟨_, -, p, hp, rfl, rfl⟩
    exact hp
  · intro hp
    exact ⟨c, c.mem_all, p, hp, rfl, rfl⟩

/-- The parameters are listed in the order of `Category.all`. -/
theorem pairwise_parameters_of {R : Category → Category → Prop} (hall : Category.all.Pairwise R)
    (r : Record) : r.parameters.Pairwise fun a b => R a.1 b.1 := by
  rw [parameters_eq]
  refine List.pairwise_filterMap.2 (hall.imp fun hcd q hq q' hq' => ?_)
  obtain ⟨p, -, rfl⟩ := Option.map_eq_some_iff.1 hq
  obtain ⟨p', -, rfl⟩ := Option.map_eq_some_iff.1 hq'
  exact hcd

/-- No category is listed twice. -/
theorem pairwise_parameters (r : Record) : r.parameters.Pairwise fun a b => a.1 ≠ b.1 :=
  pairwise_parameters_of (by decide) r

/-! ## Records and mappings -/

theorem parameterOf_eq_ok_iff {entry : String × Parameter} {q : Category × Parameter} :
    parameterOf entry = .ok q ↔ entry = (q.1.key, q.2) := by
  obtain ⟨k, p⟩ := entry
  obtain ⟨c, p'⟩ := q
  rw [parameterOf]
  cases h : Category.ofKey? k with
  | none =>
    have hk := Category.ofKey?_eq_none_iff.1 h c
    simp [hk.symm]
  | some d =>
    obtain rfl := Category.ofKey?_eq_some_iff.1 h
    simp [Category.key_injective.eq_iff]

theorem failureOf?_parameterOf (entry : String × Parameter) :
    failureOf? (parameterOf entry)
      = if (Category.ofKey? entry.1).isNone then some (.unknownCategory entry.1) else none := by
  rw [parameterOf]
  cases Category.ofKey? entry.1 <;> rfl

/-- Categories are bound as their keys are. -/
theorem lookup_eq_of_forall₂ {es : List (String × Parameter)} {ps : List (Category × Parameter)}
    (h : List.Forall₂ (fun entry q => parameterOf entry = .ok q) es ps) (c : Category) :
    ps.lookup c = es.lookup c.key := by
  induction h with
  | nil => rfl
  | cons hq _ ih =>
    rw [parameterOf_eq_ok_iff] at hq
    rw [Bindings.lookup_cons_eq, Bindings.lookup_cons_eq, ih, hq]
    simp only [Category.key_injective.eq_iff]

/-- The parameters read off a mapping bind a category to what its key is bound to. -/
theorem lookup_of_mapM {b : Bindings Parameter} {ps : List (Category × Parameter)}
    (h : b.entries.mapM parameterOf = .ok ps) (c : Category) :
    ps.reverse.lookup c = b.get? c.key := by
  have hreverse := List.forall₂_reverse_iff.2 (mapM_eq_ok_iff.1 h)
  rw [lookup_eq_of_forall₂ hreverse c, Bindings.lookup_reverse_entries]

/-- A name of a mapping that is the key of no category. -/
def UnknownKey (b : Bindings Parameter) (k : String) : Prop :=
  k ∈ b.names ∧ ∀ c : Category, c.key ≠ k

/-- The entries of a mapping are parameters when all names in it are keys. -/
theorem exists_mapM_iff (b : Bindings Parameter) :
    (∃ ps, b.entries.mapM parameterOf = .ok ps) ↔ ¬∃ k, UnknownKey b k := by
  simp only [UnknownKey, not_exists, not_and]
  rw [← failureOf?_eq_none_iff, failureOf?_mapM, List.findSome?_eq_none_iff, Bindings.names,
    List.forall_mem_map]
  refine forall₂_congr fun entry _ => ?_
  rw [failureOf?_parameterOf, ← Category.ofKey?_eq_none_iff]
  cases Category.ofKey? entry.1 <;> simp

/-- **The mapping of a record** binds the keys of its categories and nothing else. -/
theorem get?_toBindings (r : Record) (k : String) :
    r.toBindings.get? k = (Category.ofKey? k).bind r.get? := by
  have hmem (p : Parameter) : (k, p) ∈ r.parameters.map (fun (c, p) => (c.key, p)) ↔
      (Category.ofKey? k).bind r.get? = some p := by
    simp only [List.mem_map, Prod.exists, mem_parameters_iff, Prod.mk.injEq,
      Option.bind_eq_some_iff, Category.ofKey?_eq_some_iff]
    constructor
    · rintro ⟨c, p, hp, rfl, rfl⟩
      exact ⟨c, rfl, hp⟩
    · rintro ⟨c, rfl, hp⟩
      exact ⟨c, p, hp, rfl, rfl⟩
  have hkeys : (r.parameters.map fun (c, p) => (c.key, p)).Pairwise fun a b => a.1 ≠ b.1 :=
    List.pairwise_map.2 ((pairwise_parameters r).imp Category.key_injective.ne)
  ext p
  rw [toBindings, Bindings.get?_ofList_eq_some_iff hkeys, hmem]

/-- **Reading and writing a record** are inverse to each other. -/
theorem ofBindings_eq_ok_iff {b : Bindings Parameter} {r : Record} :
    ofBindings b = .ok r ↔ r.toBindings = b := by
  rw [ofBindings, bind_eq_ok_iff]
  constructor
  · rintro ⟨ps, hps, hr⟩
    rw [ofParameters_eq_ok_iff] at hr
    refine Bindings.ext_get? fun k => ?_
    rw [get?_toBindings]
    cases h : Category.ofKey? k with
    | some c =>
      obtain rfl := Category.ofKey?_eq_some_iff.1 h
      exact (hr c).trans (lookup_of_mapM hps c)
    | none =>
      -- a name that is no key would have been refused
      have hk : k ∉ b.names := fun hmem =>
        (exists_mapM_iff b).1 ⟨ps, hps⟩ ⟨k, hmem, Category.ofKey?_eq_none_iff.1 h⟩
      cases hget : b.get? k with
      | none => rfl
      | some p => exact absurd (Bindings.mem_names_iff.2 ⟨p, hget⟩) hk
  · rintro rfl
    have hkeys : ¬∃ k, UnknownKey r.toBindings k := by
      rintro ⟨k, hk, hno⟩
      obtain ⟨p, hp⟩ := Bindings.mem_names_iff.1 hk
      rw [get?_toBindings, Option.bind_eq_some_iff] at hp
      obtain ⟨c, hc, -⟩ := hp
      exact hno c (Category.ofKey?_eq_some_iff.1 hc)
    obtain ⟨ps, hps⟩ := (exists_mapM_iff _).2 hkeys
    refine ⟨ps, hps, ofParameters_eq_ok_iff.2 fun c => ?_⟩
    rw [lookup_of_mapM hps, get?_toBindings, Category.ofKey?_eq_some_iff.2 rfl, Option.bind_some]

/-! ## What is refused -/

theorem failureOf?_entries (b : Bindings Parameter) :
    failureOf? (b.entries.mapM parameterOf)
      = (b.names.find? fun k => (Category.ofKey? k).isNone).map .unknownCategory := by
  rw [failureOf?_mapM, Bindings.names]
  induction b.entries with
  | nil => rfl
  | cons entry es ih =>
    rw [List.findSome?_cons, List.map_cons, List.find?_cons, failureOf?_parameterOf, ih]
    cases (Category.ofKey? entry.1).isNone <;> rfl

/-- **The least unknown key** is the one that is reported. -/
theorem ofBindings_of_unknownKey {b : Bindings Parameter} (h : ∃ k, UnknownKey b k) :
    ∃ k, UnknownKey b k ∧ (∀ k', UnknownKey b k' → k ≤ k') ∧
      ofBindings b = .error (.unknownCategory k) := by
  have hunknown (k : String) : (Category.ofKey? k).isNone = true ↔ ∀ c : Category, c.key ≠ k := by
    rw [Option.isNone_iff_eq_none, Category.ofKey?_eq_none_iff]
  have hfound : (b.names.find? fun k => (Category.ofKey? k).isNone).isSome := by
    obtain ⟨k, hk, hno⟩ := h
    exact List.find?_isSome.2 ⟨k, hk, (hunknown k).2 hno⟩
  obtain ⟨k, hk⟩ := Option.isSome_iff_exists.1 hfound
  obtain ⟨hno, before, after, hnames, hbefore⟩ := List.find?_eq_some_iff_append.1 hk
  refine ⟨k, ⟨List.mem_of_find?_eq_some hk, (hunknown k).1 hno⟩, ?_, ?_⟩
  · rintro k' ⟨hk', hno'⟩
    -- names increase, and those before `k` are keys
    have hsorted : b.names.Pairwise (· < ·) := List.pairwise_map.2 b.sorted
    rw [hnames] at hk' hsorted
    rcases List.mem_append.1 hk' with hk' | hk'
    · have hfalse := hbefore k' hk'
      rw [(hunknown k').2 hno'] at hfalse
      cases hfalse
    · rcases List.mem_cons.1 hk' with rfl | hk'
      · exact String.le_refl _
      · exact Std.le_of_lt
          ((List.pairwise_cons.1 (List.pairwise_append.1 hsorted).2.1).1 k' hk')
  · have hfailure := failureOf?_entries b
    rw [hk, Option.map_some, failureOf?_eq_some_iff] at hfailure
    rw [ofBindings, hfailure]
    rfl

/-- **The first missing category** is reported when all names are keys. -/
theorem ofBindings_of_missing {b : Bindings Parameter} (h : ¬∃ k, UnknownKey b k) {c : Category}
    (hc : Category.required.find? (fun c => c.key ∉ b.names) = some c) :
    ofBindings b = .error (.missingCategory c) := by
  obtain ⟨ps, hps⟩ := (exists_mapM_iff b).2 h
  have habsent : (fun c => (ps.reverse.lookup c).isNone) = fun c : Category =>
      decide (c.key ∉ b.names) := by
    funext c
    rw [lookup_of_mapM hps, Bool.eq_iff_iff, decide_eq_true_iff, Option.isNone_iff_eq_none,
      Bindings.mem_names_iff, ← Option.ne_none_iff_exists', not_not]
  have hfailure := failureOf?_ofParameters ps
  rw [habsent, hc, Option.map_some, failureOf?_eq_some_iff] at hfailure
  rw [ofBindings, hps]
  exact hfailure

theorem exists_ofBindings_iff (b : Bindings Parameter) :
    (∃ r, ofBindings b = .ok r) ↔
      (¬∃ k, UnknownKey b k) ∧ ∀ c ∈ Category.required, c.key ∈ b.names := by
  constructor
  · rintro ⟨r, hr⟩
    have hread := hr
    rw [ofBindings, bind_eq_ok_iff] at hread
    obtain ⟨ps, hps, -⟩ := hread
    refine ⟨(exists_mapM_iff b).1 ⟨ps, hps⟩, fun c hc => ?_⟩
    by_contra habsent
    have hsome : (Category.required.find? fun c => decide (c.key ∉ b.names)).isSome :=
      List.find?_isSome.2 ⟨c, hc, decide_eq_true habsent⟩
    obtain ⟨d, hd⟩ := Option.isSome_iff_exists.1 hsome
    rw [ofBindings_of_missing ((exists_mapM_iff b).1 ⟨ps, hps⟩) hd] at hr
    cases hr
  · rintro ⟨hkeys, hrequired⟩
    obtain ⟨ps, hps⟩ := (exists_mapM_iff b).2 hkeys
    have hnone : failureOf? (ofParameters ps) = none := by
      rw [failureOf?_ofParameters, Option.map_eq_none_iff, List.find?_eq_none]
      intro c hc
      obtain ⟨p, hp⟩ := Bindings.mem_names_iff.1 (hrequired c hc)
      rw [lookup_of_mapM hps, hp]
      exact Bool.false_ne_true
    obtain ⟨r, hr⟩ := failureOf?_eq_none_iff.1 hnone
    exact ⟨r, by rw [ofBindings, hps]; exact hr⟩

/-- The keys that every mapping of a record has, in the order in which a missing one is reported. -/
def requiredKeys : List (String × Category) :=
  [("host_compiler", .hostCompiler), ("device_compiler", .deviceCompiler),
    ("build_type", .buildType), ("test_type", .testType)]

theorem requiredKeys_eq : requiredKeys = Category.required.map fun c => (c.key, c) := rfl

/-- **Records and their mappings correspond.**  A mapping is that of a record exactly if its names are
keys and the four keys that every record has are among them, and then the record has this mapping.
Otherwise the least name that is no key is reported, or else the first key that is missing.  Every
record is read back from its mapping. -/
theorem records_are_their_bindings (b : Bindings Parameter) :
    ((∃ r, ofBindings b = .ok r) ↔
        (∀ k ∈ b.names, ∃ c : Category, c.key = k) ∧ ∀ e ∈ requiredKeys, e.1 ∈ b.names) ∧
      (∀ r, ofBindings b = .ok r → r.toBindings = b) ∧
      ((∃ k, UnknownKey b k) →
        ∃ k, UnknownKey b k ∧ (∀ k', UnknownKey b k' → Text.bytes k ≤ Text.bytes k') ∧
          ofBindings b = .error (.unknownCategory k)) ∧
      ((¬∃ k, UnknownKey b k) →
        ∀ k c, requiredKeys.find? (fun e => e.1 ∉ b.names) = some (k, c) →
          ofBindings b = .error (.missingCategory c)) ∧
      ∀ r : Record, ofBindings r.toBindings = .ok r := by
  refine ⟨?_, fun r => ofBindings_eq_ok_iff.1, fun h => ?_, fun h k c hfound => ?_,
    fun r => ofBindings_eq_ok_iff.2 rfl⟩
  · rw [exists_ofBindings_iff, requiredKeys_eq, List.forall_mem_map]
    simp only [UnknownKey, not_exists, not_and, not_forall, not_not]
  · obtain ⟨k, hk, hleast, herror⟩ := ofBindings_of_unknownKey h
    exact ⟨k, hk, fun k' hk' => Text.le_iff_bytes_le.1 (hleast k' hk'), herror⟩
  · rw [requiredKeys_eq, List.find?_map, Option.map_eq_some_iff] at hfound
    obtain ⟨_, hfound, ⟨⟩⟩ := hfound
    exact ofBindings_of_missing h hfound

end Record

end JobMatrix
