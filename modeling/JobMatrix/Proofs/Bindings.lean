import JobMatrix.Bindings
import Mathlib.Data.List.Sort

/-!
# Bindings and what they bind

* A map is what `Bindings.get?` sees of it, and `Bindings.ext_get?` says that nothing else tells two
  maps apart.
* Names that are bound in increasing order are only put behind one another, so a map is what its
  own entries bind: `Bindings.ofList_entries`.
* `Bindings.get?_insert`, `Bindings.get?_erase` and `Bindings.get?_ofList` say what binding and
  removing names does to the view of a map.
-/

set_option autoImplicit false

namespace JobMatrix.Bindings

variable {α κ : Type} [DecidableEq κ]

/-! ## Lists of entries -/

theorem lookup_cons_eq (k : κ) (e : κ × α) (es : List (κ × α)) :
    (e :: es).lookup k = if k = e.1 then some e.2 else es.lookup k := by
  rw [List.lookup_cons]
  by_cases h : k = e.1
  · simp [h]
  · simp [h, beq_eq_false_iff_ne.2 h]

/-- In entries with names of their own, the look-up of a name finds its entry. -/
theorem lookup_eq_some_iff_mem {k : κ} {x : α} :
    ∀ {es : List (κ × α)}, es.Pairwise (fun a b => a.1 ≠ b.1) →
      (es.lookup k = some x ↔ (k, x) ∈ es)
  | [], _ => by simp
  | e :: es, h => by
    obtain ⟨he, hes⟩ := List.pairwise_cons.1 h
    rw [lookup_cons_eq, List.mem_cons]
    split
    · rename_i hk
      constructor
      · intro hx; left; rw [hk, ← Option.some.inj hx]
      · rintro (rfl | hmem)
        · rfl
        · exact absurd hk.symm (he _ hmem)
    · rename_i hk
      rw [lookup_eq_some_iff_mem hes]
      exact ⟨.inr, fun hmem => hmem.resolve_left fun heq => hk (congrArg Prod.fst heq)⟩

/-! ## Looking names up -/

section LookUp

variable [LT κ] [LE κ] [Std.LawfulOrderLT κ]

theorem get?_eq_some_iff {b : Bindings α κ} {k : κ} {x : α} :
    b.get? k = some x ↔ (k, x) ∈ b.entries :=
  lookup_eq_some_iff_mem (b.sorted.imp fun h => Std.ne_of_lt h)

/-- **Bindings are equal** when they bind the same names to the same values. -/
theorem ext_get? [Std.IsLinearOrder κ] {a b : Bindings α κ} (h : ∀ k, a.get? k = b.get? k) :
    a = b := by
  have : Std.Irrefl fun x y : κ × α => x.1 < y.1 := ⟨fun _ => Std.lt_irrefl⟩
  have : Std.Antisymm fun x y : κ × α => x.1 < y.1 :=
    ⟨fun _ _ hxy hyx => absurd hyx (Std.not_lt.2 (Std.le_of_lt hxy))⟩
  refine ext (a.sorted.eq_of_mem_iff b.sorted fun ⟨k, x⟩ => ?_)
  rw [← get?_eq_some_iff, ← get?_eq_some_iff, h]

theorem mem_names_iff {b : Bindings α κ} {k : κ} : k ∈ b.names ↔ ∃ x, b.get? k = some x := by
  simp only [names, List.mem_map, get?_eq_some_iff, Prod.exists, exists_and_right, exists_eq_right]

/-- A name is bound in what is left if its value is left. -/
theorem get?_filter (p : κ → α → Bool) (b : Bindings α κ) (k : κ) :
    (b.filter p).get? k = (b.get? k).filter (p k) := by
  ext x
  rw [get?_eq_some_iff, filter, List.mem_filter, ← get?_eq_some_iff, Option.filter_eq_some_iff]

@[simp] theorem get?_erase (b : Bindings α κ) (name k : κ) :
    (b.erase name).get? k = if k = name then none else b.get? k := by
  rw [erase, get?_filter]
  split
  · rename_i h
    simp [h]
  · rename_i h
    rw [bne_iff_ne.2 h]
    cases b.get? k <;> rfl

end LookUp

/-! ## Binding in order -/

section Insert

variable [LT κ] [LE κ] [Std.IsLinearOrder κ] [Std.LawfulOrderLT κ] [DecidableLT κ]

theorem insertEntry_of_forall_lt {name : κ} {x : α} {es : List (κ × α)}
    (h : ∀ entry ∈ es, entry.1 < name) : insertEntry name x es = es ++ [(name, x)] := by
  induction es with
  | nil => rfl
  | cons e es ih =>
    have he : e.1 < name := h e List.mem_cons_self
    rw [insertEntry, if_neg (Std.not_lt.2 (Std.le_of_lt he)), if_neg (Ne.symm (Std.ne_of_lt he)),
      ih fun entry hentry => h entry (List.mem_cons_of_mem _ hentry), List.cons_append]

theorem entries_insertAll {es : List (κ × α)} (hes : es.Pairwise fun a b => a.1 < b.1) :
    ∀ {b : Bindings α κ}, (∀ e ∈ es, ∀ entry ∈ b.entries, entry.1 < e.1) →
      (b.insertAll es).entries = b.entries ++ es := by
  induction es with
  | nil => exact fun _ => (List.append_nil _).symm
  | cons e es ih =>
    intro b hb
    obtain ⟨hfirst, hes⟩ := List.pairwise_cons.1 hes
    have hinsert : (b.insert e.1 e.2).entries = b.entries ++ [e] :=
      insertEntry_of_forall_lt (hb e List.mem_cons_self)
    have hmore : ∀ e' ∈ es, ∀ entry ∈ (b.insert e.1 e.2).entries, entry.1 < e'.1 := by
      intro e' he' entry hentry
      rw [hinsert, List.mem_append, List.mem_singleton] at hentry
      rcases hentry with hentry | rfl
      · exact hb e' (List.mem_cons_of_mem _ he') entry hentry
      · exact hfirst e' he'
    change ((b.insert e.1 e.2).insertAll es).entries = _
    rw [ih hes hmore, hinsert, List.append_assoc, List.singleton_append]

/-- An entry was there before, or is one of those that were added. -/
theorem mem_entries_insertAll {entry : κ × α} {es : List (κ × α)} :
    ∀ {b : Bindings α κ}, entry ∈ (b.insertAll es).entries → entry ∈ b.entries ∨ entry ∈ es := by
  induction es with
  | nil => exact .inl
  | cons e es ih =>
    intro b h
    rcases ih (b := b.insert e.1 e.2) h with h | h
    · rcases mem_insertEntry h with rfl | h
      · exact .inr List.mem_cons_self
      · exact .inl h
    · exact .inr (List.mem_cons_of_mem _ h)

theorem mem_entries_ofList {entry : κ × α} {es : List (κ × α)}
    (h : entry ∈ (ofList es).entries) : entry ∈ es :=
  (mem_entries_insertAll h).resolve_left List.not_mem_nil

theorem ofList_entries (b : Bindings α κ) : ofList b.entries = b :=
  ext (entries_insertAll b.sorted fun _ _ _ h => (nomatch h))

/-! ## Looking up what was bound -/

omit [LE κ] [Std.IsLinearOrder κ] [Std.LawfulOrderLT κ] in
theorem lookup_insertEntry (name k : κ) (x : α) (es : List (κ × α)) :
    (insertEntry name x es).lookup k = if k = name then some x else es.lookup k := by
  induction es with
  | nil => exact lookup_cons_eq k (name, x) []
  | cons e es ih =>
    rw [insertEntry, lookup_cons_eq]
    split
    · rw [lookup_cons_eq, lookup_cons_eq]
    · split
      · rename_i heq
        rw [lookup_cons_eq, heq]
        by_cases h : k = e.1 <;> simp [h]
      · rename_i hne
        rw [lookup_cons_eq, ih]
        by_cases h : k = e.1
        · rw [if_pos h, if_pos h, if_neg fun hk => hne (hk.symm.trans h)]
        · rw [if_neg h, if_neg h]

omit [LE κ] [Std.IsLinearOrder κ] [Std.LawfulOrderLT κ] [DecidableLT κ] in
@[simp] theorem get?_empty (k : κ) : (empty : Bindings α κ).get? k = none := rfl

@[simp] theorem get?_insert (b : Bindings α κ) (name k : κ) (x : α) :
    (b.insert name x).get? k = if k = name then some x else b.get? k :=
  lookup_insertEntry name k x b.entries

/-- Of several entries with one name the last counts. -/
theorem get?_insertAll (es : List (κ × α)) (k : κ) :
    ∀ b : Bindings α κ, (b.insertAll es).get? k = (es.reverse.lookup k).or (b.get? k) := by
  induction es with
  | nil => exact fun _ => rfl
  | cons e es ih =>
    intro b
    change ((b.insert e.1 e.2).insertAll es).get? k = _
    rw [ih, List.reverse_cons, List.lookup_append, Option.or_assoc, get?_insert, lookup_cons_eq]
    split <;> simp

theorem get?_ofList (es : List (κ × α)) (k : κ) : (ofList es).get? k = es.reverse.lookup k := by
  rw [ofList, get?_insertAll, get?_empty, Option.or_none]

/-- The entries of a map bind each name once, so it does not matter from where they are searched. -/
theorem lookup_reverse_entries (b : Bindings α κ) (k : κ) :
    b.entries.reverse.lookup k = b.get? k := by
  rw [← get?_ofList, ofList_entries]

theorem get?_ofList_eq_some_iff {es : List (κ × α)} (h : es.Pairwise fun a b => a.1 ≠ b.1)
    {k : κ} {x : α} : (ofList es).get? k = some x ↔ (k, x) ∈ es := by
  have hreverse : es.reverse.Pairwise fun a b => a.1 ≠ b.1 :=
    List.pairwise_reverse.2 (h.imp Ne.symm)
  rw [get?_ofList, lookup_eq_some_iff_mem hreverse, List.mem_reverse]

end Insert

end JobMatrix.Bindings
