/-!
# Names bound to values

`Bindings α κ` is a finite map from `κ` to `α`, kept as the list of its entries in increasing order
of their names, so that equal maps are equal lists.  Names are texts if nothing else is said, and
texts are ordered by code points.
-/

set_option autoImplicit false

namespace JobMatrix

structure Bindings (α : Type) (κ : Type := String) [LT κ] where
  entries : List (κ × α)
  sorted : entries.Pairwise fun a b => a.1 < b.1

namespace Bindings

variable {α κ : Type} [LT κ]

theorem ext {a b : Bindings α κ} (h : a.entries = b.entries) : a = b := by
  cases a; cases b; cases h; rfl

instance [DecidableEq α] [DecidableEq κ] : DecidableEq (Bindings α κ) := fun a b =>
  decidable_of_iff (a.entries = b.entries) ⟨ext, fun h => h ▸ rfl⟩

def empty : Bindings α κ := ⟨[], .nil⟩

instance : Inhabited (Bindings α κ) := ⟨empty⟩

def names (b : Bindings α κ) : List κ := b.entries.map (·.1)

def size (b : Bindings α κ) : Nat := b.entries.length

def isEmpty (b : Bindings α κ) : Bool := b.entries.isEmpty

/-- The value a name is bound to. -/
def get? [DecidableEq κ] (b : Bindings α κ) (name : κ) : Option α := b.entries.lookup name

/-- The entries that satisfy `p`. -/
def filter (p : κ → α → Bool) (b : Bindings α κ) : Bindings α κ :=
  ⟨b.entries.filter fun e => p e.1 e.2, b.sorted.filter _⟩

/-- Removes a name with its value. -/
def erase [DecidableEq κ] (b : Bindings α κ) (name : κ) : Bindings α κ :=
  b.filter fun k _ => k != name

/-! ## Binding a name -/

section Insert

variable [DecidableEq κ] [DecidableLT κ]

/-- Puts an entry at its place in a sorted list, instead of the one with the same name. -/
def insertEntry (name : κ) (x : α) : List (κ × α) → List (κ × α)
  | [] => [(name, x)]
  | entry :: rest =>
    if name < entry.1 then (name, x) :: entry :: rest
    else if name = entry.1 then (name, x) :: rest
    else entry :: insertEntry name x rest

theorem mem_insertEntry {name : κ} {x : α} {entry : κ × α} :
    ∀ {es : List (κ × α)}, entry ∈ insertEntry name x es → entry = (name, x) ∨ entry ∈ es
  | [], h => by simpa [insertEntry] using h
  | e :: es, h => by
    unfold insertEntry at h
    split at h
    · simpa using h
    · split at h
      · rcases List.mem_cons.1 h with h | h
        · exact .inl h
        · exact .inr (List.mem_cons_of_mem _ h)
      · rcases List.mem_cons.1 h with h | h
        · exact .inr (h ▸ List.mem_cons_self)
        · exact (mem_insertEntry h).imp id (List.mem_cons_of_mem _)

variable [LE κ] [Std.IsLinearOrder κ] [Std.LawfulOrderLT κ]

theorem sorted_insertEntry (name : κ) (x : α) :
    ∀ {es : List (κ × α)}, es.Pairwise (fun a b => a.1 < b.1) →
      (insertEntry name x es).Pairwise fun a b => a.1 < b.1
  | [], _ => by simp [insertEntry]
  | e :: es, h => by
    obtain ⟨he, hes⟩ := List.pairwise_cons.1 h
    unfold insertEntry
    split
    · rename_i hlt
      refine List.pairwise_cons.2 ⟨fun b hb => ?_, h⟩
      rcases List.mem_cons.1 hb with rfl | hb
      · exact hlt
      · exact Std.lt_trans hlt (he b hb)
    · split
      · rename_i heq
        exact List.pairwise_cons.2 ⟨fun b hb => heq ▸ he b hb, hes⟩
      · rename_i hnot hne
        refine List.pairwise_cons.2 ⟨fun b hb => ?_, sorted_insertEntry name x hes⟩
        rcases mem_insertEntry hb with rfl | hb
        · exact Std.lt_of_le_of_ne (Std.not_lt.1 hnot) (Ne.symm hne)
        · exact he b hb

/-- Binds a name, in place of what it was bound to. -/
def insert (b : Bindings α κ) (name : κ) (x : α) : Bindings α κ :=
  ⟨insertEntry name x b.entries, sorted_insertEntry name x b.sorted⟩

/-- Binds names one after the other, so the last entry with a name wins. -/
def insertAll (b : Bindings α κ) (entries : List (κ × α)) : Bindings α κ :=
  entries.foldl (fun b e => b.insert e.1 e.2) b

def ofList (entries : List (κ × α)) : Bindings α κ := empty.insertAll entries

end Insert

end Bindings

end JobMatrix
