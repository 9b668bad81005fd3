import JobMatrix.Files.Tree
import JobMatrix.Proofs.Log

/-!
# What operations leave as it was

The entries of a `FileTree` are seen through `FileTree.get?`: `insert` and `erase` change it at one
location.  No operation turns a directory into something else (`KeepsDirectories`), and a path
that leads over directories therefore leads to the same location afterwards (`resolveFrom_keeps`).
-/

set_option autoImplicit false

namespace JobMatrix.FileTree

variable {t t' : FileTree} {l m : Location}

/-! ## Looking up -/

theorem get?_of_ne_nil (t : FileTree) (hl : l ≠ []) : t.get? l = t.entries.lookup l := by
  rw [get?, if_neg hl]

theorem lookup_erase_self (t : FileTree) (l : Location) : (t.erase l).entries.lookup l = none := by
  rw [List.lookup_eq_none_iff]
  intro e he
  have hne : e.1 ≠ l := by simpa using (List.mem_filter.1 he).2
  simpa using fun h => hne h.symm

theorem lookup_erase_of_ne (t : FileTree) (h : m ≠ l) :
    (t.erase l).entries.lookup m = t.entries.lookup m := by
  rw [erase]
  induction t.entries with
  | nil => rfl
  | cons e es ih =>
    rw [List.filter_cons]
    split
    · rw [List.lookup_cons, List.lookup_cons, ih]
    · rename_i hel
      have hel : e.1 = l := by simpa using hel
      have hme : (m == e.1) = false := by rw [hel]; exact beq_eq_false_iff_ne.2 h
      rw [List.lookup_cons, hme, ih]

@[simp] theorem get?_erase_self (t : FileTree) (hl : l ≠ []) : (t.erase l).get? l = none := by
  rw [get?_of_ne_nil _ hl, lookup_erase_self]

theorem get?_erase_of_ne (t : FileTree) (h : m ≠ l) : (t.erase l).get? m = t.get? m := by
  rw [get?, get?, lookup_erase_of_ne t h]

theorem get?_insert_self (t : FileTree) (hl : l ≠ []) (e : FileEntry) :
    (t.insert l e).get? l = some e := by
  rw [get?_of_ne_nil _ hl, insert, List.lookup_append, lookup_erase_self]
  simp

theorem get?_insert_of_ne (t : FileTree) (h : m ≠ l) (e : FileEntry) :
    (t.insert l e).get? m = t.get? m := by
  have hml : (m == l) = false := beq_eq_false_iff_ne.2 h
  rw [get?, get?, insert, List.lookup_append, lookup_erase_of_ne t h, List.lookup_cons, hml]
  simp

/-! ## Directories stay -/

/-- Every directory of `t` is one of `t'`. -/
def KeepsDirectories (t t' : FileTree) : Prop :=
  ∀ l, t.get? l = some .directory → t'.get? l = some .directory

theorem KeepsDirectories.refl (t : FileTree) : KeepsDirectories t t := fun _ h => h

theorem KeepsDirectories.trans {t'' : FileTree} (h : KeepsDirectories t t')
    (h' : KeepsDirectories t' t'') : KeepsDirectories t t'' := fun l hl => h' l (h l hl)

/-- Putting a file where no directory is keeps the directories. -/
theorem keepsDirectories_insert (t : FileTree) (h : t.get? l ≠ some .directory) (e : FileEntry) :
    KeepsDirectories t (t.insert l e) := by
  intro m hm
  have hml : m ≠ l := by rintro rfl; exact h hm
  rw [get?_insert_of_ne _ hml, hm]

/-- Removing what is no directory keeps the directories. -/
theorem keepsDirectories_erase (t : FileTree) (h : t.get? l ≠ some .directory) :
    KeepsDirectories t (t.erase l) := by
  intro m hm
  have hml : m ≠ l := by rintro rfl; exact h hm
  rw [get?_erase_of_ne _ hml, hm]

/-! ## Resolving paths -/

/-- The location that parts of a path lead to. -/
def resolveFrom (t : FileTree) (here : Location) (parts : List String) :
    Except FileError Location :=
  parts.foldlM t.enter here

theorem resolveFrom_cons (t : FileTree) (here : Location) (part : String) (parts : List String) :
    t.resolveFrom here (part :: parts) = t.enter here part >>= (t.resolveFrom · parts) := rfl

theorem resolveFrom_append (t : FileTree) (here : Location) (ps qs : List String) :
    t.resolveFrom here (ps ++ qs) = t.resolveFrom here ps >>= (t.resolveFrom · qs) :=
  List.foldlM_append ..

/-- Only from a directory one goes anywhere. -/
theorem isDirectory_of_enter {here : Location} {part : String}
    (h : t.enter here part = .ok l) : t.get? here = some .directory := by
  rw [enter] at h
  split at h
  · cases h
  · cases h
  · assumption

theorem enter_of_isDirectory {here : Location} (part : String)
    (h : t.get? here = some .directory) (h' : t'.get? here = some .directory) :
    t'.enter here part = t.enter here part := by
  rw [enter, enter, h, h']

/-- **Resolution is stable.**  Where directories are kept, parts that led somewhere lead to the
same location. -/
theorem resolveFrom_keeps (hkeeps : KeepsDirectories t t') {parts : List String} :
    ∀ {here : Location}, t.resolveFrom here parts = .ok l → t'.resolveFrom here parts = .ok l := by
  induction parts with
  | nil => intro here h; exact h
  | cons part parts ih =>
    intro here h
    rw [resolveFrom_cons, bind_eq_ok_iff] at h
    obtain ⟨next, hnext, hrest⟩ := h
    have hhere := isDirectory_of_enter hnext
    rw [resolveFrom_cons, enter_of_isDirectory part hhere (hkeeps _ hhere), hnext]
    exact ih hrest

/-- A name that is no way to stay or to go up. -/
def IsName (part : String) : Prop := part ≠ "" ∧ part ≠ "." ∧ part ≠ ".."

theorem enter_name {here : Location} {part : String} (hpart : IsName part)
    (h : t.enter here part = .ok l) : l = here ++ [part] := by
  obtain ⟨hempty, hdot, hup⟩ := hpart
  rw [enter, isDirectory_of_enter h] at h
  simp only [hempty, hdot, hup, or_self, if_false] at h
  split at h
  · cases h
  · exact (Except.ok.inj h).symm

theorem enter_stay {here : Location} {part : String} (hpart : part = "" ∨ part = ".")
    (h : t.enter here part = .ok l) : l = here := by
  rw [enter, isDirectory_of_enter h] at h
  simp only [hpart, if_true, Except.ok.injEq] at h
  exact h.symm

/-- Parts that stay where they are lead nowhere else. -/
theorem resolveFrom_stay {segments : List String} (hs : ∀ s ∈ segments, s = "" ∨ s = ".")
    (h : t.resolveFrom l segments = .ok m) : m = l := by
  induction segments with
  | nil => exact (Except.ok.inj h).symm
  | cons s segments ih =>
    rw [resolveFrom_cons, bind_eq_ok_iff] at h
    obtain ⟨next, hnext, h⟩ := h
    rw [enter_stay (hs s List.mem_cons_self) hnext] at h
    exact ih (fun x hx => hs x (List.mem_cons_of_mem _ hx)) h

/-- What they lead to depends on that one place only. -/
theorem resolveFrom_stay_congr {segments : List String} (hs : ∀ s ∈ segments, s = "" ∨ s = ".")
    (hget : t'.get? l = t.get? l) : t'.resolveFrom l segments = t.resolveFrom l segments := by
  induction segments with
  | nil => rfl
  | cons s segments ih =>
    have henter : t'.enter l s = t.enter l s := by rw [enter, enter, hget]
    rw [resolveFrom_cons, resolveFrom_cons, henter]
    cases h : t.enter l s with
    | error e => rfl
    | ok next =>
      rw [enter_stay (hs s List.mem_cons_self) h]
      exact ih fun x hx => hs x (List.mem_cons_of_mem _ hx)

/-! ## What a path leads to -/

/-- The location where resolving a path starts. -/
def start (cwd : Location) (path : String) : Location := if Path.isAbsolute path then [] else cwd

theorem resolve_eq (t : FileTree) (cwd : Location) (path : String) :
    t.resolve cwd path = checkPath path >>= fun _ => t.resolveFrom (start cwd path)
      (Path.parts path) := rfl

/-- What stands at the end of a path. -/
def entryAt (t : FileTree) (cwd : Location) (path : String) :
    Except FileError (Option FileEntry) :=
  (t.resolve cwd path).map t.get?

/-- The goal of a path that a file can be put at: the location it resolves to, which is a name in a
directory. -/
theorem resolve_of_target {cwd : Location} {path : String}
    (h : t.target cwd path = .ok (.name l)) :
    t.resolve cwd path = .ok l ∧ ∃ parts name here, Path.parts path = parts ++ [name] ∧
      IsName name ∧ t.resolveFrom (start cwd path) parts = .ok here ∧
      t.get? here = some .directory ∧ l = here ++ [name] := by
  simp only [target, bind_eq_ok_iff] at h
  obtain ⟨_, hcheck, found, hfound, h⟩ := h
  set trimmed := ((Path.parts path).reverse.dropWhile (·.isEmpty)).reverse with htrimmed
  cases hlast : trimmed.getLast? with
  | none => rw [hlast] at h; cases h
  | some name =>
    obtain ⟨parts, hparts⟩ := List.getLast?_eq_some_iff.1 hlast
    have hproper : name ≠ "." ∧ name ≠ ".." := by
      constructor <;> rintro rfl <;> rw [hlast] at h <;> cases h
    have hnonempty : name ≠ "" := by
      rintro rfl
      have hhead : ((Path.parts path).reverse.dropWhile (·.isEmpty)).head? = some "" := by
        rw [← List.getLast?_reverse, ← htrimmed, hlast]
      have := List.head?_dropWhile_not (·.isEmpty) (Path.parts path).reverse
      rw [hhead] at this
      cases this
    have hlength : ¬trimmed.length < (Path.parts path).length ∧ found = l := by
      rw [hlast] at h
      by_cases hlt : trimmed.length < (Path.parts path).length
      · simp only [hlt, if_true] at h
        split at h <;> simp_all
      · refine ⟨hlt, ?_⟩
        simp only [hlt, if_false] at h
        split at h <;> simp_all
    obtain ⟨hlength, rfl⟩ := hlength
    have hall : trimmed = Path.parts path := by
      have hsuffix : trimmed <+: Path.parts path := by
        rw [htrimmed, ← List.reverse_suffix, List.reverse_reverse]
        exact List.dropWhile_suffix _
      exact hsuffix.eq_of_length_le (by omega)
    rw [hall] at hparts
    change t.resolveFrom (start cwd path) trimmed = _ at hfound
    rw [hall] at hfound
    refine ⟨by rw [resolve_eq, hcheck]; exact hfound, parts, name, ?_⟩
    rw [hparts, resolveFrom_append, bind_eq_ok_iff] at hfound
    obtain ⟨here, hhere, hname⟩ := hfound
    rw [resolveFrom_cons, bind_eq_ok_iff] at hname
    obtain ⟨_, henter, hnil⟩ := hname
    cases hnil
    have hisName : IsName name := ⟨hnonempty, hproper⟩
    exact ⟨here, hparts, hisName, hhere, isDirectory_of_enter henter, enter_name hisName henter⟩

end JobMatrix.FileTree
