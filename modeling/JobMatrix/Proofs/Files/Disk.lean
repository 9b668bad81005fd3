import JobMatrix.Files.Tree
import JobMatrix.Gitlab.Output
import JobMatrix.Proofs.Files.Sibling

/-!
# Files on a disk that may fail

`FileTree.access` carries out every operation that its path allows.  A `Disk` may also refuse: each
operation has a number, and a `Fault` at that number makes it fail.  A write that fails may leave
anything in its file; the other operations fail without effect.  Two runs with the same faults see
the same outcome of each operation.

* `replaceFile_eq` follows the operations of `Gitlab.replaceFile`; `readText_of_replaceFile` and
  `touches_of_replaceFile` say what a success and a failure leave behind.
* `save_of_render` reduces `Gitlab.save` to that.
-/

set_option autoImplicit false

namespace JobMatrix

theorem stateM_bind {σ α β : Type} (x : StateM σ α) (f : α → StateM σ β) (s : σ) :
    (x >>= f) s = f (x s).1 (x s).2 := rfl

/-- Why an operation fails although its path allows it. -/
structure Fault where
  error : FileError
  /-- What is left in a file that was being written, if the file was opened. -/
  left? : Option (Option String) := none

/-- The faults of the operations to come, by number. -/
abbrev Faults := Nat → Option Fault

/-- Files, and the number of the next operation. -/
structure Disk where
  tree : FileTree
  clock : Nat := 0

namespace FileTree

/-- The tree after a write that failed halfway. -/
def abandon (t : FileTree) (cwd : Location) (path : String) (fault : Fault) : FileTree :=
  match fault.left? with
  | none => t
  | some text? =>
    match t.target cwd path with
    | .ok (.name l) => if t.get? l = some .directory then t else t.insert l (.file text?)
    | _ => t

end FileTree

namespace Disk

/-- An operation, or its fault and what that does to the tree. -/
def perform {α : Type} (faults : Faults) (failed : Fault → FileTree → FileTree)
    (operation : StateM FileTree (Except FileError α)) : StateM Disk (Except FileError α) :=
  fun d =>
    match faults d.clock with
    | some fault => (.error fault.error, ⟨failed fault d.tree, d.clock + 1⟩)
    | none =>
      let (result, tree) := operation.run d.tree
      (result, ⟨tree, d.clock + 1⟩)

/-- The operations from a working directory. -/
def access (faults : Faults) (cwd : Location) : FileAccess (StateM Disk) :=
  let sound := FileTree.access cwd
  { readText := fun path => perform faults (fun _ t => t) (sound.readText path)
    writeText := fun path text =>
      perform faults (fun fault t => t.abandon cwd path fault) (sound.writeText path text)
    rename := fun source path => perform faults (fun _ t => t) (sound.rename source path)
    remove := fun path => perform faults (fun _ t => t) (sound.remove path) }

/-- A host with a disk that keeps no events. -/
def host (faults : Faults) (cwd : Location) : Host (StateM Disk) where
  files := access faults cwd
  report _ := pure ()

end Disk

/-! ## The operations on a tree -/

namespace FileTree

variable {t t' : FileTree} {cwd : Location} {path source text : String}

theorem touches_insert {l : Location} (htarget : t.target cwd path = .ok (.name l))
    (hl : t.get? l ≠ some .directory) (text? : Option String) :
    Touches cwd path t (t.insert l (.file text?)) := by
  obtain ⟨hresolve, _, name, here, -, -, -, -, hname⟩ := resolve_of_target htarget
  have hne : l ≠ [] := by rw [hname]; simp
  refine .inr ⟨l, hresolve, hl, ?_, fun m hm => get?_insert_of_ne _ hm _⟩
  rw [get?_insert_self _ hne]
  simp

theorem writeText_eq_ok_iff :
    t.writeText cwd path text = .ok t' ↔
      ∃ l, t.target cwd path = .ok (.name l) ∧ t.get? l ≠ some .directory ∧
        t' = t.insert l (.file (some text)) := by
  simp only [writeText, bind_eq_ok_iff]
  constructor
  · rintro ⟨target, htarget, h⟩
    cases target with
    | slashed l => cases h
    | nameless => cases h
    | name l =>
      dsimp only at h
      split at h
      · cases h
      · rename_i hl
        exact ⟨l, htarget, hl, (Except.ok.inj h).symm⟩
  · rintro ⟨l, htarget, hl, rfl⟩
    exact ⟨_, htarget, if_neg hl⟩

theorem rename_eq_ok_iff :
    t.rename cwd source path = .ok t' ↔
      ∃ l goal text?, t.resolve cwd source = .ok l ∧ t.target cwd path = .ok (.name goal) ∧
        t.get? l = some (.file text?) ∧ t.get? goal ≠ some .directory ∧
        t' = (t.erase l).insert goal (.file text?) := by
  simp only [rename, bind_eq_ok_iff]
  constructor
  · rintro ⟨l, hl, target, htarget, h⟩
    cases target with
    | slashed l => cases h
    | nameless => cases h
    | name goal =>
      dsimp only at h
      split at h
      · cases h
      · cases h
      · rename_i entry hne hentry
        split at h
        · cases h
        · rename_i hgoal
          cases entry with
          | directory => exact absurd rfl hne
          | file text? =>
            exact ⟨l, goal, text?, hl, htarget, hentry, hgoal, (Except.ok.inj h).symm⟩
  · rintro ⟨l, goal, text?, hl, htarget, hentry, hgoal, rfl⟩
    refine ⟨l, hl, _, htarget, ?_⟩
    dsimp only
    rw [hentry]
    exact if_neg hgoal

theorem touches_writeText (h : t.writeText cwd path text = .ok t') : Touches cwd path t t' := by
  obtain ⟨l, htarget, hl, rfl⟩ := writeText_eq_ok_iff.1 h
  exact touches_insert htarget hl _

theorem touches_abandon (t : FileTree) (cwd : Location) (path : String) (fault : Fault) :
    Touches cwd path t (t.abandon cwd path fault) := by
  rw [abandon]
  split
  · exact .inl rfl
  · split
    · rename_i htarget
      split
      · exact .inl rfl
      · rename_i hl
        exact touches_insert htarget hl _
    · exact .inl rfl

theorem touches_remove (h : t.remove cwd path = .ok t') : Touches cwd path t t' := by
  simp only [remove, bind_eq_ok_iff] at h
  obtain ⟨l, hl, h⟩ := h
  split at h
  · cases h
  · cases h
  · rename_i text? hentry
    have hfile : t.get? l ≠ some .directory := by rw [hentry]; simp
    have hne : l ≠ [] := by
      rintro rfl
      exact hfile rfl
    rw [← Except.ok.inj h]
    refine .inr ⟨l, hl, hfile, ?_, fun m hm => get?_erase_of_ne _ hm⟩
    rw [get?_erase_self _ hne]
    simp

/-- A file that was written and moved is what its new path holds. -/
theorem readText_of_rename {t₁ t₂ : FileTree} (hwrite : t.writeText cwd source text = .ok t₁)
    (hrename : t₁.rename cwd source path = .ok t₂) : t₂.readText cwd path = .ok text := by
  have hkeeps := (touches_writeText hwrite).keeps
  obtain ⟨l, hl, -, rfl⟩ := writeText_eq_ok_iff.1 hwrite
  obtain ⟨hresolve, _, _, _, -, -, -, -, hname⟩ := resolve_of_target hl
  obtain ⟨m, goal, text?, hm, hgoal, hentry, hfree, rfl⟩ := rename_eq_ok_iff.1 hrename
  rw [resolve_keeps hkeeps hresolve] at hm
  cases hm
  have hne : l ≠ [] := by rw [hname]; simp
  rw [get?_insert_self _ hne] at hentry
  cases hentry
  obtain ⟨hgoalResolve, _, _, _, -, -, -, -, hgoalName⟩ := resolve_of_target hgoal
  have hgoalNe : goal ≠ [] := by rw [hgoalName]; simp
  set t₁ := t.insert l (.file (some text)) with ht₁
  have hkeeps₂ : KeepsDirectories t₁ ((t₁.erase l).insert goal (.file (some text))) := by
    refine (keepsDirectories_erase t₁ ?_).trans (keepsDirectories_insert _ ?_ _)
    · rw [ht₁, get?_insert_self _ hne]
      simp
    · by_cases hgl : goal = l
      · rw [hgl, get?_erase_self _ hne]
        simp
      · rw [get?_erase_of_ne _ hgl]
        exact hfree
  rw [readText, resolve_keeps hkeeps₂ hgoalResolve]
  dsimp only [bind, Except.bind]
  rw [get?_insert_self _ hgoalNe]

end FileTree

/-! ## Operations that may fail -/

namespace Disk

section Perform

variable {faults : Faults} {failed : Fault → FileTree → FileTree}
  {operation : FileTree → Except FileError FileTree} {d d' : Disk}

theorem perform_changing :
    perform faults failed (FileTree.changing operation) d =
      match faults d.clock, operation d.tree with
      | some fault, _ => (.error fault.error, ⟨failed fault d.tree, d.clock + 1⟩)
      | none, .ok t => (.ok (), ⟨t, d.clock + 1⟩)
      | none, .error e => (.error e, ⟨d.tree, d.clock + 1⟩) := by
  rw [perform]
  change (match faults d.clock with
    | some fault => _
    | none => (((FileTree.changing operation d.tree).1, _) : Except FileError Unit × Disk)) = _
  cases faults d.clock with
  | some fault => rfl
  | none =>
    rw [FileTree.changing]
    cases operation d.tree <;> rfl

theorem perform_changing_eq_ok_iff :
    perform faults failed (FileTree.changing operation) d = (.ok (), d') ↔
      faults d.clock = none ∧ ∃ t, operation d.tree = .ok t ∧ d' = ⟨t, d.clock + 1⟩ := by
  rw [perform_changing]
  cases faults d.clock with
  | some fault => exact ⟨fun h => (nomatch h), fun h => (nomatch h.1)⟩
  | none =>
    cases operation d.tree with
    | error e => exact ⟨fun h => (nomatch h), fun ⟨_, _, h, _⟩ => (nomatch h)⟩
    | ok t =>
      refine ⟨fun h => ⟨rfl, t, rfl, (Prod.mk.inj h).2.symm⟩, ?_⟩
      rintro ⟨-, _, ⟨⟩, rfl⟩
      rfl

/-- An operation that fails without effect leaves the tree alone. -/
theorem perform_changing_error {e : FileError} (hfailed : ∀ fault, failed fault d.tree = d.tree)
    (h : perform faults failed (FileTree.changing operation) d = (.error e, d')) :
    d'.tree = d.tree := by
  rw [perform_changing] at h
  split at h
  · rw [← (Prod.mk.inj h).2]
    exact hfailed _
  · cases h
  · rw [← (Prod.mk.inj h).2]

/-- The tree afterwards is the one before, or the one after a fault, or the one the operation
gives. -/
theorem perform_changing_tree {P : FileTree → Prop} (hsame : P d.tree)
    (hfailed : ∀ fault, P (failed fault d.tree)) (hdone : ∀ t, operation d.tree = .ok t → P t) :
    P (perform faults failed (FileTree.changing operation) d).2.tree := by
  rw [perform_changing]
  split
  · exact hfailed _
  · rename_i ht
    exact hdone _ ht
  · exact hsame

end Perform

theorem writeText_eq (faults : Faults) (cwd : Location) (path text : String) :
    (access faults cwd).writeText path text
      = perform faults (fun fault t => t.abandon cwd path fault)
          (FileTree.changing fun t => t.writeText cwd path text) := rfl

theorem rename_eq (faults : Faults) (cwd : Location) (source path : String) :
    (access faults cwd).rename source path
      = perform faults (fun _ t => t) (FileTree.changing fun t => t.rename cwd source path) := rfl

theorem remove_eq (faults : Faults) (cwd : Location) (path : String) :
    (access faults cwd).remove path
      = perform faults (fun _ t => t) (FileTree.changing fun t => t.remove cwd path) := rfl

/-! ## Replacing a file -/

open JobMatrix.Path (temporarySibling)

variable {faults : Faults} {cwd : Location} {path text : String} {d d' : Disk}

theorem replaceFile_eq (files : FileAccess (StateM Disk)) (path text : String) (d : Disk) :
    Gitlab.replaceFile files path text d =
      match files.writeText (temporarySibling path) text d with
      | (.error e, d₁) => (.error e, (files.remove (temporarySibling path) d₁).2)
      | (.ok (), d₁) =>
        match files.rename (temporarySibling path) path d₁ with
        | (.error e, d₂) => (.error e, (files.remove (temporarySibling path) d₂).2)
        | (.ok (), d₂) => (.ok (), d₂) := by
  rw [Gitlab.replaceFile, stateM_bind]
  rcases files.writeText (temporarySibling path) text d with ⟨_ | _, d₁⟩
  · rfl
  · dsimp only
    rw [stateM_bind]
    rcases files.rename (temporarySibling path) path d₁ with ⟨_ | _, d₂⟩ <;> rfl

/-- **A file is replaced** when neither the write nor the move fails. -/
theorem replaceFile_eq_ok_iff {files : FileAccess (StateM Disk)} :
    Gitlab.replaceFile files path text d = (.ok (), d') ↔
      ∃ d₁, files.writeText (temporarySibling path) text d = (.ok (), d₁) ∧
        files.rename (temporarySibling path) path d₁ = (.ok (), d') := by
  rw [replaceFile_eq]
  constructor
  · intro h
    split at h
    · cases h
    · rename_i d₁ hwrite
      split at h
      · cases h
      · rename_i d₂ hrename
        cases h
        exact ⟨d₁, hwrite, hrename⟩
  · rintro ⟨d₁, hwrite, hrename⟩
    rw [hwrite]
    dsimp only
    rw [hrename]

/-- A file that was replaced holds the text. -/
theorem readText_of_replaceFile
    (h : Gitlab.replaceFile (access faults cwd) path text d = (.ok (), d')) :
    d'.tree.readText cwd path = .ok text := by
  obtain ⟨d₁, hwrite, hrename⟩ := replaceFile_eq_ok_iff.1 h
  rw [writeText_eq] at hwrite
  rw [rename_eq] at hrename
  obtain ⟨-, t₁, ht₁, rfl⟩ := perform_changing_eq_ok_iff.1 hwrite
  obtain ⟨-, t₂, ht₂, rfl⟩ := perform_changing_eq_ok_iff.1 hrename
  exact FileTree.readText_of_rename ht₁ ht₂

/-- **A file that is not replaced** is left alone; all that happens, happens to its sibling. -/
theorem touches_of_replaceFile {e : FileError}
    (h : Gitlab.replaceFile (access faults cwd) path text d = (.error e, d')) :
    FileTree.Touches cwd (temporarySibling path) d.tree d'.tree := by
  have hremove : ∀ d : Disk, FileTree.Touches cwd (temporarySibling path) d.tree
      ((access faults cwd).remove (temporarySibling path) d).2.tree := by
    intro d
    rw [remove_eq]
    exact perform_changing_tree (.inl rfl) (fun _ => .inl rfl) fun _ => FileTree.touches_remove
  rw [replaceFile_eq] at h
  split at h
  · rename_i d₁ hwrite
    have hd₁ : d₁ = ((access faults cwd).writeText (temporarySibling path) text d).2 := by
      rw [hwrite]
    have htouches : FileTree.Touches cwd (temporarySibling path) d.tree d₁.tree := by
      rw [hd₁, writeText_eq]
      exact perform_changing_tree (.inl rfl) (FileTree.touches_abandon _ _ _) fun _ =>
        FileTree.touches_writeText
    rw [← (Prod.mk.inj h).2]
    exact htouches.trans (hremove d₁)
  · rename_i d₁ hwrite
    rw [writeText_eq] at hwrite
    obtain ⟨-, t₁, ht₁, rfl⟩ := perform_changing_eq_ok_iff.1 hwrite
    split at h
    · rename_i d₂ hrename
      rw [rename_eq] at hrename
      have htree : d₂.tree = t₁ := perform_changing_error (fun _ => rfl) hrename
      rw [← (Prod.mk.inj h).2]
      exact (FileTree.touches_writeText ht₁).trans (htree ▸ hremove d₂)
    · cases h

/-! ## Saving a pipeline -/

/-- A pipeline that has a text is saved by replacing its file. -/
theorem save_of_render {p : Pipeline} (hrender : Gitlab.render p = .ok text) :
    Gitlab.save (host faults cwd) p path d =
      match Gitlab.replaceFile (access faults cwd) path text d with
      | (.error problem, d') => (.error (.output path problem), d')
      | (.ok (), d') => (.ok (), d') := by
  have hfiles : (host faults cwd).files = access faults cwd := rfl
  rw [Gitlab.save, hrender]
  dsimp only
  rw [stateM_bind, hfiles]
  rcases Gitlab.replaceFile (access faults cwd) path text d with ⟨_ | _, d'⟩ <;> rfl

/-- A pipeline without a text is not saved. -/
theorem save_of_render_error {p : Pipeline} {e : PipelineError}
    (hrender : Gitlab.render p = .error e) :
    Gitlab.save (host faults cwd) p path d = (.error e, d) := by
  rw [Gitlab.save, hrender]
  rfl

end Disk
end JobMatrix
