import JobMatrix.Proofs.Files.Disk

/-!
# Saving is atomic

`Gitlab.save` writes a text next to its place and moves it there.  Whatever fails on the way, the
file is replaced as a whole or not at all (`save_atomic`):

* after a success the path holds the text and its sibling is gone (`Replaced`);
* after a failure the path is as it was, and no file is left at the sibling unless the removal fails
  (`Restored`);
* all other places are as they were.

The faults are arbitrary, so that every tree on the way is also the last one of some run: the run in
which all operations from there on fail without effect.
-/

set_option autoImplicit false

namespace JobMatrix

open JobMatrix.Path (temporarySibling)

/-! ## Where the sibling is -/

namespace Path

theorem temporarySibling_ne (path : String) : temporarySibling path ≠ path := by
  intro h
  obtain ⟨shared, own, segments, hparts, hsibling, -, hown, hname, hs⟩ := exists_siblingParts path
  rw [h, hparts, List.append_assoc, List.append_cancel_left_eq] at hsibling
  cases hsplit : (split path).2 with
  | none =>
    rw [hsplit, Option.toList_none, List.nil_append] at hsibling
    rcases hs own (by simp [hsibling]) with rfl | rfl
    · exact hown.1 rfl
    · exact hown.2.1 rfl
  | some name =>
    rw [hsplit, Option.toList_some, List.singleton_append] at hsibling
    exact (hname name hsplit).2 (List.cons.inj hsibling).1

/-- A directory with a name behind it is divided there. -/
theorem split_ofList {above own : List Char} (habove : above = [] ∨ above.getLast? = some '/')
    (hown : '/' ∉ own) (hname : FileTree.IsName (String.ofList own))
    (htrail : withoutTrail (above ++ own) = above ++ own) :
    split (String.ofList (above ++ own)) = (String.ofList above, some (String.ofList own)) := by
  have habove' : above.reverse.takeWhile (· != '/') = [] := by
    rcases habove with rfl | h
    · rfl
    · obtain ⟨front, rfl⟩ := List.getLast?_eq_some_iff.1 h
      simp
  have hown' : ∀ c ∈ own.reverse, (c != '/') = true := by
    intro c hc
    simpa using fun h : c = '/' => hown (h ▸ List.mem_reverse.1 hc)
  have htaken : ((above ++ own).reverse.takeWhile (· != '/')).reverse = own := by
    rw [List.reverse_append, List.takeWhile_append_of_pos hown', habove', List.append_nil,
      List.reverse_reverse]
  have hproper : ¬(own = [] ∨ own = ['.'] ∨ own = ['.', '.']) := by
    rintro (rfl | rfl | rfl)
    · exact hname.1 rfl
    · exact hname.2.1 rfl
    · exact hname.2.2 rfl
  rw [split, String.toList_ofList, htrail, htaken, if_neg hproper]
  simp

/-- The sibling of a named file is in the same directory. -/
theorem split_temporarySibling {path directory name : String}
    (h : split path = (directory, some name)) :
    split (temporarySibling path) = (directory, some ("." ++ name ++ ".tmp")) := by
  obtain ⟨above, own, segments, rfl, rfl, -, habove, hown, -, -⟩ := exists_of_split h
  have hsibling : "." ++ String.ofList own ++ ".tmp"
      = String.ofList ('.' :: own ++ ['.', 't', 'm', 'p']) := by
    rw [← String.toList_inj]
    simp
  have hpath : temporarySibling path
      = String.ofList (above ++ ('.' :: own ++ ['.', 't', 'm', 'p'])) := by
    rw [temporarySibling, h, ← String.toList_inj]
    simp
  rw [hsibling, hpath]
  refine split_ofList habove (by simp [hown]) ?_ ?_
  · refine ⟨fun h => ?_, fun h => ?_, fun h => ?_⟩ <;>
      simpa using congrArg (List.length ∘ String.toList) h
  · -- a path that ends in a letter has no trail
    rw [withoutTrail, ← List.append_assoc, List.reverse_append]
    change (withoutTrail.drop ('p' :: _)).reverse = _
    rw [withoutTrail.drop]
    · simp
    · simp
    · simp

end Path

namespace FileTree

variable {t t' t₁ t₂ : FileTree} {cwd l m : Location} {path source text : String}

/-- The locations of a path and of its sibling are two, in one directory if the path has a name. -/
theorem resolve_temporarySibling (hpath : t.resolve cwd path = .ok l)
    (hsibling : t.resolve cwd (temporarySibling path) = .ok m) :
    m ≠ l ∧ ((Path.split path).2.isSome → m.dropLast = l.dropLast) := by
  obtain ⟨here, own, segments, -, hm, hname, hs, hresolve⟩ := exists_directory_of_sibling hsibling
  rw [hresolve t (.refl t), bind_eq_ok_iff] at hpath
  obtain ⟨-, -, hpath⟩ := hpath
  cases hsplit : (Path.split path).2 with
  | none =>
    rw [hsplit, Option.toList_none, List.nil_append] at hpath
    rw [hm, resolveFrom_stay hs hpath]
    simp
  | some name =>
    obtain ⟨hisName, hne⟩ := hname name hsplit
    rw [hsplit, Option.toList_some, List.singleton_append, resolveFrom_cons, bind_eq_ok_iff] at hpath
    obtain ⟨next, hnext, hpath⟩ := hpath
    rw [hm, resolveFrom_stay hs hpath, enter_name hisName hnext]
    simpa using hne.symm

/-- A path that never leads to the same location as `path`, and stays in the directory of a `path`
with a name. -/
structure Beside (path sibling : String) : Prop where
  ne : sibling ≠ path
  split : ∀ directory name, Path.split path = (directory, some name) →
    ∃ own, Path.split sibling = (directory, some own)
  resolve : ∀ (t : FileTree) (cwd l m : Location), t.resolve cwd path = .ok l →
    t.resolve cwd sibling = .ok m → m ≠ l ∧ ((Path.split path).2.isSome → m.dropLast = l.dropLast)

theorem beside_temporarySibling (path : String) : Beside path (temporarySibling path) where
  ne := Path.temporarySibling_ne path
  split _ _ h := ⟨_, Path.split_temporarySibling h⟩
  resolve _ _ _ _ := resolve_temporarySibling

/-! ## What is left behind -/

/-- The text is at the path, nothing is at its sibling, and everything else is as before. -/
structure Replaced (cwd : Location) (path text : String) (before after : FileTree) : Prop where
  readText : after.readText cwd path = .ok text
  entryAt_sibling : after.entryAt cwd (temporarySibling path) = .ok none
  elsewhere : ∀ l, before.resolve cwd path ≠ .ok l →
    before.resolve cwd (temporarySibling path) ≠ .ok l → after.get? l = before.get? l

/-- The path and everything else are as before, and if `removed`, there is no file at the sibling. -/
structure Restored (cwd : Location) (path : String) (removed : Prop) (before after : FileTree) :
    Prop where
  entryAt_path : after.entryAt cwd path = before.entryAt cwd path
  no_sibling : removed → ∀ text?, after.entryAt cwd (temporarySibling path) ≠ .ok (some (.file text?))
  elsewhere : ∀ l, before.resolve cwd (temporarySibling path) ≠ .ok l → after.get? l = before.get? l

theorem Touches.keeps_back (h : Touches cwd path t t') : KeepsDirectories t' t := by
  obtain rfl | ⟨l, -, hchange⟩ := h
  · exact .refl _
  · intro m hm
    have hml : m ≠ l := by rintro rfl; exact hchange.after hm
    rw [← hchange.elsewhere m hml, hm]

/-- Where only a file is touched, every path leads to where it led. -/
theorem resolve_of_touches (h : Touches cwd source t t') :
    t'.resolve cwd path = .ok l ↔ t.resolve cwd path = .ok l :=
  ⟨resolve_keeps h.keeps_back, resolve_keeps h.keeps⟩

/-- **A text that was written and moved** is at the goal, and what it was written to is gone. -/
theorem replaced_of_rename (hwrite : t.writeText cwd (temporarySibling path) text = .ok t₁)
    (hrename : t₁.rename cwd (temporarySibling path) path = .ok t₂) :
    Replaced cwd path text t t₂ := by
  have htouches := touches_writeText hwrite
  have hread := readText_of_rename hwrite hrename
  obtain ⟨l, goal, text?, hl, htarget, hentry, hgoal, rfl⟩ := rename_eq_ok_iff.1 hrename
  have hpath := (resolve_of_target htarget).1
  have hne : l ≠ goal := (resolve_temporarySibling hpath hl).1
  have hfile : t₁.get? l ≠ some .directory := by rw [hentry]; simp
  have hroot : l ≠ [] := by rintro rfl; exact hfile rfl
  have hgoalErased : (t₁.erase l).get? goal ≠ some .directory := by
    rwa [get?_erase_of_ne _ hne.symm]
  have hkeeps : KeepsDirectories t₁ ((t₁.erase l).insert goal (.file text?)) :=
    (keepsDirectories_erase t₁ hfile).trans (keepsDirectories_insert _ hgoalErased _)
  refine ⟨hread, ?_, fun m hm hm' => ?_⟩
  · rw [entryAt, resolve_keeps hkeeps hl, Except.map, get?_insert_of_ne _ hne,
      get?_erase_self _ hroot]
  · have hml : m ≠ l := by
      rintro rfl
      exact hm' ((resolve_of_touches htouches).1 hl)
    have hmgoal : m ≠ goal := by
      rintro rfl
      exact hm ((resolve_of_touches htouches).1 hpath)
    rw [get?_insert_of_ne _ hmgoal, get?_erase_of_ne _ hml]
    exact htouches.get?_eq hm'

/-- What was removed is gone. -/
theorem entryAt_of_remove (h : t.remove cwd path = .ok t') : t'.entryAt cwd path = .ok none := by
  have hkeeps := (touches_remove h).keeps
  simp only [remove, bind_eq_ok_iff] at h
  obtain ⟨l, hl, h⟩ := h
  rw [entryAt, resolve_keeps hkeeps hl, Except.map]
  split at h
  · cases h
  · cases h
  · rename_i text? hentry
    have hroot : l ≠ [] := by
      rintro rfl
      cases hentry
    rw [← Except.ok.inj h, get?_erase_self _ hroot]

/-- What cannot be removed is no file. -/
theorem entryAt_of_remove_error {e : FileError} (h : t.remove cwd path = .error e)
    (text? : Option String) : t.entryAt cwd path ≠ .ok (some (.file text?)) := by
  intro hentry
  rw [entryAt] at hentry
  cases hl : t.resolve cwd path with
  | error e => simp [hl, Except.map] at hentry
  | ok l =>
    rw [hl, Except.map] at hentry
    have hfile : t.get? l = some (.file text?) := Except.ok.inj hentry
    simp [remove, hl, hfile, bind, Except.bind] at h

end FileTree

namespace Disk

open FileTree (Beside Replaced Restored)

variable {faults : Faults} {cwd : Location} {path text : String} {d d' : Disk}

/-- A removal without a fault leaves no file. -/
theorem entryAt_of_remove (hsound : faults d.clock = none) (text? : Option String) :
    ((access faults cwd).remove path d).2.tree.entryAt cwd path ≠ .ok (some (.file text?)) := by
  rw [remove_eq, perform_changing, hsound]
  cases hremove : d.tree.remove cwd path with
  | ok t =>
    dsimp only
    rw [FileTree.entryAt_of_remove hremove]
    simp
  | error e => exact FileTree.entryAt_of_remove_error hremove text?

/-- Each operation moves the clock on. -/
theorem clock_remove (d : Disk) : ((access faults cwd).remove path d).2.clock = d.clock + 1 := by
  rw [remove_eq, perform_changing]
  split <;> rfl

theorem replaced_of_replaceFile
    (h : Gitlab.replaceFile (access faults cwd) path text d = (.ok (), d')) :
    Replaced cwd path text d.tree d'.tree := by
  obtain ⟨d₁, hwrite, hrename⟩ := replaceFile_eq_ok_iff.1 h
  rw [writeText_eq] at hwrite
  rw [rename_eq] at hrename
  obtain ⟨-, t₁, ht₁, rfl⟩ := perform_changing_eq_ok_iff.1 hwrite
  obtain ⟨-, t₂, ht₂, rfl⟩ := perform_changing_eq_ok_iff.1 hrename
  exact FileTree.replaced_of_rename ht₁ ht₂

/-- The last operation of a run that fails is the removal of what was written. -/
theorem exists_remove_of_replaceFile {e : FileError}
    (h : Gitlab.replaceFile (access faults cwd) path text d = (.error e, d')) :
    ∃ d₁ : Disk, d' = ((access faults cwd).remove (temporarySibling path) d₁).2 := by
  rw [replaceFile_eq] at h
  split at h
  · exact ⟨_, (Prod.mk.inj h).2.symm⟩
  · split at h
    · exact ⟨_, (Prod.mk.inj h).2.symm⟩
    · cases h

theorem restored_of_replaceFile {e : FileError}
    (h : Gitlab.replaceFile (access faults cwd) path text d = (.error e, d')) :
    Restored cwd path (faults (d'.clock - 1) = none) d.tree d'.tree := by
  have htouches := touches_of_replaceFile h
  refine ⟨FileTree.entryAt_of_touches htouches, fun hsound => ?_, fun l => htouches.get?_eq⟩
  obtain ⟨d₁, rfl⟩ := exists_remove_of_replaceFile h
  rw [clock_remove, Nat.add_sub_cancel] at hsound
  exact entryAt_of_remove hsound

/-- **Saving is atomic.**  A pipeline without a text changes nothing.  Otherwise the file is replaced,
or everything is as it was but the sibling, where no file is left if the last operation, which is
its removal, has no fault. -/
theorem save_atomic (faults : Faults) (cwd : Location) (p : Pipeline) (path : String) (d : Disk) :
    Beside path (temporarySibling path) ∧
      match Gitlab.render p with
      | .error e => Gitlab.save (host faults cwd) p path d = (.error e, d)
      | .ok text => ∃ d',
        Gitlab.save (host faults cwd) p path d = (.ok (), d') ∧
            Replaced cwd path text d.tree d'.tree ∨
          ∃ e, Gitlab.save (host faults cwd) p path d = (.error (.output path e), d') ∧
            Restored cwd path (faults (d'.clock - 1) = none) d.tree d'.tree := by
  refine ⟨FileTree.beside_temporarySibling path, ?_⟩
  cases hrender : Gitlab.render p with
  | error e => exact save_of_render_error hrender
  | ok text =>
    dsimp only
    rw [save_of_render hrender]
    obtain ⟨result, d', hreplace⟩ : ∃ result d',
        Gitlab.replaceFile (access faults cwd) path text d = (result, d') := ⟨_, _, rfl⟩
    rw [hreplace]
    cases result with
    | ok _ => exact ⟨d', .inl ⟨rfl, replaced_of_replaceFile hreplace⟩⟩
    | error e => exact ⟨d', .inr ⟨e, rfl, restored_of_replaceFile hreplace⟩⟩

end Disk

end JobMatrix
