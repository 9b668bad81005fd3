import JobMatrix.Files.Path
import JobMatrix.Proofs.Files.Tree
import Mathlib.Data.List.TakeWhile

/-!
# The file next to a path

`Path.temporarySibling` names a file in the directory of a path.  `exists_siblingParts` compares the
parts of the two: they share those of the directory; then the path goes on with its name, if it
has one, and with parts that stay there, and the sibling with a name of its own.
-/

set_option autoImplicit false

namespace JobMatrix.Path

open FileTree (IsName)

/-! ## Dividing at slashes -/

theorem parts_ofList_append (cs ds : List Char) :
    parts (String.ofList (cs ++ '/' :: ds)) = parts (String.ofList cs) ++ parts (String.ofList ds) := by
  rw [parts, parts, parts, String.toList_ofList, String.toList_ofList, String.toList_ofList,
    List.splitOn_append_cons_self, List.map_append]

theorem parts_of_not_mem {cs : List Char} (h : '/' ∉ cs) :
    parts (String.ofList cs) = [String.ofList cs] := by
  rw [parts, String.toList_ofList, List.splitOn_eq_singleton h, List.map_singleton]

/-- What is dropped from a reversed path: parts that stay where they are. -/
theorem exists_dropped (rs : List Char) :
    ∃ segments : List (List Char), (∀ s ∈ segments, s = [] ∨ s = ['.']) ∧
      rs.reverse = (withoutTrail.drop rs).reverse ++ segments.flatMap ('/' :: ·) := by
  have hsnoc : ∀ {segments : List (List Char)} {s : List Char}, s = [] ∨ s = ['.'] →
      (∀ s ∈ segments, s = [] ∨ s = ['.']) → ∀ x ∈ segments ++ [s], x = [] ∨ x = ['.'] := by
    intro segments s hs hsegments x hx
    rcases List.mem_append.1 hx with hx | hx
    · exact hsegments x hx
    · exact List.mem_singleton.1 hx ▸ hs
  induction hlength : rs.length using Nat.strongRecOn generalizing rs with
  | ind n ih =>
    rw [withoutTrail.drop.eq_def]
    split
    · rename_i rest
      obtain ⟨segments, hs, heq⟩ := ih rest.length (by simp [← hlength]) rest rfl
      refine ⟨segments ++ [[]], hsnoc (.inl rfl) hs, ?_⟩
      rw [List.reverse_cons, heq]
      simp
    · rename_i rest
      have hshorter : rest.length < n := by
        rw [← hlength, List.length_cons, List.length_cons]
        omega
      obtain ⟨segments, hs, heq⟩ := ih rest.length hshorter rest rfl
      refine ⟨segments ++ [['.']], hsnoc (.inr rfl) hs, ?_⟩
      rw [withoutTrail.drop, List.reverse_cons, List.reverse_cons, heq]
      simp
    · exact ⟨[], by simp, by simp⟩

/-- What `withoutTrail` cuts off: parts that stay where they are. -/
theorem exists_trail (cs : List Char) :
    ∃ segments : List (List Char), (∀ s ∈ segments, s = [] ∨ s = ['.']) ∧
      cs = withoutTrail cs ++ segments.flatMap ('/' :: ·) := by
  obtain ⟨segments, hs, heq⟩ := exists_dropped cs.reverse
  exact ⟨segments, hs, by rw [withoutTrail, ← heq, List.reverse_reverse]⟩

/-! ## The parts of a path and of its sibling -/

theorem parts_trail {segments : List (List Char)} (hs : ∀ s ∈ segments, s = [] ∨ s = ['.']) :
    ∀ cs : List Char, parts (String.ofList (cs ++ segments.flatMap ('/' :: ·)))
      = parts (String.ofList cs) ++ segments.map String.ofList := by
  induction segments with
  | nil => simp
  | cons s segments ih =>
    intro cs
    have hslash : '/' ∉ s := by
      rcases hs s List.mem_cons_self with rfl | rfl <;> decide
    rw [List.flatMap_cons, List.cons_append, parts_ofList_append,
      ih (fun x hx => hs x (List.mem_cons_of_mem _ hx)), parts_of_not_mem hslash]
    rfl

/-- The parts of a path whose directory `directory` is empty or ends in a slash. -/
theorem exists_parts_directory {directory : List Char}
    (h : directory = [] ∨ directory.getLast? = some '/') :
    ∃ shared, ∀ name : List Char, '/' ∉ name →
      parts (String.ofList (directory ++ name)) = shared ++ [String.ofList name] := by
  rcases h with rfl | h
  · exact ⟨[], fun name hname => parts_of_not_mem hname⟩
  · obtain ⟨above, rfl⟩ := List.getLast?_eq_some_iff.1 h
    refine ⟨parts (String.ofList above), fun name hname => ?_⟩
    rw [List.append_assoc, List.singleton_append, parts_ofList_append, parts_of_not_mem hname]

/-- The name of a path stands behind its directory; only parts that stay there follow. -/
theorem exists_of_split {path directory name : String} (h : split path = (directory, some name)) :
    ∃ (above own : List Char) (segments : List (List Char)),
      directory = String.ofList above ∧ name = String.ofList own ∧
        path.toList = above ++ own ++ segments.flatMap ('/' :: ·) ∧
        (above = [] ∨ above.getLast? = some '/') ∧ '/' ∉ own ∧ IsName name ∧
        ∀ s ∈ segments, s = [] ∨ s = ['.'] := by
  rw [split] at h
  set cs := withoutTrail path.toList with hcs
  set own := (cs.reverse.takeWhile (· != '/')).reverse with hown
  split at h
  · cases h
  · rename_i hproper
    obtain ⟨hdirectory, hname⟩ := Prod.mk.inj h
    obtain ⟨segments, hs, htrail⟩ := exists_trail path.toList
    have hcut : cs = (cs.reverse.dropWhile (· != '/')).reverse ++ own := by
      rw [hown, ← List.reverse_append, List.takeWhile_append_dropWhile, List.reverse_reverse]
    have habove : cs.take (cs.length - own.length) = (cs.reverse.dropWhile (· != '/')).reverse := by
      conv_lhs => rw [hcut]
      simp
    rw [habove] at hdirectory
    refine ⟨_, own, segments, hdirectory.symm, (Option.some.inj hname).symm, ?_, ?_, ?_, ?_, hs⟩
    · rw [← hcut]
      exact htrail
    · cases hrest : cs.reverse.dropWhile (· != '/') with
      | nil => exact .inl rfl
      | cons c rest =>
        have hhead := List.head?_dropWhile_not (· != '/') cs.reverse
        rw [hrest] at hhead
        right
        simpa using hhead
    · rw [hown, List.mem_reverse]
      intro hmem
      simpa using List.mem_takeWhile_imp hmem
    · simp only [not_or] at hproper
      rw [← Option.some.inj hname]
      refine ⟨fun hn => hproper.1 ?_, fun hn => hproper.2.1 ?_, fun hn => hproper.2.2 ?_⟩ <;>
        simpa using congrArg String.toList hn

theorem map_ofList_stays {segments : List (List Char)} (hs : ∀ s ∈ segments, s = [] ∨ s = ['.']) :
    ∀ s ∈ segments.map String.ofList, s = "" ∨ s = "." := by
  intro s hmem
  obtain ⟨x, hx, rfl⟩ := List.mem_map.1 hmem
  rcases hs x hx with rfl | rfl
  · exact .inl rfl
  · exact .inr rfl

/-- The sibling of a path with a name. -/
theorem exists_siblingParts_named {path directory name : String}
    (hsplit : split path = (directory, some name)) :
    ∃ (shared : List String) (own : String) (segments : List String),
      parts path = shared ++ [name] ++ segments ∧
        parts (temporarySibling path) = shared ++ [own] ∧
        isAbsolute (temporarySibling path) = isAbsolute path ∧
        IsName own ∧ IsName name ∧ name ≠ own ∧ ∀ s ∈ segments, s = "" ∨ s = "." := by
  obtain ⟨above, own, segments, rfl, rfl, hpath, habove, hown, hname, hs⟩ := exists_of_split hsplit
  obtain ⟨shared, hshared⟩ := exists_parts_directory habove
  have htmp : '/' ∉ '.' :: (own ++ ['.', 't', 'm', 'p']) := by simp [hown]
  have hsibling : temporarySibling path
      = String.ofList (above ++ '.' :: (own ++ ['.', 't', 'm', 'p'])) := by
    rw [temporarySibling, hsplit, ← String.toList_inj]
    simp
  have hpath' : path = String.ofList (above ++ own ++ segments.flatMap ('/' :: ·)) := by
    rw [← hpath, String.ofList_toList]
  refine ⟨shared, String.ofList ('.' :: (own ++ ['.', 't', 'm', 'p'])), segments.map String.ofList,
    ?_, ?_, ?_, ?_, hname, fun h => ?_, map_ofList_stays hs⟩
  · conv_lhs => rw [hpath', parts_trail hs, hshared own hown]
  · rw [hsibling]
    exact hshared _ htmp
  · rw [hsibling, isAbsolute, isAbsolute, hpath, String.toList_ofList]
    cases above with
    | cons c rest => rfl
    | nil =>
      cases own with
      | nil => exact absurd rfl hname.1
      | cons c rest =>
        have hc : c ≠ '/' := fun h => hown (h ▸ List.mem_cons_self)
        simp [hc]
  · refine ⟨fun h => ?_, fun h => ?_, fun h => ?_⟩ <;>
      simpa using congrArg (List.length ∘ String.toList) h
  · have hlength := congrArg (List.length ∘ String.toList) h
    simp at hlength
    omega

theorem getLast?_of_endsWith {path : String} (h : path.isEmpty || path.endsWith "/") :
    path.toList = [] ∨ path.toList.getLast? = some '/' := by
  rcases Bool.or_eq_true_iff.1 h with h | h
  · exact .inl (by simpa using h)
  · have hsuffix := String.Slice.endsWith_string_iff.1 h
    rw [String.copy_toSlice] at hsuffix
    obtain ⟨above, habove⟩ := hsuffix
    exact .inr (List.getLast?_eq_some_iff.2 ⟨above, habove.symm⟩)

/-- The sibling of a path without a name stands in the directory of the path. -/
theorem exists_siblingParts_unnamed {path directory : String}
    (hsplit : split path = (directory, none)) :
    ∃ shared segments : List String, parts path = shared ++ segments ∧
      parts (temporarySibling path) = shared ++ [".pipeline.yml.tmp"] ∧
      isAbsolute (temporarySibling path) = isAbsolute path ∧ ∀ s ∈ segments, s = "" := by
  have hown : '/' ∉ ".pipeline.yml.tmp".toList := by decide
  have hsibling : temporarySibling path = path
      ++ (if path.isEmpty || path.endsWith "/" then "" else "/") ++ ".pipeline.yml.tmp" := by
    rw [temporarySibling, hsplit]
  by_cases hend : path.isEmpty || path.endsWith "/"
  · -- the path is read as its directory and an empty part
    have hsibling' : temporarySibling path
        = String.ofList (path.toList ++ ".pipeline.yml.tmp".toList) := by
      rw [hsibling, if_pos hend, ← String.toList_inj]
      simp
    obtain ⟨shared, hshared⟩ := exists_parts_directory (getLast?_of_endsWith hend)
    refine ⟨shared, [""], ?_, ?_, ?_, by simp⟩
    · have hempty := hshared [] List.not_mem_nil
      rwa [List.append_nil, String.ofList_toList] at hempty
    · rw [hsibling']
      exact hshared _ hown
    · rw [hsibling', isAbsolute, isAbsolute, String.toList_ofList]
      cases path.toList <;> rfl
  · have hsibling' : temporarySibling path
        = String.ofList (path.toList ++ '/' :: ".pipeline.yml.tmp".toList) := by
      rw [hsibling, if_neg hend, ← String.toList_inj]
      simp
    refine ⟨parts path, [], by simp, ?_, ?_, by simp⟩
    · rw [hsibling', parts_ofList_append, parts_of_not_mem hown, String.ofList_toList,
        String.ofList_toList]
    · rw [hsibling', isAbsolute, isAbsolute, String.toList_ofList]
      cases hchars : path.toList with
      | nil => simp [String.toList_eq_nil_iff.1 hchars] at hend
      | cons c rest => rfl

/-- **The parts of the sibling.**  Up to its own name they are those of the path up to the name of
that; behind the name of the path stand only parts that stay there. -/
theorem exists_siblingParts (path : String) :
    ∃ (shared : List String) (own : String) (segments : List String),
      parts path = shared ++ (split path).2.toList ++ segments ∧
        parts (temporarySibling path) = shared ++ [own] ∧
        isAbsolute (temporarySibling path) = isAbsolute path ∧
        IsName own ∧ (∀ name ∈ (split path).2, IsName name ∧ name ≠ own) ∧
        ∀ s ∈ segments, s = "" ∨ s = "." := by
  cases hsplit : split path with
  | mk directory name? =>
    cases name? with
    | some name =>
      obtain ⟨shared, own, segments, hparts, hsibling, habsolute, hown, hname, hne, hs⟩ :=
        exists_siblingParts_named hsplit
      refine ⟨shared, own, segments, hparts, hsibling, habsolute, hown, ?_, hs⟩
      rintro _ ⟨⟩
      exact ⟨hname, hne⟩
    | none =>
      obtain ⟨shared, segments, hparts, hsibling, habsolute, hs⟩ := exists_siblingParts_unnamed hsplit
      exact ⟨shared, _, segments, by simpa using hparts, hsibling, habsolute,
        ⟨by decide, by decide, by decide⟩, by simp, fun s hmem => .inl (hs s hmem)⟩

end JobMatrix.Path

/-! ## Changes at the sibling -/

namespace JobMatrix.FileTree

variable {t t' t'' : FileTree} {cwd : Location} {path : String}

/-- The trees differ at one location, which is no directory in either. -/
structure ChangesFile (l : Location) (t t' : FileTree) : Prop where
  before : t.get? l ≠ some .directory
  after : t'.get? l ≠ some .directory
  elsewhere : ∀ m, m ≠ l → t'.get? m = t.get? m

/-- The trees differ at most at the location of a path. -/
def Touches (cwd : Location) (path : String) (t t' : FileTree) : Prop :=
  t' = t ∨ ∃ l, t.resolve cwd path = .ok l ∧ ChangesFile l t t'

theorem ChangesFile.keeps {l : Location} (h : ChangesFile l t t') : KeepsDirectories t t' := by
  intro m hm
  have hml : m ≠ l := by rintro rfl; exact h.before hm
  rw [h.elsewhere m hml, hm]

theorem resolve_keeps {l : Location} (hkeeps : KeepsDirectories t t')
    (h : t.resolve cwd path = .ok l) : t'.resolve cwd path = .ok l := by
  rw [resolve_eq, bind_eq_ok_iff] at h ⊢
  obtain ⟨u, hcheck, h⟩ := h
  exact ⟨u, hcheck, resolveFrom_keeps hkeeps h⟩

theorem Touches.keeps (h : Touches cwd path t t') : KeepsDirectories t t' := by
  obtain rfl | ⟨l, -, h⟩ := h
  · exact .refl _
  · exact h.keeps

theorem Touches.trans (h : Touches cwd path t t') (h' : Touches cwd path t' t'') :
    Touches cwd path t t'' := by
  obtain rfl | ⟨l, hl, hchange⟩ := h
  · exact h'
  obtain rfl | ⟨m, hm, hchange'⟩ := h'
  · exact .inr ⟨l, hl, hchange⟩
  · rw [resolve_keeps hchange.keeps hl] at hm
    cases hm
    exact .inr ⟨l, hl, hchange.before, hchange'.after, fun m hm => by
      rw [hchange'.elsewhere m hm, hchange.elsewhere m hm]⟩

/-- Only what the path names is touched. -/
theorem Touches.get?_eq (h : Touches cwd path t t') {l : Location}
    (hl : t.resolve cwd path ≠ .ok l) : t'.get? l = t.get? l := by
  obtain rfl | ⟨m, hm, hchange⟩ := h
  · rfl
  · exact hchange.elsewhere l (by rintro rfl; exact hl hm)

/-- Where the sibling is: in the directory at which the path stands before its name. -/
theorem exists_directory_of_sibling {l : Location}
    (h : t.resolve cwd (Path.temporarySibling path) = .ok l) :
    ∃ (here : Location) (own : String) (segments : List String),
      t.get? here = some .directory ∧ l = here ++ [own] ∧
        (∀ name ∈ (Path.split path).2, IsName name ∧ name ≠ own) ∧
        (∀ s ∈ segments, s = "" ∨ s = ".") ∧
        ∀ t', KeepsDirectories t t' → t'.resolve cwd path
          = checkPath path >>= fun _ =>
              t'.resolveFrom here ((Path.split path).2.toList ++ segments) := by
  obtain ⟨shared, own, segments, hparts, hsibling, habsolute, hown, hname, hs⟩ :=
    Path.exists_siblingParts path
  have hstart : start cwd (Path.temporarySibling path) = start cwd path := by
    rw [start, start, habsolute]
  rw [resolve_eq, bind_eq_ok_iff] at h
  obtain ⟨-, -, h⟩ := h
  rw [hsibling, hstart, resolveFrom_append, bind_eq_ok_iff] at h
  obtain ⟨here, hhere, h⟩ := h
  rw [resolveFrom_cons, bind_eq_ok_iff] at h
  obtain ⟨_, henter, hnil⟩ := h
  cases hnil
  refine ⟨here, own, segments, isDirectory_of_enter henter, enter_name hown henter, hname, hs,
    fun t' hkeeps => ?_⟩
  rw [resolve_eq, hparts, List.append_assoc, resolveFrom_append, resolveFrom_keeps hkeeps hhere]
  rfl

/-- **The sibling is another file.**  What is done at the sibling of a path does not show at the
path. -/
theorem entryAt_of_touches (h : Touches cwd (Path.temporarySibling path) t t') :
    t'.entryAt cwd path = t.entryAt cwd path := by
  obtain rfl | ⟨l, hl, hchange⟩ := h
  · rfl
  obtain ⟨here, own, segments, hdirectory, hlocation, hname, hs, hresolve⟩ :=
    exists_directory_of_sibling hl
  have hgetHere : t'.get? here = t.get? here := by
    rw [hdirectory, hchange.keeps here hdirectory]
  -- behind the shared parts, the path stands at `here` or at its name there
  have hrest : (t'.resolveFrom here ((Path.split path).2.toList ++ segments)).map t'.get?
      = (t.resolveFrom here ((Path.split path).2.toList ++ segments)).map t.get? := by
    have hstay : ∀ m, t'.get? m = t.get? m →
        (t'.resolveFrom m segments).map t'.get? = (t.resolveFrom m segments).map t.get? := by
      intro m hm
      rw [resolveFrom_stay_congr hs hm]
      cases hseg : t.resolveFrom m segments with
      | error e => rfl
      | ok found => rw [resolveFrom_stay hs hseg, Except.map, Except.map, hm]
    cases hsplit : (Path.split path).2 with
    | none => exact hstay here hgetHere
    | some name =>
      obtain ⟨hisName, hne⟩ := hname name hsplit
      rw [Option.toList_some, List.singleton_append, resolveFrom_cons, resolveFrom_cons,
        enter_of_isDirectory name hdirectory (hchange.keeps here hdirectory)]
      cases henter' : t.enter here name with
      | error e => rfl
      | ok next =>
        have hnext := enter_name hisName henter'
        refine hstay next (hchange.elsewhere next ?_)
        rw [hnext, hlocation]
        simpa using hne
  rw [entryAt, entryAt, hresolve t (.refl t), hresolve t' hchange.keeps]
  cases checkPath path with
  | error e => rfl
  | ok _ => exact hrest

end JobMatrix.FileTree
