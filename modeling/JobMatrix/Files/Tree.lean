import JobMatrix.Files.Access
import JobMatrix.Files.Path

/-!
# A model of a file system

A `FileTree` holds directories and regular files by their location, the list of names from the
root.  Paths are resolved from a working directory, part by part: every part but the last has to
be a directory.  There are no links.
-/

set_option autoImplicit false

namespace JobMatrix

/-- The names on the way from the root. -/
abbrev Location := List String

inductive FileEntry
  | directory
  /-- A file with its content, if that is text. -/
  | file (text? : Option String)
deriving DecidableEq, Repr

structure FileTree where
  entries : List (Location × FileEntry)

namespace FileTree

/-- What is at a location; the root is always there. -/
def get? (t : FileTree) (l : Location) : Option FileEntry :=
  if l = [] then some .directory else t.entries.lookup l

def erase (t : FileTree) (l : Location) : FileTree := ⟨t.entries.filter fun e => e.1 ≠ l⟩

def insert (t : FileTree) (l : Location) (e : FileEntry) : FileTree :=
  ⟨(t.erase l).entries ++ [(l, e)]⟩

/-! ## Resolving paths -/

/-- Goes from a location, which has to be a directory, over one part of a path. -/
def enter (t : FileTree) (here : Location) (part : String) : Except FileError Location :=
  match t.get? here with
  | none => .error .notFound
  | some (.file _) => .error .notDirectory
  | some .directory =>
    if part = "" ∨ part = "." then .ok here
    else if part = ".." then .ok here.dropLast
    else if 255 < part.utf8ByteSize then .error .nameTooLong
    else .ok (here ++ [part])

/-- A path that can be asked for. -/
def checkPath (path : String) : Except FileError Unit :=
  if path.toList.contains '\x00' then .error .nulInName
  else if path.isEmpty then .error .notFound
  else if 4096 ≤ path.utf8ByteSize then .error .nameTooLong
  else .ok ()

/-- The location of a path; nothing has to be there. -/
def resolve (t : FileTree) (cwd : Location) (path : String) : Except FileError Location := do
  checkPath path
  (Path.parts path).foldlM t.enter (if Path.isAbsolute path then [] else cwd)

/-- A location that a file can be put at. -/
inductive Target
  | name (l : Location)
  /-- The name has a slash behind it. -/
  | slashed (l : Location)
  /-- The path does not end in a name. -/
  | nameless

/-- The location at the end of a path, with what kind of end it is. -/
def target (t : FileTree) (cwd : Location) (path : String) : Except FileError Target := do
  checkPath path
  let trimmed := ((Path.parts path).reverse.dropWhile (·.isEmpty)).reverse
  let l ← trimmed.foldlM t.enter (if Path.isAbsolute path then [] else cwd)
  match trimmed.getLast? with
  | none | some "." | some ".." => .ok .nameless
  | some _ => .ok (if trimmed.length < (Path.parts path).length then .slashed l else .name l)

/-! ## The operations -/

def readText (t : FileTree) (cwd : Location) (path : String) : Except FileError String := do
  match t.get? (← t.resolve cwd path) with
  | some (.file (some text)) => .ok text
  | some (.file none) => .error .notText
  | some .directory => .error .isDirectory
  | none => .error .notFound

def writeText (t : FileTree) (cwd : Location) (path text : String) : Except FileError FileTree := do
  match ← t.target cwd path with
  | .slashed _ | .nameless => .error .isDirectory
  | .name l =>
    if t.get? l = some .directory then .error .isDirectory
    else .ok (t.insert l (.file (some text)))

def rename (t : FileTree) (cwd : Location) (source path : String) : Except FileError FileTree := do
  let l ← t.resolve cwd source
  match ← t.target cwd path with
  | .nameless => .error .busy
  | .slashed _ => .error .notDirectory
  | .name goal =>
    match t.get? l with
    | none => .error .notFound
    | some .directory => .error .isDirectory
    | some entry =>
      if t.get? goal = some .directory then .error .isDirectory
      else .ok ((t.erase l).insert goal entry)

def remove (t : FileTree) (cwd : Location) (path : String) : Except FileError FileTree := do
  let l ← t.resolve cwd path
  match t.get? l with
  | none => .error .notFound
  | some .directory => .error .isDirectory
  | some (.file _) => .ok (t.erase l)

/-- Carries out an operation that changes the tree if it succeeds. -/
def changing (operation : FileTree → Except FileError FileTree) :
    StateM FileTree (Except FileError Unit) := fun t =>
  match operation t with
  | .ok t => (.ok (), t)
  | .error e => (.error e, t)

/-- The operations on a tree from a working directory. -/
def access (cwd : Location) : FileAccess (StateM FileTree) where
  readText path := do pure ((← get).readText cwd path)
  writeText path text := changing fun t => t.writeText cwd path text
  rename source path := changing fun t => t.rename cwd source path
  remove path := changing fun t => t.remove cwd path

end FileTree

end JobMatrix
