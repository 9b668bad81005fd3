import JobMatrix.Bindings
import JobMatrix.Job.Error

/-!
# Job records

A `Record` is one point of the build matrix: a parameter for each category it has.  Host compiler,
device compiler, build type and test type are always there.  In files a record is a mapping from
category keys to parameters, and `Record.ofBindings` and `Record.toBindings` go between the two.
-/

set_option autoImplicit false

namespace JobMatrix

/-- The name and version bound to a category. -/
structure Parameter where
  name : String
  version : String
deriving DecidableEq, Repr

namespace Parameter

/-- The version of a disabled backend. -/
def off : String := "off"

def isOff (p : Parameter) : Bool := p.version == off

/-- Name and version, written together. -/
def text (p : Parameter) : String := p.name ++ p.version

end Parameter

structure Record where
  hostCompiler : Parameter
  deviceCompiler : Parameter
  buildType : Parameter
  testType : Parameter
  cmake : Option Parameter := none
  boost : Option Parameter := none
  ubuntu : Option Parameter := none
  cxxStandard : Option Parameter := none
  backends : Backend → Option Parameter := fun _ => none

namespace Record

/-! ## Looking up and changing parameters -/

/-- The parameter of a category. -/
def get? (r : Record) : Category → Option Parameter
  | .hostCompiler => some r.hostCompiler
  | .deviceCompiler => some r.deviceCompiler
  | .buildType => some r.buildType
  | .testType => some r.testType
  | .cmake => r.cmake
  | .boost => r.boost
  | .ubuntu => r.ubuntu
  | .cxxStandard => r.cxxStandard
  | .backend b => r.backends b

/-- The parameter of a category that a rule cannot do without. -/
def require (r : Record) (c : Category) : Except JobError Parameter :=
  match r.get? c with
  | some p => .ok p
  | none => .error (.missingCategory c)

/-- Binds a category, in place of what it was bound to. -/
def set (r : Record) (c : Category) (p : Parameter) : Record :=
  match c with
  | .hostCompiler => { r with hostCompiler := p }
  | .deviceCompiler => { r with deviceCompiler := p }
  | .buildType => { r with buildType := p }
  | .testType => { r with testType := p }
  | .cmake => { r with cmake := some p }
  | .boost => { r with boost := some p }
  | .ubuntu => { r with ubuntu := some p }
  | .cxxStandard => { r with cxxStandard := some p }
  | .backend b => { r with backends := fun x => if x = b then some p else r.backends x }

/-- Removes a category; a required one stays. -/
def erase (r : Record) (c : Category) : Record :=
  match c with
  | .hostCompiler | .deviceCompiler | .buildType | .testType => r
  | .cmake => { r with cmake := none }
  | .boost => { r with boost := none }
  | .ubuntu => { r with ubuntu := none }
  | .cxxStandard => { r with cxxStandard := none }
  | .backend b => { r with backends := fun x => if x = b then none else r.backends x }

/-- Two records are equal when they bind the same categories to the same parameters. -/
theorem ext_get? {r s : Record} (h : ∀ c, r.get? c = s.get? c) : r = s := by
  have host := h .hostCompiler
  have device := h .deviceCompiler
  have build := h .buildType
  have test := h .testType
  have cmake := h .cmake
  have boost := h .boost
  have ubuntu := h .ubuntu
  have cxx := h .cxxStandard
  have backends : r.backends = s.backends := funext fun b => h (.backend b)
  cases r
  cases s
  simp_all [get?]

instance : DecidableEq Record := fun r s =>
  decidable_of_iff (∀ c ∈ Category.all, r.get? c = s.get? c)
    ⟨fun h => ext_get? fun c => h c c.mem_all, fun h _ _ => h ▸ rfl⟩

/-! ## The parameters of a record -/

/-- The parameters of a record: the single categories in order, and the backends behind them. -/
def parameters (r : Record) : List (Category × Parameter) :=
  [Category.hostCompiler, .deviceCompiler, .cmake, .boost, .ubuntu, .cxxStandard, .buildType,
    .testType].filterMap (fun c => (r.get? c).map fun p => (c, p))
  ++ Backend.all.filterMap fun b => (r.backends b).map fun p => (.backend b, p)

/-- Takes a category that every record has out of a map of parameters. -/
def take (c : Category) (ps : Bindings Parameter Category) :
    Except JobError (Parameter × Bindings Parameter Category) :=
  match ps.get? c with
  | some p => .ok (p, ps.erase c)
  | none => .error (.missingCategory c)

/-- The record with the given parameters, of which later ones replace earlier ones.  It starts with
the parameters that every record has, and the others are set in the order of their categories. -/
def ofParameters (ps : List (Category × Parameter)) : Except JobError Record := do
  let (hostCompiler, ps) ← take .hostCompiler (.ofList ps)
  let (deviceCompiler, ps) ← take .deviceCompiler ps
  let (buildType, ps) ← take .buildType ps
  let (testType, ps) ← take .testType ps
  let start : Record := { hostCompiler, deviceCompiler, buildType, testType }
  .ok (ps.entries.foldl (fun r (c, p) => r.set c p) start)

/-! ## The record as a mapping -/

/-- The category of an entry of a mapping. -/
def parameterOf (entry : String × Parameter) : Except JobError (Category × Parameter) :=
  match Category.ofKey? entry.1 with
  | some c => .ok (c, entry.2)
  | none => .error (.unknownCategory entry.1)

/-- Reads a record off a mapping.  The least unknown key is reported before a missing category. -/
def ofBindings (b : Bindings Parameter) : Except JobError Record := do
  ofParameters (← b.entries.mapM parameterOf)

/-- The mapping of a record. -/
def toBindings (r : Record) : Bindings Parameter :=
  .ofList (r.parameters.map fun (c, p) => (c.key, p))

/-! ## Questions -/

/-- The version of a backend that is there and not off. -/
def enabled? (r : Record) (b : Backend) : Option String :=
  ((r.backends b).filter fun p => !p.isOff).map (·.version)

/-- The tests are compiled and not run. -/
def isCompileOnly (r : Record) : Bool := r.testType.version == "compile_only"

/-- The tests are compiled and run. -/
def runsTests (r : Record) : Bool := r.testType.version == "runtime"

end Record

end JobMatrix
