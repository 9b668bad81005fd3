import JobMatrix.Log
import JobMatrix.Text.Blank

/-!
# Log filters

A filter is a text with directives between commas.  A directive gives a level, a target, or both
as `target=level`; behind the target it may name a span and fields in brackets.  Of the directives
that fit an event the most specific one decides, and of equally specific ones the last.
-/

set_option autoImplicit false

namespace JobMatrix

/-- How much is logged: zero for nothing, else the rank of a level. -/
abbrev Verbosity := Nat

/-- Reads a level, by its number or by its name in any case. -/
def Verbosity.ofText? (cs : List Char) : Option Verbosity :=
  let digits := match cs with
    | '+' :: rest => rest
    | cs => cs
  let number := if digits.isEmpty || !digits.all Char.isDigit then none
    else (String.ofList digits).toNat?
  match number with
  | some n => if n ≤ 5 then some n else none
  | none =>
    [("off", 0), ("error", 1), ("warn", 2), ("info", 3), ("debug", 4), ("trace", 5)].lookup
      (String.ofList (cs.map Char.toLower))

/-- Why a text is no directive. -/
inductive DirectiveError
  | level
  | other
deriving DecidableEq, Repr

def DirectiveError.message : DirectiveError → String
  | level =>
    "error parsing level filter: expected one of \"off\", \"error\", \"warn\", \"info\", "
      ++ "\"debug\", \"trace\", or a number 0-5"
  | other => "invalid filter directive"

structure Directive where
  verbosity : Verbosity := Level.trace.rank
  target : Option String := none
  /-- It is about the inside of a span. -/
  inSpan : Bool := false
  /-- The fields an event has to have. -/
  fields : List String := []
  /-- It asks for the value of a field. -/
  asksValue : Bool := false
deriving DecidableEq, Repr

namespace Directive

/-! ## Reading directives -/

/-- What is being read, and where it starts. -/
inductive Stage
  | start
  | word (since : Nat)
  | span (since : Nat)
  | field (since : Nat)
  | fields
  | target
  | level (since : Nat)

/-- The characters a directive may start with, apart from `[`. -/
def startsWord (c : Char) : Bool :=
  c.isAlphanum || c == '-' || c == ':' || c == '_' || 0x80 ≤ c.toNat

/-- Adds a field, with a value behind `=` or without. -/
def addField (d : Directive) (field : List Char) : Option Directive :=
  if field.isEmpty then none
  else
    some { d with
      fields := d.fields ++ [String.ofList (field.takeWhile (· != '='))]
      asksValue := d.asksValue || field.contains '=' }

/-- Reads the character at place `i`.  `piece` cuts a piece out of the text between two places. -/
def step (piece : Nat → Nat → List Char) (d : Directive) (i : Nat) (c : Char) :
    Stage → Option (Directive × Stage)
  | .start =>
    if c = '[' then some (d, .span (i + 1))
    else if startsWord c then some (d, .word i)
    else none
  | .word a =>
    let target := some (String.ofList (piece a i))
    if c = '=' then some ({ d with target }, .level (i + 1))
    else if c = '[' then some ({ d with target }, .span (i + 1))
    else some (d, .word a)
  | .span a =>
    if c = ']' then some ({ d with inSpan := true }, .target)
    else if c = '\x7b' then some ({ d with inSpan := !(piece a i).isEmpty }, .field (i + 1))
    else some (d, .span a)
  | .field a =>
    if c = '\x7d' then (d.addField (piece a i)).map fun d => (d, .fields)
    else some (d, .field a)
  | .fields => if c = ']' then some (d, .target) else none
  | .target => if c = '=' then some (d, .level (i + 1)) else none
  | .level a => some (d, .level a)

/-- Reads the characters from place `i` on. -/
def steps (piece : Nat → Nat → List Char) :
    Directive → Stage → Nat → List Char → Option (Directive × Stage)
  | d, stage, _, [] => some (d, stage)
  | d, stage, i, c :: cs => (step piece d i c stage).bind fun (d, stage) =>
      steps piece d stage (i + 1) cs

/-- Reads a directive.  Blanks at its ends are passed over as characters, but places count from
the first character that is no blank and pieces are cut from the whole text. -/
def parse (s : String) : Except DirectiveError Directive :=
  let cs := s.toList
  let piece (a b : Nat) : List Char := (cs.drop a).take (b - a)
  match steps piece {} .start 0 (Text.trim cs) with
  | some (d, .word a) =>
    match Verbosity.ofText? (cs.drop a) with
    | some verbosity => .ok { d with verbosity, target := none }
    | none => .ok { d with target := some (String.ofList (cs.drop a)) }
  | some (d, .level a) =>
    if (cs.drop a).isEmpty then .ok d
    else
      match Verbosity.ofText? (cs.drop a) with
      | some verbosity => .ok { d with verbosity }
      | none => .error .level
  | some (d, .target) => .ok d
  | _ => .error .other

/-! ## Deciding on events -/

/-- It is about events and not about spans or values. -/
def isStatic (d : Directive) : Bool := !d.inSpan && !d.asksValue

/-- It is about spans or fields. -/
def isDynamic (d : Directive) : Bool := d.inSpan || !d.fields.isEmpty

def fits (d : Directive) (e : LogEvent) : Bool :=
  d.target.all (fun target => e.origin.target.startsWith target)
    && d.fields.all fun field => field == "message" || e.fields.any (·.1 == field)

/-- The length of the target, if there is one, and the number of fields. -/
def specificity (d : Directive) : Nat × Nat :=
  ((d.target.map fun target => target.utf8ByteSize + 1).getD 0, d.fields.length)

/-- `d` is at least as specific as `other`. -/
def outranks (d other : Directive) : Bool :=
  let (a, b) := (d.specificity, other.specificity)
  b.1 < a.1 || (a.1 == b.1 && (b.2 < a.2 || (a.2 == b.2 && !(d.fields < other.fields : Bool))))

end Directive

/-- A log filter. -/
structure LogFilter where
  directives : List Directive

namespace LogFilter

/-- Without any directive only errors are logged. -/
def ofDirectives (ds : List Directive) : LogFilter :=
  if ds.any fun d => d.isStatic || d.isDynamic then ⟨ds⟩
  else ⟨[{ verbosity := Level.error.rank }]⟩

/-- The parts of a filter between the commas. -/
def pieces (s : String) : List String := (s.toList.splitOn ',').map String.ofList

/-- Reads a filter all of whose directives are valid. -/
def parse? (s : String) : Option LogFilter :=
  if s.isEmpty then some (ofDirectives [])
  else ((pieces s).mapM fun p => (Directive.parse p).toOption).map ofDirectives

/-- Reads a filter and passes over directives that are not valid.  Gives a warning for each. -/
def parseLenient (s : String) : LogFilter × List String :=
  let ps := (pieces s).filter fun p => !p.isEmpty
  let warning (p : String) : Option String :=
    match Directive.parse p with
    | .ok _ => none
    | .error e => some s!"ignoring \x60{p}\x60: {e.message}"
  (ofDirectives (ps.filterMap fun p => (Directive.parse p).toOption), ps.filterMap warning)

/-- The directive that decides on an event. -/
def deciding? (f : LogFilter) (e : LogEvent) : Option Directive :=
  (f.directives.filter fun d => d.isStatic && d.fits e).foldl
    (fun best d =>
      match best with
      | none => some d
      | some b => if d.outranks b then some d else some b)
    none

/-- The event is logged. -/
def admits (f : LogFilter) (e : LogEvent) : Bool :=
  (f.deciding? e).any fun d => e.level.rank ≤ d.verbosity

end LogFilter

end JobMatrix
