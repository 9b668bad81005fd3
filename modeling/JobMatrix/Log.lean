/-!
# Log events

What a run reports about itself.  `Traced α` is a value together with the events on the way to it,
in order; `Logged ε α` can also fail with an `ε`, and keeps the events up to the failure.
-/

set_option autoImplicit false

namespace JobMatrix

/-- How severe an event is, from the most severe on. -/
inductive Level
  | error
  | warn
  | info
  | debug
  | trace
deriving DecidableEq, Repr

namespace Level

def name : Level → String
  | error => "ERROR"
  | warn => "WARN"
  | info => "INFO"
  | debug => "DEBUG"
  | trace => "TRACE"

/-- The more is logged, the higher the rank. -/
def rank : Level → Nat
  | error => 1
  | warn => 2
  | info => 3
  | debug => 4
  | trace => 5

end Level

/-- The part of the program that an event comes from. -/
inductive Origin
  | environment
  | descriptor
  | document
  | matrix
  | template
  | verification
  | output
  | generation
deriving DecidableEq, Repr

/-- The name of a part in log filters.  Filters may also name a part by the start of it. -/
def Origin.target : Origin → String
  | environment => "alpaka_jobgen::job::variables"
  | descriptor => "alpaka_jobgen::job::descriptor"
  | document => "alpaka_jobgen::pipeline::document"
  | matrix => "alpaka_jobgen::pipeline::input"
  | template => "alpaka_jobgen::pipeline::template"
  | verification => "alpaka_jobgen::pipeline::verify"
  | output => "alpaka_jobgen::infrastructure::gitlab_ci"
  | generation => "alpaka_jobgen::cli::generate"

/-- The value of a field.  A text is shown in quotes. -/
inductive FieldValue
  | text (s : String)
  | shown (s : String)
deriving DecidableEq, Repr

namespace FieldValue

/-- The value without quotes. -/
def content : FieldValue → String
  | text s => s
  | shown s => s

def ofNat (n : Nat) : FieldValue := .shown (toString n)

end FieldValue

structure LogEvent where
  level : Level
  origin : Origin
  message : String
  fields : List (String × FieldValue)
deriving DecidableEq, Repr

/-! ## Values with events -/

structure Traced (α : Type) where
  value : α
  events : List LogEvent

instance : Monad Traced where
  pure x := ⟨x, []⟩
  bind x f := ⟨(f x.value).value, x.events ++ (f x.value).events⟩

/-- A computation that reports events and may fail. -/
abbrev Logged (ε α : Type) := ExceptT ε Traced α

namespace Traced

/-- Reports one event. -/
def report (e : LogEvent) : Traced Unit := ⟨(), [e]⟩

end Traced

namespace Logged

variable {ε α : Type}

def report (e : LogEvent) : Logged ε Unit := ExceptT.lift (Traced.report e)

/-- A computation without events. -/
def ofExcept (x : Except ε α) : Logged ε α := ExceptT.mk (pure x)

/-- The result and the events. -/
def outcome (x : Logged ε α) : Except ε α := x.run.value

def events (x : Logged ε α) : List LogEvent := x.run.events

end Logged

end JobMatrix
