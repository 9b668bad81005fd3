import JobMatrix.Log
import Mathlib.Data.List.Forall2

/-!
# Results of logged computations

`Logged.outcome` forgets the events of a computation.  It turns the operations of the monad into
those of `Except`, which is what the theorems about results rest on.  `Logged.events` keeps the
events only, and those of a sequence follow each other up to the first failure
(`Logged.events_bind`).
-/

set_option autoImplicit false

namespace JobMatrix

/-! ## Successes and failures in sequence -/

section Except

variable {ε ε' α β : Type}

theorem bind_eq_ok_iff {x : Except ε α} {f : α → Except ε β} {b : β} :
    (x >>= f) = .ok b ↔ ∃ a, x = .ok a ∧ f a = .ok b := by
  cases x <;> simp [bind, Except.bind]

theorem bind_eq_error_iff {x : Except ε α} {f : α → Except ε β} {e : ε} :
    (x >>= f) = .error e ↔ x = .error e ∨ ∃ a, x = .ok a ∧ f a = .error e := by
  cases x <;> simp [bind, Except.bind]

theorem map_eq_ok_iff {x : Except ε α} {f : α → β} {b : β} :
    x.map f = .ok b ↔ ∃ a, x = .ok a ∧ f a = b := by
  cases x <;> simp [Except.map]

theorem mapError_eq_ok_iff {x : Except ε α} {f : ε → ε'} {a : α} :
    x.mapError f = .ok a ↔ x = .ok a := by
  cases x <;> simp [Except.mapError]

theorem mapError_eq_error_iff {x : Except ε α} {f : ε → ε'} {e' : ε'} :
    x.mapError f = .error e' ↔ ∃ e, x = .error e ∧ f e = e' := by
  cases x <;> simp [Except.mapError]

/-- The failure of a computation, if it fails. -/
def failureOf? (x : Except ε α) : Option ε :=
  match x with
  | .error e => some e
  | .ok _ => none

@[simp] theorem failureOf?_ok (a : α) : failureOf? (.ok a : Except ε α) = none := rfl

@[simp] theorem failureOf?_error (e : ε) : failureOf? (.error e : Except ε α) = some e := rfl

theorem failureOf?_eq_some_iff {x : Except ε α} {e : ε} : failureOf? x = some e ↔ x = .error e := by
  cases x <;> simp

/-- What does not fail has a result. -/
theorem failureOf?_eq_none_iff {x : Except ε α} : failureOf? x = none ↔ ∃ a, x = .ok a := by
  cases x <;> simp

/-- A list of computations succeeds when each does. -/
theorem mapM_eq_ok_iff {f : α → Except ε β} {xs : List α} {ys : List β} :
    xs.mapM f = .ok ys ↔ List.Forall₂ (fun x y => f x = .ok y) xs ys := by
  induction xs generalizing ys with
  | nil => simp [pure, Except.pure, eq_comm]
  | cons x xs ih =>
    simp only [List.mapM_cons, bind_eq_ok_iff, List.forall₂_cons_left_iff, ih]
    constructor
    · rintro ⟨y, hy, ys, hys, h⟩
      exact ⟨y, ys, hy, hys, (Except.ok.inj h).symm⟩
    · rintro ⟨y, ys, hy, hys, rfl⟩
      exact ⟨y, hy, ys, hys, rfl⟩

/-- It fails as the first one that fails. -/
theorem failureOf?_mapM (f : α → Except ε β) (xs : List α) :
    failureOf? (xs.mapM f) = xs.findSome? fun x => failureOf? (f x) := by
  induction xs with
  | nil => rfl
  | cons x xs ih =>
    rw [List.mapM_cons, List.findSome?_cons, ← ih]
    cases f x with
    | error e => rfl
    | ok y => cases xs.mapM f <;> rfl

end Except

/-! ## Outcomes -/

namespace Logged

variable {ε ε' α β : Type}

@[simp] theorem outcome_pure (a : α) : (pure a : Logged ε α).outcome = .ok a := rfl

@[simp] theorem outcome_ofExcept (x : Except ε α) : (ofExcept x).outcome = x := rfl

@[simp] theorem outcome_report (e : LogEvent) : (report e : Logged ε Unit).outcome = .ok () := rfl

@[simp] theorem outcome_bind (x : Logged ε α) (f : α → Logged ε β) :
    (x >>= f).outcome = x.outcome >>= fun a => (f a).outcome := by
  change (ExceptT.bindCont f (ExceptT.run x).value).value = _
  rw [outcome]
  cases (ExceptT.run x).value <;> rfl

@[simp] theorem outcome_adapt (f : ε → ε') (x : Logged ε α) :
    outcome (ExceptT.adapt f x) = x.outcome.mapError f := rfl

/-- Reporting never fails. -/
@[simp] theorem outcome_forM_report (es : List LogEvent) :
    (es.forM (report (ε := ε))).outcome = .ok () := by
  induction es with
  | nil => rfl
  | cons e es ih =>
    change (report e >>= fun _ => es.forM report).outcome = _
    rw [outcome_bind, outcome_report]
    exact ih

/-! ## Events -/

@[simp] theorem events_pure (a : α) : (pure a : Logged ε α).events = [] := rfl

@[simp] theorem events_ofExcept (x : Except ε α) : (ofExcept x).events = [] := rfl

@[simp] theorem events_report (e : LogEvent) : (report e : Logged ε Unit).events = [e] := rfl

@[simp] theorem events_adapt (f : ε → ε') (x : Logged ε α) :
    events (ExceptT.adapt f x) = x.events := List.append_nil _

/-- The events of what comes next follow if there was no failure. -/
@[simp] theorem events_bind (x : Logged ε α) (f : α → Logged ε β) :
    (x >>= f).events = x.events ++ match x.outcome with
      | .error _ => []
      | .ok a => (f a).events := by
  change (ExceptT.run x).events ++ (ExceptT.bindCont f (ExceptT.run x).value).events = _
  rw [outcome]
  cases (ExceptT.run x).value <;> rfl

/-- A step that only makes the result reports nothing. -/
theorem events_bind_pure (x : Logged ε α) (f : α → β) :
    (x >>= fun a => pure (f a)).events = x.events := by
  simp only [events_bind, events_pure]
  cases x.outcome <;> exact List.append_nil _

@[simp] theorem events_forM_report (es : List LogEvent) :
    (es.forM (report (ε := ε))).events = es := by
  induction es with
  | nil => rfl
  | cons e es ih =>
    change (report e >>= fun _ => es.forM report).events = _
    rw [events_bind, outcome_report]
    exact congrArg (e :: ·) ih

end Logged

end JobMatrix
