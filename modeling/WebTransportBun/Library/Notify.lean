/-
  Library.Notify

  The waiter's side of a notifier that stores no permit: a notification wakes those who are
  registered at that moment, and nobody else.
-/

import Mathlib.Logic.Basic

namespace Library

inductive Wake
  | none
  | registered
  | notified
  deriving DecidableEq, Repr

/-- What a notification does to one waiter. -/
def Wake.notify : Wake → Wake
  | none => none
  | registered | notified => notified

@[simp] theorem Wake.notify_eq_registered {w : Wake} : ¬ w.notify = .registered := by
  cases w <;> decide

@[simp] theorem Wake.notify_eq_none {w : Wake} : w.notify = .none ↔ w = .none := by
  cases w <;> decide

end Library
