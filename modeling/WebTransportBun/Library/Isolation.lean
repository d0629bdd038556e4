/-
  Library.Isolation

  Isolation of the users of a shared machine.  A user owns some of the operations and sees
  a part of the state.  When its own operations act on that part as on a machine of its own,
  and those of the others leave it alone, then what its operations return is decided by its
  own operations: two runs that agree on them return the same (`ownResults_congr`).
-/

import Mathlib.Data.List.Basic

namespace Library

variable {S V O R : Type*}

/-- What the owned operations of a run return, in order. -/
def ownResults (step : S → O → S × R) (own : O → Prop) [DecidablePred own] :
    S → List O → List R
  | _, [] => []
  | s, o :: os =>
    if own o then (step s o).2 :: ownResults step own (step s o).1 os
    else ownResults step own (step s o).1 os

/-- The condition holds at every operation of a run. -/
def Along (step : S → O → S × R) (ok : S → O → Prop) : S → List O → Prop
  | _, [] => True
  | s, o :: os => ok s o ∧ Along step ok (step s o).1 os

instance Along.decidable (step : S → O → S × R) (ok : S → O → Prop)
    [∀ s o, Decidable (ok s o)] : ∀ s os, Decidable (Along step ok s os)
  | _, [] => .isTrue trivial
  | s, o :: os =>
    haveI := Along.decidable step ok (step s o).1 os
    inferInstanceAs (Decidable (ok s o ∧ Along step ok (step s o).1 os))

variable {s : S} {os : List O}

theorem Along.and_forall {step : S → O → S × R} {ok : S → O → Prop} {q : O → Prop}
    (hok : Along step ok s os) (hq : ∀ o ∈ os, q o) :
    Along step (fun s o => q o ∧ ok s o) s os := by
  induction os generalizing s with
  | nil => trivial
  | cons o os ih =>
    obtain ⟨hhere, hrest⟩ := hok
    obtain ⟨hq, hqs⟩ := List.forall_mem_cons.mp hq
    exact ⟨⟨hq, hhere⟩, ih hrest hqs⟩

/-- The part of the state that a user sees, as a machine of its own. -/
structure Isolated (step : S → O → S × R) (own : O → Prop) (ok : S → O → Prop) (view : S → V)
    (alone : V → O → V × R) : Prop where
  own_view : ∀ s o, ok s o → own o → view (step s o).1 = (alone (view s) o).1
  own_result : ∀ s o, ok s o → own o → (step s o).2 = (alone (view s) o).2
  other_view : ∀ s o, ok s o → ¬ own o → view (step s o).1 = view s

variable {step : S → O → S × R} {own : O → Prop} [DecidablePred own] {ok : S → O → Prop}
  {view : S → V} {alone : V → O → V × R}

theorem Isolated.ownResults_eq (h : Isolated step own ok view alone) (hok : Along step ok s os) :
    ownResults step own s os =
      ownResults alone (fun _ => True) (view s) (os.filter fun o => own o) := by
  induction os generalizing s with
  | nil => rfl
  | cons o os ih =>
    obtain ⟨hhere, hrest⟩ := hok
    rw [ownResults]
    by_cases hown : own o
    · rw [if_pos hown, List.filter_cons_of_pos (by simpa using hown), ownResults,
        if_pos trivial, ih hrest, h.own_view s o hhere hown, h.own_result s o hhere hown]
    · rw [if_neg hown, List.filter_cons_of_neg (by simpa using hown), ih hrest,
        h.other_view s o hhere hown]

theorem Isolated.ownResults_congr (h : Isolated step own ok view alone) {s' : S}
    {os' : List O} (hview : view s = view s') (hok : Along step ok s os)
    (hok' : Along step ok s' os') (hsame : (os.filter fun o => own o) = os'.filter fun o => own o) :
    ownResults step own s os = ownResults step own s' os' := by
  rw [h.ownResults_eq hok, h.ownResults_eq hok', hsame, hview]

end Library
