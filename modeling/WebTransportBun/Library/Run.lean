/-
  Library.Run

  Finite runs of a labelled step relation, from a start state, with the labels taken
  in order.  Properties of whole runs are proved through `Run.invariant` (a property
  that one step keeps is kept by a run); what a step may assume about its pre-state
  and its label goes into the relation itself (`restrict`).
-/

import Mathlib.Logic.Relation

namespace Library

/-- `Run step s ls t`: taking steps with labels `ls` leads from `s` to `t`. -/
inductive Run {S L : Type*} (step : S → L → S → Prop) : S → List L → S → Prop
  | nil (s : S) : Run step s [] s
  | snoc {s t u : S} {ls : List L} {l : L} (run : Run step s ls t) (last : step t l u) :
      Run step s (ls ++ [l]) u

/-- The steps whose pre-state and label satisfy `ok`. -/
def restrict {S L : Type*} (ok : S → L → Prop) (step : S → L → S → Prop) : S → L → S → Prop :=
  fun s l t => ok s l ∧ step s l t

/-- The state after a list of labels, for steps that compute. -/
def execAll {S L : Type*} (exec : S → L → Option S) : S → List L → Option S
  | s, [] => some s
  | s, l :: ls => (exec s l).bind (execAll exec · ls)

/-- The computing steps whose pre-state and label satisfy `ok`. -/
def guarded {S L : Type*} (ok : S → L → Prop) [∀ s l, Decidable (ok s l)]
    (exec : S → L → Option S) : S → L → Option S :=
  fun s l => if ok s l then exec s l else none

theorem restrict_of_guarded {S L : Type*} {ok : S → L → Prop} [∀ s l, Decidable (ok s l)]
    {exec : S → L → Option S} {s t : S} {l : L} (h : guarded ok exec s l = some t) :
    restrict ok (fun s l t => exec s l = some t) s l t :=
  Option.ite_none_right_eq_some.mp h

namespace Run

variable {S L : Type*} {step : S → L → S → Prop} {s t u : S} {ls ks : List L}

theorem invariant {P : S → Prop} (hstep : ∀ s l t, P s → step s l t → P t)
    (hrun : Run step s ls t) (hs : P s) : P t := by
  induction hrun with
  | nil => exact hs
  | snoc _ last ih => exact hstep _ _ _ ih last

theorem append (h₁ : Run step s ls t) (h₂ : Run step t ks u) : Run step s (ls ++ ks) u := by
  induction h₂ with
  | nil => simpa using h₁
  | snoc _ last ih =>
    rw [← List.append_assoc]
    exact .snoc ih last

theorem single {l : L} (h : step s l t) : Run step s [l] t :=
  .snoc (.nil s) h

theorem of_execAll {exec : S → L → Option S} (hstep : ∀ s l t, exec s l = some t → step s l t)
    (h : execAll exec s ls = some t) : Run step s ls t := by
  induction ls generalizing s with
  | nil =>
    cases h
    exact .nil _
  | cons l ls ih =>
    obtain ⟨u, hfirst, hrest⟩ := Option.bind_eq_some_iff.mp h
    exact (single (hstep s l u hfirst)).append (ih hrest)

theorem exists_of_execAll {exec : S → L → Option S} (P : S → Prop) [DecidablePred P]
    {Q : S → Prop} (hstep : ∀ s l t, exec s l = some t → step s l t)
    (hexec : (execAll exec s ls).any (P ·) = true) (hQ : ∀ t, Run step s ls t → P t → Q t) :
    ∃ t, Run step s ls t ∧ Q t := by
  obtain ⟨t, ht, hP⟩ := (Option.any_eq_true _ _).mp hexec
  have hrun := of_execAll hstep ht
  exact ⟨t, hrun, hQ t hrun (of_decide_eq_true hP)⟩

theorem of_restrict {ok : S → L → Prop} (h : Run (restrict ok step) s ls t) : Run step s ls t := by
  induction h with
  | nil => exact .nil _
  | snoc _ last ih => exact .snoc ih last.2

end Run

end Library
