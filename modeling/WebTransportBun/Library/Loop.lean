/-
  Library.Loop

  A loop whose body either goes on in a new state or leaves with a result, run for at most so
  many rounds.  A loop is shown to return by its rounds (`loop_done`, `loop_next`), and shown
  never to return by an invariant under which every round goes on (`loop_eq_none`).
-/

import Mathlib.Data.Option.Basic

namespace Library

/-- Run a loop body for at most `fuel` rounds; `none` if it has not left by then. -/
def loop {S R : Type*} (body : S → S ⊕ R) : Nat → S → Option R
  | 0, _ => none
  | fuel + 1, s =>
    match body s with
    | .inl s' => loop body fuel s'
    | .inr r => some r

section

variable {S R : Type*} {body : S → S ⊕ R} {s t : S} {r : R}

theorem loop_mono {n m : Nat} (h : loop body n s = some r) (hle : n ≤ m) :
    loop body m s = some r := by
  induction n generalizing s m with
  | zero => cases h
  | succ n ih =>
    obtain ⟨m, rfl⟩ : ∃ k, m = k + 1 := ⟨m - 1, by omega⟩
    rw [loop] at h ⊢
    split at h
    · exact ih h (by omega)
    · exact h

theorem loop_done {n : Nat} (h : body s = .inr r) : loop body (n + 1) s = some r := by
  rw [loop, h]

theorem loop_next {n : Nat} (h : body s = .inl t) (hret : loop body n t = some r) :
    loop body (n + 1) s = some r := by
  rw [loop, h]
  exact hret

theorem loop_keeps {I : S → Prop} {J : R → Prop} (hround : ∀ s t, I s → body s = .inl t → I t)
    (hleave : ∀ s r, I s → body s = .inr r → J r) {fuel : Nat} (hs : I s)
    (h : loop body fuel s = some r) : J r := by
  induction fuel generalizing s with
  | zero => cases h
  | succ fuel ih =>
    rw [loop] at h
    cases hbody : body s with
    | inl t =>
      rw [hbody] at h
      exact ih (hround s t hs hbody) h
    | inr r' =>
      rw [hbody] at h
      cases h
      exact hleave s _ hs hbody

variable (body) in
theorem loop_eq_none {I : S → Prop} (hround : ∀ s, I s → ∃ s', body s = .inl s' ∧ I s')
    (hs : I s) (fuel : Nat) : loop body fuel s = none := by
  induction fuel generalizing s with
  | zero => rfl
  | succ fuel ih =>
    obtain ⟨s', hbody, hs'⟩ := hround s hs
    rw [loop, hbody]
    exact ih hs'

end

end Library
