/-
  Library.Meter

  Counting against a budget that refills over time.  `Metered` ties a log of grant times
  to a level: every grant costs, the level rises at most at a given rate, and it never
  exceeds a cap.  Then no window of time holds more grants than the cap and what flows in
  during the window pay for.
-/

import Mathlib.Algebra.Order.Group.Nat
import Mathlib.Data.List.Count

namespace Library

open List Nat

def grantsSince (times : List Nat) (a : Nat) : Nat := times.countP (a ≤ ·)

def grantsWithin (times : List Nat) (a b : Nat) : Nat := times.countP fun t => a ≤ t ∧ t ≤ b

/-- A log of grants that a level has paid for. -/
structure Metered (rate cap cost clock level : Nat) (times : List Nat) : Prop where
  past : ∀ t ∈ times, t ≤ clock
  level_le : level ≤ cap
  since : ∀ a ≤ clock, cost * grantsSince times a + level ≤ cap + rate * (clock - a)
  within : ∀ a b, a ≤ b → cost * grantsWithin times a b ≤ cap + rate * (b - a)

namespace Metered

variable {rate cap cost clock level clock' level' : Nat} {times : List Nat}

theorem start (h : level ≤ cap) : Metered rate cap cost clock level [] where
  past := nofun
  level_le := h
  since a _ := by
    rw [grantsSince, countP_nil, Nat.mul_zero, Nat.zero_add]
    exact Nat.le_trans h (Nat.le_add_right _ _)
  within a b _ := by
    exact zero_le _

section

variable (h : Metered rate cap cost clock level times)

include h

/-- Time passes, and the level rises no faster than the rate. -/
theorem advance (hclock : clock ≤ clock')
    (hlevel : level' ≤ level + rate * (clock' - clock)) (hcap : level' ≤ cap) :
    Metered rate cap cost clock' level' times where
  past t ht := le_trans (h.past t ht) hclock
  level_le := hcap
  since a ha := by
    by_cases hold : a ≤ clock
    · have hsince := h.since a hold
      have hsplit : rate * (clock' - a) = rate * (clock - a) + rate * (clock' - clock) := by
        rw [← Nat.mul_add]
        congr 1
        omega
      omega
    · -- A window that begins after the last grant.
      have hnone : grantsSince times a = 0 := by
        rw [grantsSince, countP_eq_zero]
        intro t ht
        have hpast := h.past t ht
        simp only [decide_eq_true_eq]
        omega
      rw [hnone, Nat.mul_zero, Nat.zero_add]
      exact le_trans hcap (le_add_right _ _)
  within := h.within

theorem lower (hlevel : level' ≤ level) :
    Metered rate cap cost clock level' times :=
  h.advance (le_refl clock) (le_trans hlevel (le_add_right _ _))
    (le_trans hlevel h.level_le)

/-- A grant, now, that the level pays for. -/
theorem grant (hpaid : level' + cost ≤ level) :
    Metered rate cap cost clock level' (times ++ [clock]) := by
  have hcap := h.level_le
  have hsince : ∀ a ≤ clock, cost * grantsSince (times ++ [clock]) a + level' ≤
      cap + rate * (clock - a) := by
    intro a ha
    have hold := h.since a ha
    have hcount : grantsSince (times ++ [clock]) a = grantsSince times a + 1 := by
      rw [grantsSince, grantsSince, countP_append]
      simp [ha]
    rw [hcount, Nat.mul_add]
    omega
  refine ⟨?_, by omega, hsince, ?_⟩
  · exact forall_mem_append.mpr ⟨h.past, forall_mem_singleton.mpr le_rfl⟩
  · intro a b hab
    by_cases hin : a ≤ clock ∧ clock ≤ b
    · -- Every grant since `a` is in the window.
      have hall : grantsWithin (times ++ [clock]) a b ≤ grantsSince (times ++ [clock]) a := by
        refine countP_mono_left fun t _ ht => ?_
        simp only [decide_eq_true_eq] at ht ⊢
        exact ht.1
      have hbound := hsince a hin.1
      have hrate : rate * (clock - a) ≤ rate * (b - a) := mul_le_mul_left _ (by omega)
      have hcost := mul_le_mul_left cost hall
      omega
    · have hsame : grantsWithin (times ++ [clock]) a b = grantsWithin times a b := by
        rw [grantsWithin, grantsWithin, countP_append]
        simp [hin]
      rw [hsame]
      exact h.within a b hab

end

end Metered

end Library
