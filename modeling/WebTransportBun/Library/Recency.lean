/-
  Library.Recency

  The order of last use, the latest first.  What a cache of `n` places keeps under
  least-recently-used eviction is the first `n` of that order.
-/

import Mathlib.Data.List.Nodup

namespace Library

open List

variable {K : Type*} [DecidableEq K] {k : K} {order : List K} {n : Nat}

def use (k : K) (order : List K) : List K := k :: order.filter (· ≠ k)

theorem nodup_use (k : K) (h : order.Nodup) : (use k order).Nodup := by
  refine nodup_cons.mpr ⟨fun hmem => ?_, h.filter _⟩
  simpa using of_mem_filter hmem

theorem mem_use {k' : K} (h : k' ∈ order) : k' ∈ use k order := by
  by_cases hk : k' = k
  · rw [hk]
    exact mem_cons_self
  · exact mem_cons_of_mem _ (mem_filter.mpr ⟨h, by simpa using hk⟩)

theorem filter_ne_of_not_mem (h : k ∉ order) : order.filter (· ≠ k) = order := by
  refine filter_eq_self.mpr fun k' hk' => ?_
  have hne : k' ≠ k := fun heq => h (heq ▸ hk')
  simpa using hne

/-- A use of what the cache has moves it to the front. -/
theorem take_use_of_mem (hnodup : order.Nodup) (hk : k ∈ order.take n) :
    (use k order).take n = k :: (order.take n).filter (· ≠ k) := by
  suffices h : (order.filter (· ≠ k)).take (n - 1) = (order.take n).filter (· ≠ k) by
    cases n with
    | zero => simp at hk
    | succ n => rw [use, take_succ_cons, ← h, Nat.add_sub_cancel]
  induction order generalizing n with
  | nil => simp at hk
  | cons a order ih =>
    obtain ⟨ha, hnodup⟩ := nodup_cons.mp hnodup
    cases n with
    | zero => simp at hk
    | succ n =>
      rw [take_succ_cons] at hk ⊢
      by_cases hak : a = k
      · subst hak
        have hnot : a ∉ order.take n := fun hmem => ha (mem_of_mem_take hmem)
        rw [filter_cons_of_neg (by simp), filter_cons_of_neg (by simp),
          filter_ne_of_not_mem ha, filter_ne_of_not_mem hnot, Nat.add_sub_cancel]
      · have hmem : k ∈ order.take n :=
          (mem_cons.mp hk).resolve_left (Ne.symm hak)
        rw [filter_cons_of_pos (by simpa using hak),
          filter_cons_of_pos (by simpa using hak), ← ih hnodup hmem]
        cases n with
        | zero => simp at hmem
        | succ n => rfl

theorem take_use_of_not_mem (hk : k ∉ order.take n) :
    (use k order).take n = (k :: order.take n).take n := by
  cases n with
  | zero => rfl
  | succ n =>
    rw [use, take_succ_cons, take_succ_cons, take_take,
      Nat.min_eq_left (Nat.le_succ n)]
    congr 1
    induction order generalizing n with
    | nil => rfl
    | cons a order ih =>
      have ha : a ≠ k := by
        rintro rfl
        exact hk mem_cons_self
      rw [filter_cons_of_pos (by simpa using ha)]
      cases n with
      | zero => rfl
      | succ n =>
        rw [take_succ_cons, take_succ_cons, ih n]
        intro hmem
        exact hk (mem_cons_of_mem _ hmem)

end Library
