/-
  Library.Budget

  Counters that several parties draw on.  A party takes one amount at one key after the
  other and gives it back in the reverse order; the counters are balanced when each of them
  is the sum of what the parties hold there.
-/

import Mathlib.Algebra.BigOperators.Group.List.Basic
import Mathlib.Algebra.Ring.Nat

namespace Library

open List Function

theorem sum_map_set {α : Type*} (f : α → Nat) {l : List α} {i : Nat} {old : α}
    (hold : l[i]? = some old) (new : α) :
    ((l.set i new).map f).sum + f old = (l.map f).sum + f new := by
  obtain ⟨hi, rfl⟩ := List.getElem?_eq_some_iff.mp hold
  have hsplit := List.take_append_drop i l
  rw [drop_eq_getElem_cons hi] at hsplit
  rw [set_eq_take_append_cons_drop, if_pos hi]
  conv_rhs => rw [← hsplit]
  simp only [map_append, map_cons, sum_append, sum_cons]
  omega

theorem sum_map_eq_countP {α : Type*} {f : α → Nat} {p : α → Bool} {l : List α}
    (h : ∀ a ∈ l, f a = if p a then 1 else 0) : (l.map f).sum = l.countP p := by
  induction l with
  | nil => rfl
  | cons a l ih =>
    obtain ⟨ha, hl⟩ := forall_mem_cons.mp h
    rw [map_cons, sum_cons, countP_cons, ha, ih hl, Nat.add_comm]

variable {K : Type*} [DecidableEq K]

/-- The keys a party has taken, and how much it took at each of them. -/
structure Hold (K : Type*) where
  keys : List K
  amount : Nat

namespace Hold

def share (h : Hold K) (k : K) : Nat := h.keys.count k * h.amount

@[simp] theorem share_nil (n : Nat) (k : K) : (⟨[], n⟩ : Hold K).share k = 0 := zero_mul _

theorem share_cons (k : K) (ks : List K) (n : Nat) (k' : K) :
    (⟨k :: ks, n⟩ : Hold K).share k' = (⟨ks, n⟩ : Hold K).share k' + if k = k' then n else 0 := by
  unfold Hold.share
  by_cases hk : k = k'
  · simp [hk, add_mul]
  · simp [hk]

end Hold

/-- Each counter is the sum of what is held. -/
def Balanced (c : K → Nat) (holds : List (Hold K)) : Prop :=
  ∀ k, c k = (holds.map (·.share k)).sum

namespace Balanced

variable {c : K → Nat} {holds : List (Hold K)} {i : Nat} {ks : List K} {n : Nat} {k : K}

theorem nil : Balanced (fun _ : K => 0) [] := fun _ => rfl

section

variable (h : Balanced c holds)

include h

theorem join (n : Nat) : Balanced c (holds ++ [⟨[], n⟩]) := by
  intro k
  rw [h k, map_append]
  simp

theorem take (hi : holds[i]? = some ⟨ks, n⟩) :
    Balanced (update c k (c k + n)) (holds.set i ⟨k :: ks, n⟩) := by
  intro k'
  have hsum := sum_map_set (·.share k') hi ⟨k :: ks, n⟩
  rw [Hold.share_cons, ← h k'] at hsum
  by_cases hk : k = k'
  · subst hk
    rw [update_self]
    rw [if_pos rfl] at hsum
    omega
  · rw [update_of_ne (Ne.symm hk)]
    rw [if_neg hk] at hsum
    omega

theorem give (hi : holds[i]? = some ⟨k :: ks, n⟩) :
    Balanced (update c k (c k - n)) (holds.set i ⟨ks, n⟩) := by
  intro k'
  have hsum := sum_map_set (·.share k') hi ⟨ks, n⟩
  rw [Hold.share_cons, ← h k'] at hsum
  by_cases hk : k = k'
  · subst hk
    rw [update_self]
    rw [if_pos rfl] at hsum
    omega
  · rw [update_of_ne (Ne.symm hk)]
    rw [if_neg hk] at hsum
    omega

theorem share_le {hold : Hold K} (hi : holds[i]? = some hold) (k : K) :
    hold.share k ≤ c k := by
  have hsum := sum_map_set (·.share k) hi ⟨[], 0⟩
  rw [← h k, Hold.share_nil] at hsum
  omega

theorem eq_zero (hnone : ∀ hold ∈ holds, hold.keys = []) (k : K) :
    c k = 0 := by
  rw [h k]
  refine sum_eq_zero fun x hx => ?_
  obtain ⟨hold, hmem, rfl⟩ := mem_map.mp hx
  unfold Hold.share
  rw [hnone hold hmem, count_nil, zero_mul]

end

end Balanced

/-! ## Taking several keys at once -/

def reserve (limit : K → Nat) (n : Nat) : List K → (K → Nat) → Option (K → Nat)
  | [], c => some c
  | k :: ks, c =>
    if c k + n ≤ limit k then reserve limit n ks (update c k (c k + n)) else none

theorem reserve_isSome_iff {limit : K → Nat} {n : Nat} {ks : List K} (hks : ks.Nodup)
    {c : K → Nat} : (reserve limit n ks c).isSome ↔ ∀ k ∈ ks, c k + n ≤ limit k := by
  induction ks generalizing c with
  | nil => simp [reserve]
  | cons k ks ih =>
    rw [reserve]
    -- taking `k` does not change the counters of the keys that follow
    split
    · next hroom => grind
    · next hroom => simp [hroom]

end Library
