/-
  Library.Joined

  Texts joined by a separator.  A part without the separator can be split off at either end;
  and in `h | p | h` the parts can be told apart even if `h` has the separator in it.
-/

import Mathlib.Data.List.Basic

namespace Library

open List

variable {α : Type*} {c : α} {a a' b b' h h' p p' : List α}

theorem joined_inj_left (ha : c ∉ a) (ha' : c ∉ a') (heq : a ++ c :: b = a' ++ c :: b') :
    a = a' ∧ b = b' := by
  induction a generalizing a' with
  | nil =>
    cases a' with
    | nil => exact ⟨rfl, (cons.inj heq).2⟩
    | cons x a' => exact absurd ((cons.inj heq).1 ▸ mem_cons_self) ha'
  | cons x a ih =>
    cases a' with
    | nil => exact absurd ((cons.inj heq).1 ▸ mem_cons_self) ha
    | cons y a' =>
      obtain ⟨rfl, hrest⟩ := cons.inj heq
      obtain ⟨rfl, rfl⟩ := ih (not_mem_of_not_mem_cons ha)
        (not_mem_of_not_mem_cons ha') hrest
      exact ⟨rfl, rfl⟩

theorem joined_inj_right (hb : c ∉ b) (hb' : c ∉ b') (heq : a ++ c :: b = a' ++ c :: b') :
    a = a' ∧ b = b' := by
  have hreverse := congrArg reverse heq
  simp only [reverse_append, reverse_cons, append_assoc, singleton_append]
    at hreverse
  obtain ⟨hlast, hfirst⟩ := joined_inj_left (by simpa using hb) (by simpa using hb') hreverse
  exact ⟨reverse_injective hfirst, reverse_injective hlast⟩

theorem length_le_of_joined (hp : c ∉ p) (heq : p ++ c :: h = a ++ c :: b) :
    p.length ≤ a.length := by
  by_contra hlt
  have hindex := congrArg (·[a.length]?) heq
  simp only [getElem?_append_right (Nat.le_refl a.length), Nat.sub_self,
    getElem?_cons_zero, getElem?_append_left (Nat.lt_of_not_le hlt)] at hindex
  exact hp (mem_of_getElem? hindex)

theorem centred_length_le (hp : c ∉ p)
    (heq : h ++ c :: (p ++ c :: h) = h' ++ c :: (p' ++ c :: h')) : h'.length ≤ h.length := by
  by_contra hlt
  rcases append_eq_append_iff.mp heq with ⟨d, rfl, hd⟩ | ⟨d, rfl, -⟩
  · cases d with
    | nil => simp at hlt
    | cons x d =>
      -- `h'` goes beyond the first separator, and so beyond all of `p`
      have hlong := length_le_of_joined hp (cons.inj hd).2
      have hlength := congrArg length heq
      simp only [length_append, length_cons] at hlength
      omega
  · simp at hlt

theorem centred_inj (hp : c ∉ p) (hp' : c ∉ p')
    (heq : h ++ c :: (p ++ c :: h) = h' ++ c :: (p' ++ c :: h')) : h = h' ∧ p = p' := by
  have hlength := Nat.le_antisymm (centred_length_le hp' heq.symm) (centred_length_le hp heq)
  obtain ⟨rfl, hrest⟩ := append_inj heq hlength
  exact ⟨rfl, (joined_inj_left hp hp' (cons.inj hrest).2).1⟩

end Library
