/-
  Library.Checks

  Calls that check their arguments one after the other and stop at the first that is refused.
-/

import Mathlib.Data.List.Basic

namespace Library

open List

variable {ε α β : Type}

def refuse (c : Prop) [Decidable c] (e : ε) : Except ε Unit := if c then .error e else .ok ()

theorem not_of_refuse {c : Prop} [Decidable c] {e : ε} {u : Unit} (h : refuse c e = .ok u) :
    ¬ c := by
  intro hc
  rw [refuse, if_pos hc] at h
  cases h

variable {f : α → Except ε β}

theorem bind_eq_ok {x : Except ε α} {b : β} (h : (x >>= f) = .ok b) :
    ∃ a, x = .ok a ∧ f a = .ok b := by
  cases x with
  | error e => cases h
  | ok a => exact ⟨a, rfl, h⟩

theorem bind_eq_ok_iff {x : Except ε α} {b : β} :
    (x >>= f) = .ok b ↔ ∃ a, x = .ok a ∧ f a = .ok b :=
  ⟨bind_eq_ok, fun ⟨_, hx, hf⟩ => hx ▸ hf⟩

theorem exists_of_mem_mapM {l : List α} {r : List β} {b : β}
    (h : l.mapM f = .ok r) (hb : b ∈ r) : ∃ a ∈ l, f a = .ok b := by
  induction l generalizing r with
  | nil => cases h; cases hb
  | cons a l ih =>
    rw [mapM_cons] at h
    obtain ⟨c, hc, hrest⟩ := bind_eq_ok h
    obtain ⟨cs, hcs, hcons⟩ := bind_eq_ok hrest
    cases hcons
    rcases mem_cons.mp hb with rfl | hb
    · exact ⟨a, mem_cons_self, hc⟩
    · obtain ⟨a', ha', hfa'⟩ := ih hcs hb
      exact ⟨a', mem_cons_of_mem _ ha', hfa'⟩

theorem eq_map_of_mapM {g : α → β} {l : List α} {r : List β}
    (hg : ∀ a b, f a = .ok b → b = g a) (h : l.mapM f = .ok r) : r = l.map g := by
  induction l generalizing r with
  | nil => cases h; rfl
  | cons a l ih =>
    rw [mapM_cons] at h
    obtain ⟨c, hc, hrest⟩ := bind_eq_ok h
    obtain ⟨cs, hcs, hcons⟩ := bind_eq_ok hrest
    cases hcons
    rw [map_cons, hg a c hc, ih hcs]

end Library
