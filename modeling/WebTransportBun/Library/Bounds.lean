/-
  Library.Bounds

  Operations on machine integers and on slices, read and written, that are defined in range
  only.  Out of range they take the program down, which is `none` here; so a program written
  with them runs into `none` exactly when one of its operations is out of range.
-/

import Mathlib.Data.List.Basic

namespace Library

open List

variable {α : Type*} {a b max start stop : Nat} {buf src : List α}

/-- `a + b` in a type with largest value `max`. -/
def addIn (max a b : Nat) : Option Nat := if a + b ≤ max then some (a + b) else none

/-- `a - b` in an unsigned type. -/
def subIn (a b : Nat) : Option Nat := if b ≤ a then some (a - b) else none

def rangeFrom (buf : List α) (start : Nat) : Option (List α) :=
  if start ≤ buf.length then some (buf.drop start) else none

def rangeOf (buf : List α) (start stop : Nat) : Option (List α) :=
  if start ≤ stop ∧ stop ≤ buf.length then some ((buf.drop start).take (stop - start)) else none

def putAt (buf : List α) (start : Nat) (src : List α) : Option (List α) :=
  if start + src.length ≤ buf.length then
    some (buf.take start ++ src ++ buf.drop (start + src.length))
  else none

theorem addIn_of_le (h : a + b ≤ max) : addIn max a b = some (a + b) := if_pos h

theorem addIn_of_lt (h : max < a + b) : addIn max a b = none := if_neg (Nat.not_le.mpr h)

theorem subIn_of_le (h : b ≤ a) : subIn a b = some (a - b) := if_pos h

theorem rangeFrom_of_le (h : start ≤ buf.length) : rangeFrom buf start = some (buf.drop start) :=
  if_pos h

theorem rangeOf_of_le (h : start ≤ stop) (h' : stop ≤ buf.length) :
    rangeOf buf start stop = some ((buf.drop start).take (stop - start)) := if_pos ⟨h, h'⟩

theorem rangeOf_of_lt (h : buf.length < stop) : rangeOf buf start stop = none :=
  if_neg fun hrange => by omega

theorem putAt_of_le (h : start + src.length ≤ buf.length) :
    ∃ out, putAt buf start src = some out ∧ out.length = buf.length ∧
      ∀ i, i < start ∨ start + src.length ≤ i → out[i]? = buf[i]? := by
  refine ⟨_, if_pos h, ?_, fun i hi => ?_⟩
  · simp only [length_append, length_take, length_drop]
    omega
  · have hfront : (buf.take start).length = start := length_take_of_le (by omega)
    rw [append_assoc]
    rcases hi with hi | hi
    · rw [getElem?_append_left (by omega), getElem?_take_of_lt hi]
    · rw [getElem?_append_right (by omega), getElem?_append_right (by omega),
        getElem?_drop]
      congr 1
      omega

end Library
