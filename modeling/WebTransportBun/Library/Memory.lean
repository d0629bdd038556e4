/-
  Library.Memory

  A byte store as a function from addresses, and straight-line sequences of stores
  into it.  `slice` reads a block, `storeAll` performs stores in order, `placeAt`
  is the list of stores that writes a block.  The rules say what a block reads as
  after stores that miss it and after the stores that wrote it.

  `leBytes` / `leValue` are fixed-width little-endian numbers.
-/

import Mathlib.Data.List.Basic
import Mathlib.Tactic.Ring

namespace Library

open List

variable {B : Type*}

/-! ## Stores -/

def slice (m : Nat → B) (pos len : Nat) : List B := (List.range len).map fun i => m (pos + i)

def store (m : Nat → B) (a : Nat) (b : B) : Nat → B := fun x => if x = a then b else m x

def storeAll (m : Nat → B) (ws : List (Nat × B)) : Nat → B :=
  ws.foldl (fun m w => store m w.1 w.2) m

/-- The stores that write the block `bs` at `pos`, lowest address first. -/
def placeAt (pos : Nat) : List B → List (Nat × B)
  | [] => []
  | b :: bs => (pos, b) :: placeAt (pos + 1) bs

section

variable (m : Nat → B)

@[simp] theorem storeAll_cons (w : Nat × B) (ws : List (Nat × B)) :
    storeAll m (w :: ws) = storeAll (store m w.1 w.2) ws := rfl

theorem storeAll_append (ws vs : List (Nat × B)) :
    storeAll m (ws ++ vs) = storeAll (storeAll m ws) vs := by
  simp [storeAll]

@[simp] theorem length_slice (pos len : Nat) : (slice m pos len).length = len := by
  simp [slice]

end

theorem mem_placeAt {pos : Nat} {bs : List B} {w : Nat × B} (h : w ∈ placeAt pos bs) :
    pos ≤ w.1 ∧ w.1 < pos + bs.length := by
  induction bs generalizing pos with
  | nil => cases h
  | cons b bs ih =>
    rw [length_cons]
    rcases mem_cons.mp h with rfl | hmem
    · exact ⟨le_rfl, by simp only; omega⟩
    · have := ih hmem
      omega

theorem storeAll_of_forall_ne {ws : List (Nat × B)} {x : Nat} (m : Nat → B)
    (h : ∀ w ∈ ws, w.1 ≠ x) : storeAll m ws x = m x := by
  induction ws generalizing m with
  | nil => rfl
  | cons w ws ih =>
    rw [storeAll_cons, ih _ fun v hv => h v (mem_cons_of_mem _ hv)]
    have hne : x ≠ w.1 := fun heq => h w mem_cons_self heq.symm
    rw [store, if_neg hne]

theorem slice_congr {m m' : Nat → B} {pos len : Nat}
    (h : ∀ x, pos ≤ x → x < pos + len → m x = m' x) : slice m pos len = slice m' pos len := by
  apply map_congr_left
  intro i hi
  rw [mem_range] at hi
  exact h _ (by omega) (by omega)

theorem slice_storeAll {ws : List (Nat × B)} {pos len : Nat} (m : Nat → B)
    (h : ∀ w ∈ ws, w.1 < pos ∨ pos + len ≤ w.1) :
    slice (storeAll m ws) pos len = slice m pos len := by
  apply slice_congr
  intro x hlow hhigh
  apply storeAll_of_forall_ne
  intro w hw heq
  rcases h w hw with hlt | hge <;> omega

theorem slice_placeAt (m : Nat → B) (pos : Nat) (bs : List B) :
    slice (storeAll m (placeAt pos bs)) pos bs.length = bs := by
  induction bs generalizing m pos with
  | nil => rfl
  | cons b bs ih =>
    have htail := ih (store m pos b) (pos + 1)
    have hhead : storeAll (store m pos b) (placeAt (pos + 1) bs) pos = b := by
      rw [storeAll_of_forall_ne _ fun w hw => by have := mem_placeAt hw; omega]
      simp [store]
    rw [slice, length_cons, range_succ_eq_map, map_cons, map_map]
    refine congrArg₂ _ hhead (Eq.trans ?_ htail)
    apply map_congr_left
    intro i _
    show storeAll (store m pos b) (placeAt (pos + 1) bs) (pos + (i + 1)) = _
    rw [show pos + (i + 1) = pos + 1 + i by omega]

/-! ## Little-endian numbers -/

/-- The low `w` bytes of `n`, lowest first. -/
def leBytes : Nat → Nat → List UInt8
  | 0, _ => []
  | w + 1, n => UInt8.ofNat n :: leBytes w (n / 256)

/-- The number a little-endian block denotes. -/
def leValue : List UInt8 → Nat
  | [] => 0
  | b :: bs => b.toNat + 256 * leValue bs

@[simp] theorem length_leBytes (w n : Nat) : (leBytes w n).length = w := by
  induction w generalizing n with
  | zero => rfl
  | succ w ih => simp [leBytes, ih]

theorem leValue_leBytes {w n : Nat} (h : n < 256 ^ w) : leValue (leBytes w n) = n := by
  induction w generalizing n with
  | zero => simp at h; simp [leBytes, leValue, h]
  | succ w ih =>
    have hdiv : n / 256 < 256 ^ w := by
      apply Nat.div_lt_of_lt_mul
      rwa [pow_succ, mul_comm] at h
    have hlow : (UInt8.ofNat n).toNat = n % 256 := UInt8.toNat_ofNat' ..
    rw [leBytes, leValue, ih hdiv]
    omega

theorem leValue_lt (bs : List UInt8) : leValue bs < 256 ^ bs.length := by
  induction bs with
  | nil => decide
  | cons b bs ih =>
    have hb := b.toNat_lt
    rw [leValue, length_cons]
    omega

theorem leValue_append (as bs : List UInt8) :
    leValue (as ++ bs) = leValue as + 256 ^ as.length * leValue bs := by
  induction as with
  | nil => simp [leValue]
  | cons a as ih =>
    rw [cons_append, leValue, ih, leValue, length_cons]
    ring

end Library
