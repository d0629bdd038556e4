/-
  WebTransportBun.Wasm.Qpack.Table

  The bounded QPACK dynamic table (`DynamicTable` in `crates/wasm/src/h3.rs`): inserts at
  the back, evictions at the front, absolute indexes counted from 1 over all inserts ever
  made.

  A table is a window on the log of all inserts (`Window`): the entries are the newest
  part of the log, everything before it is evicted, and `getAbsolute` answers from the log
  for exactly the indexes behind `evicted`.  With a capacity below `usize::MAX` the sizes
  are exact (`Sized`), so a table never holds more than `maxCapacity / 32` entries.
-/

import WebTransportBun.Wasm.Qpack.Prim
import Mathlib.Algebra.BigOperators.Group.List.Basic

namespace WebTransportBun.Wasm.Qpack

open List

inductive QpackError
  | blocked
  | invalid
  deriving DecidableEq, Repr

def saturatingAdd (a b : Nat) : Nat := min (a + b) usizeMax

structure DynEntry where
  name : String
  value : String
  deriving DecidableEq, Repr

/-- Entries are listed oldest first. -/
structure DynamicTable where
  entries : List DynEntry := []
  capacity : Nat := 0
  maxCapacity : Nat
  size : Nat := 0
  insertCount : Nat := 0
  deriving DecidableEq, Repr

namespace DynamicTable

def new (maxCapacity : Nat) : DynamicTable := { maxCapacity }

def entrySize (name value : String) : Nat :=
  saturatingAdd (saturatingAdd (strBytes name).length (strBytes value).length) 32

def oldestAbsolute (t : DynamicTable) : Option Nat :=
  if t.entries.isEmpty then none else some (t.insertCount - t.entries.length + 1)

/-- Whether the oldest entry is newer than the acknowledgement floor. -/
def floorProtects (t : DynamicTable) : Option Nat → Bool
  | none => false
  | some floor =>
    match t.oldestAbsolute with
    | none => false
    | some oldest => floor < oldest

/-- The loop of `evict_to_fit`; every round takes one entry off the front. -/
def evictLoop (additional : Nat) (ackFloor : Option Nat) :
    Nat → DynamicTable → Except QpackError Unit × DynamicTable
  | 0, t => (.ok (), t)
  | fuel + 1, t =>
    match t.entries with
    | [] => (.ok (), t)
    | e :: rest =>
      if additional = usizeMax ∨ t.capacity < saturatingAdd t.size additional then
        if t.floorProtects ackFloor then (.error .invalid, t)
        else evictLoop additional ackFloor fuel
          { t with entries := rest, size := t.size - entrySize e.name e.value }
      else (.ok (), t)

section

variable (t : DynamicTable)

def evictToFit (additional : Nat) (ackFloor : Option Nat) :
    Except QpackError Unit × DynamicTable :=
  match evictLoop additional ackFloor t.entries.length t with
  | (.error e, t) => (.error e, t)
  | (.ok (), t) =>
    if additional ≠ usizeMax ∧ t.capacity < saturatingAdd t.size additional then
      (.error .invalid, t)
    else (.ok (), t)

def setCapacityWithAckFloor (capacity : Nat) (ackFloor : Option Nat) :
    Except QpackError Unit × DynamicTable :=
  if t.maxCapacity < capacity then (.error .invalid, t)
  else { t with capacity }.evictToFit 0 ackFloor

def setCapacity (capacity : Nat) : Except QpackError Unit × DynamicTable :=
  t.setCapacityWithAckFloor capacity none

def insertWithAckFloor (name value : String) (ackFloor : Option Nat) :
    Except QpackError Unit × DynamicTable :=
  let sz := entrySize name value
  if t.capacity < sz then (.error .invalid, t)
  else
    match t.evictToFit sz ackFloor with
    | (.error e, t) => (.error e, t)
    | (.ok (), t) =>
      (.ok (), { t with
        entries := t.entries ++ [⟨name, value⟩]
        size := saturatingAdd t.size sz
        insertCount := t.insertCount + 1 })

def insert (name value : String) : Except QpackError Unit × DynamicTable :=
  t.insertWithAckFloor name value none

def getAbsolute (abs : Nat) : Option DynEntry :=
  if abs = 0 then none
  else
    match t.oldestAbsolute with
    | none => none
    | some oldest =>
      if abs < oldest ∨ t.insertCount < abs then none else t.entries[abs - oldest]?

def getRelative (relative base : Nat) : Option DynEntry :=
  if base < relative then none else t.getAbsolute (base - relative)

/-- `DynamicTable::get_post_base`; both additions are checked `u64` ones. -/
def getPostBase (post base : Nat) : Option DynEntry :=
  if 2 ^ 64 ≤ base + post + 1 then none else t.getAbsolute (base + post + 1)

def evicted : Nat := t.insertCount - t.entries.length

end

/-! ## Evictions -/

/-! ### The rounds of the loop -/

section

variable {additional fuel : Nat} {ackFloor : Option Nat} {t : DynamicTable} {e : DynEntry}
variable {rest : List DynEntry}

theorem evictLoop_nil (h : t.entries = []) :
    evictLoop additional ackFloor (fuel + 1) t = (.ok (), t) := by
  rw [evictLoop, h]

section

variable (h : t.entries = e :: rest)

include h

theorem evictLoop_fits
    (hfits : ¬ (additional = usizeMax ∨ t.capacity < saturatingAdd t.size additional)) :
    evictLoop additional ackFloor (fuel + 1) t = (.ok (), t) := by
  rw [evictLoop, h]
  simp only [if_neg hfits]

section

variable (hfull : additional = usizeMax ∨ t.capacity < saturatingAdd t.size additional)

include hfull

theorem evictLoop_protected (hprot : t.floorProtects ackFloor) :
    evictLoop additional ackFloor (fuel + 1) t = (.error .invalid, t) := by
  rw [evictLoop, h]
  simp only [if_pos hfull, if_pos hprot]

theorem evictLoop_evict (hfree : ¬ t.floorProtects ackFloor) :
    evictLoop additional ackFloor (fuel + 1) t = evictLoop additional ackFloor fuel
      { t with entries := rest, size := t.size - entrySize e.name e.value } := by
  rw [evictLoop, h]
  simp only [if_pos hfull, if_neg hfree]

end

end

end

/-! ### The whole loop -/

/-- What an eviction can do: entries go from the front, as far as the acknowledgement
    floor permits, and nothing else changes. -/
structure Evicts (t : DynamicTable) (ackFloor : Option Nat) (t' : DynamicTable) : Prop where
  capacity : t'.capacity = t.capacity
  maxCapacity : t'.maxCapacity = t.maxCapacity
  insertCount : t'.insertCount = t.insertCount
  suffix : t'.entries <:+ t.entries
  floor : ∀ f, ackFloor = some f → t.entries.length ≤ t.insertCount →
    t'.evicted ≤ max t.evicted f

theorem evictLoop_evicts (additional fuel : Nat) (ackFloor : Option Nat) (t : DynamicTable) :
    t.Evicts ackFloor (evictLoop additional ackFloor fuel t).2 := by
  induction fuel generalizing t with
  | zero => exact ⟨rfl, rfl, rfl, suffix_rfl, fun f _ _ => le_max_left _ _⟩
  | succ fuel ih =>
    have hsame : t.Evicts ackFloor t :=
      ⟨rfl, rfl, rfl, suffix_rfl, fun f _ _ => le_max_left _ _⟩
    rw [evictLoop]
    split
    · exact hsame
    · next e rest hentries =>
      split
      · split
        · exact hsame
        · next hfree =>
          have hrec := ih
            (t := { t with entries := rest, size := t.size - entrySize e.name e.value })
          refine ⟨hrec.capacity, hrec.maxCapacity, hrec.insertCount, ?_, ?_⟩
          · rw [hentries]
            exact hrec.suffix.trans (suffix_cons _ _)
          · intro f hf hlen
            rw [hentries, length_cons] at hlen
            have hstep := hrec.floor f hf (by simp only; omega)
            -- The entry that went was not above the floor.
            have hle : t.insertCount - rest.length ≤ f := by
              simp only [hf, floorProtects, oldestAbsolute, hentries, isEmpty_cons,
                length_cons, Bool.false_eq_true, if_false, decide_eq_true_eq] at hfree
              omega
            refine hstep.trans (max_le ?_ (le_max_right _ _))
            exact le_max_of_le_right hle
      · exact hsame

variable {t' : DynamicTable}
  {t : DynamicTable} {ackFloor : Option Nat}

theorem evictLoop_none_of_ok {additional fuel : Nat}
    (h : evictLoop additional ackFloor fuel t = (.ok (), t')) :
    evictLoop additional none fuel t = (.ok (), t') := by
  induction fuel generalizing t with
  | zero => exact h
  | succ fuel ih =>
    rw [evictLoop] at h ⊢
    split at h
    · exact h
    · next e rest hentries =>
      split at h
      · next hfull =>
        split at h
        · cases h
        · rw [if_pos hfull]
          exact ih h
      · next hfits => grind

theorem evictToFit_evicts (t : DynamicTable) (additional : Nat) (ackFloor : Option Nat) :
    t.Evicts ackFloor (t.evictToFit additional ackFloor).2 := by
  have hloop := evictLoop_evicts additional t.entries.length ackFloor t
  unfold evictToFit
  split
  · next h => rw [h] at hloop; exact hloop
  · next h =>
    rw [h] at hloop
    split <;> exact hloop

theorem evictToFit_none_of_ok {additional : Nat}
    (h : t.evictToFit additional ackFloor = (.ok (), t')) :
    t.evictToFit additional none = (.ok (), t') := by
  unfold evictToFit at h ⊢
  split at h
  · cases h
  · next hloop =>
    rw [evictLoop_none_of_ok hloop]
    exact h

/-! ## Inserts -/

structure Inserts (t : DynamicTable) (e : DynEntry) (ackFloor : Option Nat)
    (t' : DynamicTable) : Prop where
  capacity : t'.capacity = t.capacity
  maxCapacity : t'.maxCapacity = t.maxCapacity
  insertCount : t'.insertCount = t.insertCount + 1
  entries : ∃ kept, kept <:+ t.entries ∧ t'.entries = kept ++ [e]
  floor : ∀ f, ackFloor = some f → t.entries.length ≤ t.insertCount →
    t'.evicted ≤ max t.evicted f

variable {name value : String}

section

variable (h : t.insertWithAckFloor name value ackFloor = (.ok (), t'))

include h

theorem insertWithAckFloor_ok :
    t.Inserts ⟨name, value⟩ ackFloor t' := by
  simp only [insertWithAckFloor] at h
  split at h
  · cases h
  · split at h
    · cases h
    · next t₁ hevict =>
      cases h
      have hev := t.evictToFit_evicts (entrySize name value) ackFloor
      rw [hevict] at hev
      refine ⟨hev.capacity, hev.maxCapacity, by rw [hev.insertCount], ⟨_, hev.suffix, rfl⟩, ?_⟩
      intro f hf hlen
      have hfloor := hev.floor f hf hlen
      simp only [evicted, length_append, length_singleton] at hfloor ⊢
      omega

theorem insert_of_insertWithAckFloor_ok :
    t.insert name value = (.ok (), t') := by
  simp only [insert, insertWithAckFloor] at h ⊢
  split at h
  · cases h
  · next hfits =>
    split at h
    · cases h
    · next hevict =>
      rw [if_neg hfits, evictToFit_none_of_ok hevict]
      exact h

end

theorem Inserts.evicted_le {e : DynEntry}
    (h : t.Inserts e ackFloor t') : t.evicted ≤ t'.evicted := by
  obtain ⟨kept, hkept, hentries⟩ := h.entries
  have hlen := hkept.length_le
  have hcount := h.insertCount
  simp only [evicted, hentries, length_append, length_singleton]
  omega

/-! ## A table is a window on the log of its inserts -/

/-- The entries are the newest part of the log of all inserts. -/
structure Window (t : DynamicTable) (log : List DynEntry) : Prop where
  insertCount : t.insertCount = log.length
  suffix : t.entries <:+ log

theorem window_new (maxCapacity : Nat) : (new maxCapacity).Window [] :=
  ⟨rfl, suffix_rfl⟩

variable {log : List DynEntry}

theorem Window.insert {e : DynEntry} (hw : t.Window log) (h : t.Inserts e ackFloor t') :
    t'.Window (log ++ [e]) := by
  obtain ⟨kept, hkept, hentries⟩ := h.entries
  constructor
  · rw [h.insertCount, hw.insertCount, length_append, length_singleton]
  · obtain ⟨gone, hgone⟩ := hkept.trans hw.suffix
    rw [hentries, ← hgone, append_assoc]
    exact suffix_append _ _

theorem Window.length_le (hw : t.Window log) :
    t.entries.length ≤ t.insertCount := by
  rw [hw.insertCount]
  exact hw.suffix.length_le

/-- Lookups answer from the log, for exactly the indexes that are not evicted. -/
theorem Window.getAbsolute (hw : t.Window log)
    {abs : Nat} (hlive : t.evicted < abs) : t.getAbsolute abs = log[abs - 1]? := by
  obtain ⟨gone, hgone⟩ := hw.suffix
  have hcount := hw.insertCount
  rw [← hgone] at hcount
  simp only [evicted] at hlive
  rw [DynamicTable.getAbsolute, oldestAbsolute]
  by_cases hempty : t.entries = []
  · grind
  · grind

/-! ## Sizes -/

structure Sized (t : DynamicTable) : Prop where
  size : t.size = (t.entries.map fun e => entrySize e.name e.value).sum
  le_capacity : t.size ≤ t.capacity
  capacity_le : t.capacity ≤ t.maxCapacity

theorem sized_new (maxCapacity : Nat) : (new maxCapacity).Sized :=
  ⟨rfl, Nat.le_refl 0, Nat.zero_le _⟩

theorem evictLoop_size (additional fuel : Nat) (ackFloor : Option Nat)
    (h : t.size = (t.entries.map fun e => entrySize e.name e.value).sum) :
    (evictLoop additional ackFloor fuel t).2.size =
      ((evictLoop additional ackFloor fuel t).2.entries.map
        fun e => entrySize e.name e.value).sum := by
  induction fuel generalizing t with
  | zero => exact h
  | succ fuel ih => grind [evictLoop]

theorem evictToFit_size {additional : Nat}
    (hs : t.size = (t.entries.map fun e => entrySize e.name e.value).sum)
    (hcap : t.capacity < usizeMax) (hadd : additional < usizeMax)
    (h : t.evictToFit additional ackFloor = (.ok (), t')) :
    t'.size = (t'.entries.map fun e => entrySize e.name e.value).sum ∧
      t'.size + additional ≤ t'.capacity := by
  have hev := t.evictToFit_evicts additional ackFloor
  rw [h] at hev
  have hcap' : t'.capacity = t.capacity := hev.capacity
  have hsize := evictLoop_size additional t.entries.length ackFloor hs
  unfold evictToFit at h
  split at h
  · cases h
  · next t₁ hloop => grind [saturatingAdd]

/-- An insert keeps the sizes exact as long as the capacity is below `usize::MAX`, where
    the saturating additions do not saturate. -/
theorem Sized.insert (hs : t.Sized) (hmax : t.maxCapacity < usizeMax)
    (h : t.insertWithAckFloor name value ackFloor = (.ok (), t')) : t'.Sized := by
  have hcap := hs.capacity_le
  simp only [insertWithAckFloor] at h
  split at h
  · cases h
  · split at h
    · cases h
    · next t₁ hevict =>
      cases h
      have hev := t.evictToFit_evicts (entrySize name value) ackFloor
      rw [hevict] at hev
      have hcap₁ : t₁.capacity = t.capacity := hev.capacity
      have hmax₁ : t₁.maxCapacity = t.maxCapacity := hev.maxCapacity
      obtain ⟨hsize, hroom⟩ := evictToFit_size hs.size (by omega) (by omega) hevict
      refine ⟨?_, ?_, ?_⟩
      · simp only [saturatingAdd, map_append, map_cons, map_nil,
          sum_append, sum_cons, sum_nil]
        omega
      · simp only [saturatingAdd]
        omega
      · simp only
        omega

/-! ## Capacity updates -/

theorem setCapacityWithAckFloor_ok {capacity : Nat}
    (h : t.setCapacityWithAckFloor capacity ackFloor = (.ok (), t')) :
    capacity ≤ t.maxCapacity ∧ { t with capacity }.evictToFit 0 ackFloor = (.ok (), t') := by
  simp only [setCapacityWithAckFloor] at h
  split at h
  · cases h
  · exact ⟨by omega, h⟩

theorem setCapacity_of_setCapacityWithAckFloor_ok {capacity : Nat}
    (h : t.setCapacityWithAckFloor capacity ackFloor = (.ok (), t')) :
    t.setCapacity capacity = (.ok (), t') := by
  obtain ⟨hle, hevict⟩ := setCapacityWithAckFloor_ok h
  rw [setCapacity, setCapacityWithAckFloor, if_neg (by omega)]
  exact evictToFit_none_of_ok hevict

theorem Window.evict (hw : t.Window log) (h : t.Evicts ackFloor t') : t'.Window log :=
  ⟨h.insertCount.trans hw.insertCount, h.suffix.trans hw.suffix⟩

theorem Evicts.evicted_le (h : t.Evicts ackFloor t') : t.evicted ≤ t'.evicted := by
  have hlen := h.suffix.length_le
  have hcount := h.insertCount
  simp only [evicted]
  omega

theorem Sized.length_le (hs : t.Sized) :
    t.entries.length ≤ t.maxCapacity / 32 := by
  have hentry : ∀ e : DynEntry, 32 ≤ entrySize e.name e.value := by
    grind [entrySize, saturatingAdd, usizeMax]
  have hsum : ∀ es : List DynEntry,
      32 * es.length ≤ (es.map fun e => entrySize e.name e.value).sum := by
    intro es
    induction es with
    | nil => simp
    | cons e es ih => grind
  have hall := hsum t.entries
  have h1 := hs.size
  have h2 := hs.le_capacity
  have h3 := hs.capacity_le
  omega

end DynamicTable

end WebTransportBun.Wasm.Qpack
