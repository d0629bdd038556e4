/-
  Library.Map

  Finite maps with an explicit key discipline, as used for the hash maps of a
  program.  `Map K V` wraps Mathlib's association list with pairwise distinct keys
  (`AList`), so a map with a duplicated key cannot be built; lookups after an update
  are `simp` rules in `if`-form.

  On top of the plain operations the file has what verification of counters over
  such maps needs:

  - `values`: the stored values, with the effect of inserting a fresh key and of
    removing a key on them;
  - `count` / `lower`: a map of counters in which an absent key counts as zero,
    and the "remove the key when nothing is left" decrement.
-/

import Mathlib.Data.List.AList

namespace Library

open List Option Function AList Sigma

theorem getElem?_concat {α : Type*} (l : List α) (a : α) (j : Nat) :
    (l ++ [a])[j]? = if j = l.length then some a else l[j]? := by
  by_cases hj : j = l.length
  · rw [if_pos hj, hj, getElem?_concat_length]
  · rw [if_neg hj]
    by_cases hlt : j < l.length
    · rw [getElem?_append_left hlt]
    · rw [getElem?_eq_none (Nat.le_of_not_lt hlt), getElem?_eq_none]
      rw [length_append, length_singleton]
      omega

/-- A finite map: an association list with pairwise distinct keys. -/
structure Map (K V : Type*) where
  alist : AList (fun _ : K => V)

namespace Map

variable {K V : Type*}

def empty : Map K V := ⟨∅⟩

instance : EmptyCollection (Map K V) := ⟨empty⟩

instance : Inhabited (Map K V) := ⟨∅⟩

def keys (m : Map K V) : List K := m.alist.keys

def values (m : Map K V) : List V := m.alist.entries.map Sigma.snd

def size (m : Map K V) : Nat := m.keys.length

@[simp] theorem values_empty : values (∅ : Map K V) = [] := rfl

theorem keys_nodup (m : Map K V) : m.keys.Nodup := m.alist.keys_nodup

variable [DecidableEq K]

section

variable (m : Map K V)

def get? (k : K) : Option V := m.alist.lookup k

def insert (k : K) (v : V) : Map K V := ⟨m.alist.insert k v⟩

def erase (k : K) : Map K V := ⟨m.alist.erase k⟩

def contains (k : K) : Bool := (m.get? k).isSome

def modify (k : K) (f : V → V) : Map K V :=
  match m.get? k with
  | none => m
  | some v => m.insert k (f v)

def filter (p : K → V → Bool) : Map K V :=
  ⟨⟨m.alist.entries.filter (fun e => p e.1 e.2),
    m.alist.nodupKeys.sublist filter_sublist⟩⟩

end

/-! ## Lookups -/

@[simp] theorem get?_empty (k : K) : (∅ : Map K V).get? k = none := rfl

section

variable (m : Map K V)

@[simp] theorem get?_insert (k k' : K) (v : V) :
    (m.insert k v).get? k' = if k' = k then some v else m.get? k' := by
  by_cases h : k' = k
  · subst h
    simp [get?, insert]
  · simp [get?, insert, h]

@[simp] theorem get?_erase (k k' : K) :
    (m.erase k).get? k' = if k' = k then none else m.get? k' := by
  by_cases h : k' = k
  · subst h
    simp [get?, erase]
  · simp [get?, erase, h]

@[simp] theorem get?_modify (k k' : K) (f : V → V) :
    (m.modify k f).get? k' = if k' = k then (m.get? k').map f else m.get? k' := by
  unfold modify
  cases h : m.get? k with
  | none | some =>
    by_cases hk : k' = k
    · subst hk
      simp [h]
    · simp [hk]

theorem contains_insert_eq_update (k : K) (v : V) :
    (m.insert k v).contains = Function.update m.contains k true := by
  funext k'
  by_cases h : k' = k <;> simp [contains, h]

theorem contains_erase_eq_update (k : K) :
    (m.erase k).contains = Function.update m.contains k false := by
  funext k'
  by_cases h : k' = k <;> simp [contains, h]

end

variable {m : Map K V} {k k' : K} {v : V}

theorem get?_of_erase (h : (m.erase k).get? k' = some v) : m.get? k' = some v := by
  rw [get?_erase] at h
  split at h
  · cases h
  · exact h

theorem contains_of_erase (h : (m.erase k).contains k' = true) : m.contains k' = true := by
  rw [contains_erase_eq_update, update_apply] at h
  split at h
  · cases h
  · exact h

theorem contains_insert_of (h : m.contains k' = true) : (m.insert k v).contains k' = true := by
  rw [contains, get?_insert]
  split
  · rfl
  · exact h

theorem eq_or_contains_of_insert
    (h : (m.insert k v).contains k' = true) : k' = k ∨ m.contains k' = true := by
  rw [contains_insert_eq_update, update_apply] at h
  split at h
  · next heq => exact .inl heq
  · exact .inr h

@[simp] theorem contains_modify (m : Map K V) (k : K) (f : V → V) :
    (m.modify k f).contains = m.contains := by
  funext k'
  by_cases h : k' = k <;> simp [contains, h]

theorem erase_insert_of_get?_eq_none (v : V) (h : m.get? k = none) :
    (m.insert k v).erase k = m := by
  have hnot : k ∉ m.alist := lookup_eq_none.mp h
  refine congrArg Map.mk (ext ?_)
  show List.kerase k (m.alist.insert k v).entries = m.alist.entries
  rw [entries_insert_of_notMem hnot]
  exact kerase_cons_eq rfl

theorem erase_of_get?_eq_none (h : m.get? k = none) : m.erase k = m := by
  have hnot : k ∉ m.alist.entries.keys := lookup_eq_none.mp h
  unfold erase
  congr 1
  exact AList.ext (kerase_of_notMem_keys hnot)

theorem mem_keys : k ∈ m.keys ↔ ∃ v, m.get? k = some v := by
  rw [keys, ← AList.mem_keys, ← AList.lookup_isSome, isSome_iff_exists]
  rfl

theorem contains_iff : m.contains k = true ↔ ∃ v, m.get? k = some v := by
  rw [contains, isSome_iff_exists]

theorem get?_eq_none_of_contains (h : ¬ m.contains k = true) : m.get? k = none := by
  rwa [contains, not_isSome_iff_eq_none] at h

theorem get?_eq_some_iff_mem : m.get? k = some v ↔ Sigma.mk k v ∈ m.alist.entries :=
  mem_lookup_iff

@[simp] theorem get?_filter (m : Map K V) (p : K → V → Bool) (k : K) :
    (m.filter p).get? k = (m.get? k).filter (p k) := by
  ext v
  rw [filter_eq_some_iff, get?_eq_some_iff_mem, get?_eq_some_iff_mem]
  simp [filter]

theorem mem_values_of_get? (h : m.get? k = some v) : v ∈ m.values :=
  mem_map.mpr ⟨_, get?_eq_some_iff_mem.mp h, rfl⟩

/-! ## Sizes -/

theorem size_le_of_contains {m' : Map K V}
    (h : ∀ k, m'.contains k = true → m.contains k = true) : m'.size ≤ m.size := by
  refine (subperm_of_subset m'.keys_nodup ?_).length_le
  intro k hk
  exact mem_keys.mpr (contains_iff.mp (h k (contains_iff.mpr (mem_keys.mp hk))))

theorem size_insert_le (m : Map K V) (k : K) (v : V) : (m.insert k v).size ≤ m.size + 1 := by
  show (m.insert k v).keys.length ≤ (k :: m.keys).length
  refine (subperm_of_subset (m.insert k v).keys_nodup ?_).length_le
  intro k' hk'
  obtain ⟨v', hv'⟩ := mem_keys.mp hk'
  rw [get?_insert] at hv'
  split at hv'
  · next heq => exact heq ▸ mem_cons_self
  · exact mem_cons_of_mem k (mem_keys.mpr ⟨v', hv'⟩)

/-! ## Stored values -/

theorem values_insert_of_get?_eq_none (v : V) (hk : m.get? k = none) :
    (m.insert k v).values = v :: m.values := by
  have hnot : k ∉ m.alist := lookup_eq_none.mp hk
  rw [values, insert, entries_insert_of_notMem hnot]
  rfl

theorem values_perm_erase (h : m.get? k = some v) : m.values.Perm (v :: (m.erase k).values) := by
  have hmem : Sigma.mk k v ∈ m.alist.entries := get?_eq_some_iff_mem.mp h
  obtain ⟨b, l₁, l₂, -, hl, he⟩ := exists_of_kerase (mem_keys_of_mem hmem)
  have hb : b = v := by
    have hbm : Sigma.mk k b ∈ m.alist.entries := by rw [hl]; simp
    exact m.alist.nodupKeys.eq_of_mk_mem hbm hmem
  subst hb
  have hval : m.values = l₁.map snd ++ b :: l₂.map snd := by
    rw [values, hl]
    simp
  have herase : (m.erase k).values = l₁.map snd ++ l₂.map snd := by
    show (m.alist.entries.kerase k).map snd = _
    rw [he, map_append]
  rw [hval, herase]
  exact perm_middle

/-! ## Counters keyed by a map -/

section

variable (m : Map K Nat)

/-- The counter stored under `k`; an absent key counts as zero. -/
def count (k : K) : Nat := (m.get? k).getD 0

theorem count_insert (k k' : K) (n : Nat) :
    count (m.insert k n) k' = if k' = k then n else count m k' := by
  by_cases h : k' = k <;> simp [count, h]

/-- Take `n` off the counter under `k`; the key goes away when nothing is left. -/
def lower (k : K) (n : Nat) : Map K Nat :=
  match m.get? k with
  | none => m
  | some v => if v ≤ n then m.erase k else m.insert k (v - n)

/-- Lowering a counter subtracts from that counter and leaves the others alone,
    whether the key is dropped, kept or was never there. -/
theorem count_lower (k k' : K) (n : Nat) :
    count (lower m k n) k' = if k' = k then count m k' - n else count m k' := by
  unfold lower
  by_cases hk : k' = k
  · subst hk
    cases h : m.get? k' with
    | none => simp [count, h]
    | some v =>
      simp only [if_true]
      split
      · next hle => grind [count, get?_erase]
      · simp [count, h]
  · cases h : m.get? k with
    | none => simp [hk]
    | some v =>
      simp only
      split <;> simp [count, hk]

end

end Map

abbrev KeySet (K : Type*) := Map K Unit

end Library
