/-
  WebTransportBun.Wasm.Qpack.Integers

  `qpack_int_decode` (`crates/wasm/src/h3.rs`) against the integers of RFC 7541,
  section 5.1.  `Denotes` is the RFC's reading of a byte string, with no word size.

  The decoder shifts the groups into a 64-bit word.  Nine groups fit; of the tenth only
  the lowest bit does, and the others fall off without an error (`LosesBits`).
-/

import WebTransportBun.Wasm.Qpack.Prim

namespace WebTransportBun.Wasm.Qpack

open List Nat

/-- The bytes that ask for another one. -/
def Continues (b : UInt8) : Prop := b &&& 0x80 ≠ 0

instance : DecidablePred Continues := fun b => inferInstanceAs (Decidable (b &&& 0x80 ≠ 0))

/-- The number in the low seven bits of the bytes, lowest group first. -/
def groupsValue : Bytes → Nat
  | [] => 0
  | b :: rest => b.toNat % 128 + 128 * groupsValue rest

/-- RFC 7541, section 5.1: the integer with an `n`-bit first group that the bytes are. -/
inductive Denotes (n : Nat) : Bytes → Nat → Prop
  | short {b : UInt8} (h : b.toNat % 2 ^ n < 2 ^ n - 1) : Denotes n [b] (b.toNat % 2 ^ n)
  | long {b last : UInt8} {groups : Bytes} (h : b.toNat % 2 ^ n = 2 ^ n - 1)
      (hgroups : ∀ g ∈ groups, Continues g) (hlast : ¬ Continues last) :
      Denotes n (b :: (groups ++ [last])) (2 ^ n - 1 + groupsValue (groups ++ [last]))

theorem Denotes.unique {n v v' : Nat} {bytes : Bytes} (h : Denotes n bytes v)
    (h' : Denotes n bytes v') : v = v' := by
  cases h with
  | short hb =>
    generalize hbytes : [_] = bytes at h'
    cases h' with
    | short => rw [(cons.inj hbytes).1]
    | long => simp at hbytes
  | long hb hgroups hlast =>
    generalize hbytes : _ :: (_ ++ [_]) = bytes at h'
    cases h' with
    | short => simp at hbytes
    | long => rw [(cons.inj hbytes).2]

/-- The encodings whose value is cut: nine more groups follow the first one, and the last
    one has bits beyond the lowest, without which the sum is a `u64`. -/
inductive LosesBits (n : Nat) : Bytes → Prop
  | intro {b last : UInt8} {groups rest : Bytes} (h : b.toNat % 2 ^ n = 2 ^ n - 1)
      (hgroups : ∀ g ∈ groups, Continues g) (hlen : groups.length = 9) (hlast : ¬ Continues last)
      (hbits : 2 ≤ last.toNat)
      (hfits : 2 ^ n - 1 + (groupsValue groups + last.toNat % 2 * 2 ^ 63) < 2 ^ 64) :
      LosesBits n (b :: (groups ++ last :: rest))

/-! ## Groups -/

theorem and_low7 (b : UInt8) : (b.toNat &&& 0x7f) = b.toNat % 128 :=
  and_two_pow_sub_one_eq_mod b.toNat 7

theorem toNat_lt_of_not_continues {b : UInt8} (h : ¬ Continues b) : b.toNat < 128 := by
  by_contra hge
  have hhigh : b.toNat.testBit 7 = true := by
    rw [testBit_eq_decide_div_mod_eq]
    have hlt := b.toNat_lt
    simp only [decide_eq_true_eq]
    omega
  have hbit : (b &&& 0x80).toNat.testBit 7 = true := by
    rw [UInt8.toNat_and, testBit_and, hhigh]
    rfl
  rw [Decidable.not_not.mp h] at hbit
  cases hbit

theorem groupsValue_append (groups more : Bytes) :
    groupsValue (groups ++ more) = groupsValue groups + 128 ^ groups.length * groupsValue more := by
  induction groups with
  | nil => simp [groupsValue]
  | cons b groups ih =>
    rw [cons_append, groupsValue, groupsValue, ih, length_cons]
    ring

theorem groupsValue_lt (groups : Bytes) : groupsValue groups < 128 ^ groups.length := by
  induction groups with
  | nil => decide
  | cons b groups ih =>
    rw [groupsValue, length_cons]
    omega

/-! ## The loop -/

variable {value m i : Nat}

/-- Groups that ask for more and fit the word go into the sum. -/
theorem qpackIntDecodeLoop_groups {groups rest : Bytes}
    (hgroups : ∀ g ∈ groups, Continues g) (hshift : m + 7 * groups.length ≤ 63)
    (hsum : value + groupsValue groups * 2 ^ m < 2 ^ 64) :
    qpackIntDecodeLoop (groups ++ rest) value m i =
      qpackIntDecodeLoop rest (value + groupsValue groups * 2 ^ m) (m + 7 * groups.length)
        (i + groups.length) := by
  induction groups generalizing value m i with
  | nil => simp [groupsValue]
  | cons b groups ih =>
    obtain ⟨hb, hgroups⟩ := forall_mem_cons.mp hgroups
    rw [length_cons] at hshift
    have hsplit : groupsValue (b :: groups) * 2 ^ m =
        b.toNat % 128 * 2 ^ m + groupsValue groups * 2 ^ (m + 7) := by
      rw [groupsValue]
      ring
    have hgroup : (b.toNat &&& 0x7f) <<< m % 2 ^ 64 = b.toNat % 128 * 2 ^ m := by
      rw [and_low7, shiftLeft_eq, mod_eq_of_lt (by omega)]
    rw [cons_append, qpackIntDecodeLoop]
    rw [if_neg (by omega), if_neg hb, if_neg (by omega), ih hgroups (by omega) (by omega),
      length_cons]
    congr 1 <;> omega

theorem qpackIntDecodeLoop_last {last : UInt8} {rest : Bytes} (hlast : ¬ Continues last) :
    qpackIntDecodeLoop (last :: rest) value m i =
      if 2 ^ 64 ≤ value + last.toNat * 2 ^ m % 2 ^ 64 then none
      else some (value + last.toNat * 2 ^ m % 2 ^ 64, i + 1) := by
  have hlt := toNat_lt_of_not_continues hlast
  rw [qpackIntDecodeLoop, and_low7, mod_eq_of_lt hlt, shiftLeft_eq,
    if_pos (Decidable.not_not.mp hlast)]

/-- What the loop has read when it returns. -/
theorem exists_groups_of_loop {buf : Bytes} {v k : Nat} (hm : m ≤ 63)
    (h : qpackIntDecodeLoop buf value m i = some (v, k)) :
    ∃ groups last rest, buf = groups ++ last :: rest ∧ (∀ g ∈ groups, Continues g) ∧
      ¬ Continues last ∧ k = i + groups.length + 1 ∧ m + 7 * groups.length ≤ 63 := by
  induction buf generalizing value m i with
  | nil => cases h
  | cons b buf ih =>
    rw [qpackIntDecodeLoop] at h
    split at h
    · cases h
    split at h
    · next hstop =>
      cases h
      exact ⟨[], b, buf, rfl, by simp, fun hb => hb hstop, rfl, hm⟩
    next hb =>
    split at h
    · cases h
    · obtain ⟨groups, last, rest, rfl, hgroups, hlast, rfl, hshift⟩ := ih (by omega) h
      refine ⟨b :: groups, last, rest, rfl, forall_mem_cons.mpr ⟨hb, hgroups⟩, hlast, ?_, ?_⟩
      · rw [length_cons]
        omega
      · rw [length_cons]
        omega

/-! ## The decoder -/

section Decoder

variable {n : Nat} {b last : UInt8} {groups rest : Bytes}

/-- An integer of more than one byte, as the decoder reads it. -/
theorem qpackIntDecode_long (hn : n ≤ 8) (hb : b.toNat % 2 ^ n = 2 ^ n - 1)
    (hgroups : ∀ g ∈ groups, Continues g) (hlen : groups.length ≤ 9) (hlast : ¬ Continues last)
    (rest : Bytes) :
    qpackIntDecode (b :: (groups ++ last :: rest)) n =
      if 2 ^ 64 ≤ 2 ^ n - 1 + groupsValue groups + last.toNat * 128 ^ groups.length % 2 ^ 64
        then none
      else some (2 ^ n - 1 + groupsValue groups + last.toNat * 128 ^ groups.length % 2 ^ 64,
        groups.length + 2) := by
  have hpow : 2 ^ n ≤ 2 ^ 8 := Nat.pow_le_pow_right (by decide) hn
  have hvalue : groupsValue groups < 128 ^ 9 :=
    lt_of_lt_of_le (groupsValue_lt groups) (Nat.pow_le_pow_right (by decide) hlen)
  have hshift : 2 ^ (0 + 7 * groups.length) = 128 ^ groups.length := by
    rw [zero_add, pow_mul]
    rfl
  rw [qpackIntDecode, and_two_pow_sub_one_eq_mod, hb, if_neg (lt_irrefl _),
    qpackIntDecodeLoop_groups hgroups (by omega) (by omega), qpackIntDecodeLoop_last hlast, hshift,
    pow_zero, mul_one, add_comm 1 groups.length]

theorem qpackIntDecode_short (hb : b.toNat % 2 ^ n < 2 ^ n - 1) :
    qpackIntDecode (b :: rest) n = some (b.toNat % 2 ^ n, 1) := by
  rw [qpackIntDecode, and_two_pow_sub_one_eq_mod, if_pos hb]

theorem shape_of_qpackIntDecode {buf : Bytes} {v k : Nat} (h : qpackIntDecode buf n = some (v, k)) :
    (∃ b rest, buf = b :: rest ∧ b.toNat % 2 ^ n < 2 ^ n - 1) ∨
      ∃ b groups last rest, buf = b :: (groups ++ last :: rest) ∧ b.toNat % 2 ^ n = 2 ^ n - 1 ∧
        (∀ g ∈ groups, Continues g) ∧ ¬ Continues last ∧ groups.length ≤ 9 := by
  cases buf with
  | nil => cases h
  | cons b buf =>
    rw [qpackIntDecode, and_two_pow_sub_one_eq_mod] at h
    split at h
    · next hshort => exact .inl ⟨b, buf, rfl, hshort⟩
    · next hlong =>
      obtain ⟨groups, last, rest, rfl, hgroups, hlast, -, hshift⟩ :=
        exists_groups_of_loop (by omega) h
      exact .inr ⟨b, groups, last, rest, rfl, by omega, hgroups, hlast, by omega⟩

theorem take_long (k : Nat) (hk : k = groups.length + 2) :
    (b :: (groups ++ last :: rest)).take k = b :: (groups ++ [last]) := by
  subst hk
  rw [take_succ_cons, take_length_add_append]
  rfl

theorem last_group_fits (hlen : groups.length ≤ 9) (hlt : last.toNat < 128)
    (h : groups.length = 9 → last.toNat < 2) : last.toNat * 128 ^ groups.length < 2 ^ 64 := by
  rcases lt_or_eq_of_le hlen with hlen | hlen
  · have hpow : 128 ^ groups.length ≤ 128 ^ 8 := Nat.pow_le_pow_right (by decide) (by omega)
    calc last.toNat * 128 ^ groups.length ≤ last.toNat * 128 ^ 8 := mul_le_mul_left _ hpow
      _ < 2 ^ 64 := by omega
  · grind

/-- Decoding is exact up to the bits the tenth group loses. -/
theorem denotes_iff_not_losesBits (hn : n ≤ 8) (buf : Bytes) :
    (∀ v k, qpackIntDecode buf n = some (v, k) → Denotes n (buf.take k) v) ↔ ¬ LosesBits n buf := by
  constructor
  · rintro hexact ⟨hb, hgroups, hlen, hlast, hbits, hfits⟩
    rename_i b last groups rest
    have hlt := toNat_lt_of_not_continues hlast
    have hdecode := qpackIntDecode_long hn hb hgroups (le_of_eq hlen) hlast rest
    -- what is left of the tenth group is its lowest bit
    have hcut : last.toNat * 128 ^ groups.length % 2 ^ 64 = last.toNat % 2 * 2 ^ 63 := by
      rw [hlen]
      omega
    rw [if_neg (by omega)] at hdecode
    have hdenotes := hexact _ _ hdecode
    rw [take_long _ rfl] at hdenotes
    have hvalue := hdenotes.unique (.long hb hgroups hlast)
    rw [groupsValue_append, hlen] at hvalue
    simp only [groupsValue] at hvalue
    omega
  · intro hkeeps v k h
    rcases shape_of_qpackIntDecode h with ⟨b, rest, rfl, hb⟩ |
      ⟨b, groups, last, rest, rfl, hb, hgroups, hlast, hlen⟩
    · rw [qpackIntDecode_short hb] at h
      cases h
      exact .short hb
    · have hlt := toNat_lt_of_not_continues hlast
      rw [qpackIntDecode_long hn hb hgroups hlen hlast rest] at h
      split at h
      · cases h
      next hfits =>
      cases h
      have hbit : groups.length = 9 → last.toNat < 2 := by
        intro hnine
        by_contra hbits
        refine hkeeps (.intro hb hgroups hnine hlast (by omega) ?_)
        rw [hnine] at hfits
        omega
      have hgroup := last_group_fits hlen hlt hbit
      have hvalue : groupsValue (groups ++ [last]) =
          groupsValue groups + last.toNat * 128 ^ groups.length := by
        rw [groupsValue_append, groupsValue, groupsValue, mod_eq_of_lt hlt]
        ring
      rw [take_long _ rfl, mod_eq_of_lt hgroup, add_assoc, ← hvalue]
      exact .long hb hgroups hlast

end Decoder

/-- Every `u64` comes back from its encoding under any flag bits.  What is decoded from any
    bytes is the integer they denote exactly if the tenth group has no bits to lose. -/
theorem qpackInt_exact_iff {n : Nat} (hn : 1 ≤ n ∧ n ≤ 8) :
    (∀ (flags : UInt8) (value : UInt64) (rest : Bytes), flags.toNat % 2 ^ n = 0 →
      qpackIntDecode (qpackInt flags n value.toNat ++ rest) n =
        some (value.toNat, (qpackInt flags n value.toNat).length)) ∧
      ∀ buf, (∀ v k, qpackIntDecode buf n = some (v, k) → Denotes n (buf.take k) v) ↔
        ¬ LosesBits n buf := by
  refine ⟨fun flags value rest hflags => ?_, denotes_iff_not_losesBits hn.2⟩
  exact qpackIntDecode_qpackInt flags hn.2 hflags value.toNat_lt rest

/-- The largest `u64` behind a 3-bit first group, and an integer of two bytes. -/
theorem qpackInt_exact_iff_largest :
    qpackIntDecode (qpackInt 0x20 3 (2 ^ 64 - 1) ++ [0xff]) 3 = some (2 ^ 64 - 1, 11) ∧
      Denotes 3 [0x07, 0x05] 12 := by
  obtain ⟨hround, hexact⟩ := qpackInt_exact_iff (n := 3) (by decide)
  constructor
  · have hlen : (qpackInt 0x20 3 (2 ^ 64 - 1)).length = 11 := by decide
    have hdecode := hround 0x20 0xffffffffffffffff [0xff] (by decide)
    exact hdecode.trans (congrArg some (congrArg (Prod.mk _) hlen))
  · refine (hexact [0x07, 0x05]).mpr ?_ 12 2 (by decide)
    -- two bytes are not eleven
    generalize hbytes : [(0x07 : UInt8), 0x05] = bytes
    rintro ⟨-, -, hlen, -, -, -⟩
    have hshort := congrArg length hbytes
    simp only [length_cons, length_append, length_nil] at hshort
    omega

/-- `127 + 2 * 2 ^ 63` is decoded as 127. -/
theorem tenth_group_cut :
    qpackIntDecode [0x7f, 0x80, 0x80, 0x80, 0x80, 0x80, 0x80, 0x80, 0x80, 0x80, 0x02] 7 =
        some (127, 11) ∧
      Denotes 7 [0x7f, 0x80, 0x80, 0x80, 0x80, 0x80, 0x80, 0x80, 0x80, 0x80, 0x02]
        (127 + 2 ^ 64) := by
  refine ⟨by decide, ?_⟩
  have hgroups : ∀ g ∈ replicate 9 (0x80 : UInt8), Continues g := by
    intro g hg
    rw [eq_of_mem_replicate hg]
    decide
  have hlast : ¬ Continues 0x02 := by decide
  exact Denotes.long (by decide) hgroups hlast

end WebTransportBun.Wasm.Qpack
