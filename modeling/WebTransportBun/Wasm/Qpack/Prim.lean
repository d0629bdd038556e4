/-
  WebTransportBun.Wasm.Qpack.Prim

  QPACK primitives of `crates/wasm/src/h3.rs`: integers with an N-bit prefix
  (`qpack_int` / `qpack_int_decode`) and string literals (`read_qpack_string` /
  `decode_qpack_bytes`).

  For both the file proves that decoding inverts encoding and that a cut-off
  encoding decodes to nothing.  Huffman decoding is done by a crate outside the
  repository; it is the parameter `huffman`, and our encoders never set the flag.
-/

import WebTransportBun.Wasm.Limits
import WebTransportBun.Wasm.Varint

namespace WebTransportBun.Wasm.Qpack

open Library List Option Nat

/-! ## Integers -/

/-- The continuation bytes of `qpack_int`: seven bits each, lowest first.  A `u64` has at
    most ten groups, which bounds the loop. -/
def qpackIntTail : Nat → Nat → Bytes
  | 0, _ => []
  | fuel + 1, v =>
    if 128 ≤ v then ((UInt8.ofNat v &&& 0x7f) ||| 0x80) :: qpackIntTail fuel (v >>> 7)
    else [UInt8.ofNat v]

/-- `qpack_int`: `value` behind the high bits `pattern`, in an `n`-bit first group. -/
def qpackInt (pattern : UInt8) (n value : Nat) : Bytes :=
  let max := 2 ^ n - 1
  if value < max then [pattern ||| UInt8.ofNat value]
  else (pattern ||| UInt8.ofNat max) :: qpackIntTail 10 (value - max)

/-- The loop of `qpack_int_decode` over the continuation bytes.  The sum is a checked
    `u64` addition; the shift drops bits beyond the word, as `checked_shl` does. -/
def qpackIntDecodeLoop : Bytes → Nat → Nat → Nat → Option (Nat × Nat)
  | [], _, _, _ => none
  | b :: rest, value, m, i =>
    let shifted := (b.toNat &&& 0x7f) <<< m % 2 ^ 64
    let value := value + shifted
    if 2 ^ 64 ≤ value then none
    else if b &&& 0x80 = 0 then some (value, i + 1)
    else if 64 ≤ m + 7 then none
    else qpackIntDecodeLoop rest value (m + 7) (i + 1)

def qpackIntDecode (buf : Bytes) (n : Nat) : Option (Nat × Nat) :=
  match buf with
  | [] => none
  | b :: rest =>
    let max := 2 ^ n - 1
    let first := b.toNat &&& max
    if first < max then some (first, 1) else qpackIntDecodeLoop rest max 0 1

/-! ### Bits of a byte -/

theorem byte_or_and_self (b c : UInt8) : (b ||| c) &&& c = c := by
  apply UInt8.toBitVec_inj.mp
  ext i hi
  simp only [UInt8.toBitVec_and, UInt8.toBitVec_or, BitVec.getElem_and, BitVec.getElem_or]
  cases c.toBitVec[i] <;> simp

theorem toNat_low7 (v : Nat) : (UInt8.ofNat v &&& 0x7f).toNat = v % 128 := by
  have hmask : (0x7f : UInt8).toNat = 2 ^ 7 - 1 := rfl
  rw [UInt8.toNat_and, hmask, and_two_pow_sub_one_eq_mod, UInt8.toNat_ofNat']
  omega

theorem continuation_byte (v : Nat) :
    (((UInt8.ofNat v &&& 0x7f) ||| 0x80).toNat &&& 0x7f) = v % 128 ∧
      ((UInt8.ofNat v &&& 0x7f) ||| 0x80) &&& 0x80 ≠ 0 := by
  have hlow := toNat_low7 v
  have hlt : (UInt8.ofNat v &&& 0x7f).toNat < 2 ^ 7 := by omega
  have hor : ((UInt8.ofNat v &&& 0x7f) ||| 0x80).toNat = 2 ^ 7 * 1 + v % 128 := by
    rw [UInt8.toNat_or, Nat.or_comm, ← hlow, Nat.two_pow_add_eq_or_of_lt hlt 1]
    rfl
  constructor
  · have hmod : (2 ^ 7 * 1 + v % 128) &&& 0x7f = (2 ^ 7 * 1 + v % 128) % 2 ^ 7 :=
      and_two_pow_sub_one_eq_mod _ 7
    rw [hor]
    omega
  · rw [byte_or_and_self]
    decide

theorem final_byte {v : Nat} (h : v < 128) :
    ((UInt8.ofNat v).toNat &&& 0x7f) = v ∧ UInt8.ofNat v &&& 0x80 = 0 := by
  have hv : (UInt8.ofNat v).toNat = v := by
    rw [UInt8.toNat_ofNat']
    omega
  constructor
  · have hmod : v &&& 0x7f = v % 2 ^ 7 := and_two_pow_sub_one_eq_mod _ 7
    rw [hv]
    omega
  · have hall : ∀ x : Fin 128, UInt8.ofNat x &&& 0x80 = 0 := by decide
    exact hall ⟨v, h⟩

/-! ### Round trip -/

/-- Reading the continuation bytes of `v` at shift `m` adds `v * 2 ^ m`. -/
theorem qpackIntDecodeLoop_tail {fuel v value m i : Nat} (hv : v < 128 ^ fuel)
    (hfuel : 0 < fuel) (hsum : value + v * 2 ^ m < 2 ^ 64) (rest : Bytes) :
    qpackIntDecodeLoop (qpackIntTail fuel v ++ rest) value m i =
      some (value + v * 2 ^ m, i + (qpackIntTail fuel v).length) := by
  induction fuel generalizing v value m i with
  | zero => omega
  | succ fuel ih =>
    by_cases hbig : 128 ≤ v
    · obtain ⟨hbits, hcont⟩ := continuation_byte v
      -- The group read here and the rest of the number add up to the whole.
      have hsplit : v % 128 * 2 ^ m + v / 128 * 2 ^ (m + 7) = v * 2 ^ m := by
        have hdiv := div_add_mod v 128
        calc v % 128 * 2 ^ m + v / 128 * 2 ^ (m + 7)
            = (128 * (v / 128) + v % 128) * 2 ^ m := by rw [pow_add]; ring
          _ = v * 2 ^ m := by rw [hdiv]
      have hshift : m + 7 < 64 := by
        by_contra hle
        have h1 : 2 ^ 64 ≤ 128 * 2 ^ m := by
          rw [show (128 : Nat) = 2 ^ 7 by rfl, ← pow_add]
          exact Nat.pow_le_pow_right (by decide) (by omega)
        have h2 : 128 * 2 ^ m ≤ v * 2 ^ m := mul_le_mul_right _ hbig
        omega
      have hgroup : (v % 128) <<< m % 2 ^ 64 = v % 128 * 2 ^ m := by
        omega
      have hfuel' : 0 < fuel := by grind
      have hv' : v / 128 < 128 ^ fuel := by
        rw [pow_succ] at hv
        exact Nat.div_lt_of_lt_mul (by rwa [mul_comm] at hv)
      have hrec := @ih (v / 128) (value + v % 128 * 2 ^ m) (m + 7) (i + 1) hv' hfuel' (by omega)
      have hshr : v >>> 7 = v / 128 := shiftRight_eq_div_pow v 7
      rw [qpackIntTail, if_pos hbig, cons_append, qpackIntDecodeLoop, hshr]
      simp only [hbits, hgroup]
      rw [if_neg (by omega), if_neg hcont, if_neg (by omega), hrec, length_cons]
      simp only [some.injEq, Prod.mk.injEq]
      omega
    · obtain ⟨hbits, hlast⟩ := final_byte (v := v) (by omega)
      have hgroup : v <<< m % 2 ^ 64 = v * 2 ^ m := by
        omega
      rw [qpackIntTail, if_neg hbig, singleton_append, qpackIntDecodeLoop]
      simp only [hbits, hgroup]
      rw [if_neg (by omega), if_pos hlast, length_singleton]

variable {p : Bytes}

/-- Every byte of cut-off continuation bytes asks for another one. -/
theorem qpackIntDecodeLoop_cut {fuel v value m i : Nat}
    (hp : Cut p (qpackIntTail fuel v)) : qpackIntDecodeLoop p value m i = none := by
  induction fuel generalizing v value m i p with
  | zero => exact absurd (prefix_nil.mp hp.1) hp.2
  | succ fuel ih =>
    cases p with
    | nil => rfl
    | cons b p =>
      obtain ⟨hpre, hne⟩ := hp
      rw [qpackIntTail] at hpre hne
      split at hpre
      · next hbig =>
        rw [if_pos hbig] at hne
        obtain ⟨rfl, hpre'⟩ := cons_prefix_cons.mp hpre
        have hne' : p ≠ qpackIntTail fuel (v >>> 7) := fun h => hne (by rw [h])
        rw [qpackIntDecodeLoop]
        simp only [(continuation_byte v).2, if_false]
        split
        · rfl
        · split
          · rfl
          · exact ih ⟨hpre', hne'⟩
      · next hsmall => grind

theorem qpackInt_eq_cons (pattern : UInt8) (n value : Nat) :
    ∃ x tail, x < 2 ^ n ∧ qpackInt pattern n value = (pattern ||| UInt8.ofNat x) :: tail := by
  have hpos : 0 < 2 ^ n := Nat.two_pow_pos n
  unfold qpackInt
  simp only
  split
  · exact ⟨value, [], by omega, rfl⟩
  · exact ⟨2 ^ n - 1, _, by omega, rfl⟩

theorem pattern_group {pattern : UInt8} {n x : Nat} (hn : n ≤ 8)
    (hpat : pattern.toNat % 2 ^ n = 0) (hx : x < 2 ^ n) :
    ((pattern ||| UInt8.ofNat x).toNat &&& 2 ^ n - 1) = x := by
  have hle : 2 ^ n ≤ 2 ^ 8 := Nat.pow_le_pow_right (by decide) hn
  have hbyte : (UInt8.ofNat x).toNat = x := by
    rw [UInt8.toNat_ofNat']
    omega
  rw [and_two_pow_sub_one_eq_mod, UInt8.toNat_or, hbyte, or_mod_two_pow, hpat,
    zero_or, mod_eq_of_lt hx]

/-- Decoding returns the encoded integer, whatever follows it. -/
theorem qpackIntDecode_qpackInt (pattern : UInt8) {n value : Nat} (hn : n ≤ 8)
    (hpat : pattern.toNat % 2 ^ n = 0) (hv : value < 2 ^ 64) (rest : Bytes) :
    qpackIntDecode (qpackInt pattern n value ++ rest) n =
      some (value, (qpackInt pattern n value).length) := by
  unfold qpackInt
  simp only
  split
  · next hlt =>
    have hgroup := pattern_group hn hpat (x := value) (by omega)
    simp only [singleton_append, qpackIntDecode, hgroup]
    rw [if_pos hlt]
    rfl
  · next hge =>
    have hgroup := pattern_group hn hpat (x := 2 ^ n - 1) (by omega)
    have htail :=
      @qpackIntDecodeLoop_tail 10 (value - (2 ^ n - 1)) (2 ^ n - 1) 0 1 (by omega) (by decide)
      (by omega) rest
    simp only [cons_append, qpackIntDecode, hgroup]
    rw [if_neg (lt_irrefl _), htail, length_cons]
    simp only [some.injEq, Prod.mk.injEq]
    omega

theorem qpackIntDecode_cut {pattern : UInt8} {n value : Nat} (hn : n ≤ 8)
    (hpat : pattern.toNat % 2 ^ n = 0)
    (hp : Cut p (qpackInt pattern n value)) : qpackIntDecode p n = none := by
  obtain ⟨hpre, hne⟩ := hp
  cases p with
  | nil => rfl
  | cons b p =>
    unfold qpackInt at hpre hne
    simp only at hpre hne
    split at hpre
    · next hlt => grind
    · next hge =>
      obtain ⟨rfl, hpre'⟩ := cons_prefix_cons.mp hpre
      rw [if_neg hge] at hne
      have hgroup := pattern_group hn hpat (x := 2 ^ n - 1) (by omega)
      simp only [qpackIntDecode, hgroup]
      rw [if_neg (lt_irrefl _)]
      exact qpackIntDecodeLoop_cut ⟨hpre', fun h => hne (by rw [h])⟩

/-! ## Strings -/

def strBytes (s : String) : Bytes := s.toUTF8.data.toList

def fromUtf8 (raw : Bytes) : Option String := String.fromUTF8? ⟨raw.toArray⟩

@[simp] theorem fromUtf8_strBytes (s : String) : fromUtf8 (strBytes s) = some s := by
  exact dif_pos s.isValidUTF8

def letters (n : Nat) : String := String.ofList (List.replicate n 'a')

theorem length_strBytes_letters (n : Nat) : (strBytes (letters n)).length = n := by
  have hsize : ∀ n, (List.replicate n 'a').utf8Encode.size = n := by
    intro n
    induction n with
    | zero => rfl
    | succ n ih =>
      rw [replicate_succ, utf8Encode_cons, ByteArray.size_append, ih]
      exact add_comm 1 n
  calc (strBytes (letters n)).length = (letters n).toByteArray.size := Array.length_toList
    _ = (List.replicate n 'a').utf8Encode.size := by rw [letters, String.toByteArray_ofList]
    _ = n := hsize n

/-- A string literal without Huffman coding: a 7-bit length, then the bytes. -/
def qpackString (s : String) : Bytes := qpackInt 0x00 7 (strBytes s).length ++ strBytes s

section

variable (huffman : Bytes → Option Bytes)

def decodeQpackBytes (raw : Bytes) (isHuffman : Bool) : Option String :=
  if isHuffman then (huffman raw).bind fromUtf8 else fromUtf8 raw

def readQpackString (buf : Bytes) : Option (String × Bytes) := do
  let first ← buf.head?
  let (len, n) ← qpackIntDecode buf 7
  let buf := buf.drop n
  guard (len ≤ usizeMax)
  guard (len ≤ buf.length)
  let s ← decodeQpackBytes huffman (buf.take len) (first &&& 0x80 ≠ 0)
  return (s, buf.drop len)

/-- Reading returns the string that was written, and what follows it. -/
theorem readQpackString_qpackString {s : String} (hs : (strBytes s).length ≤ usizeMax)
    (rest : Bytes) : readQpackString huffman (qpackString s ++ rest) = some (s, rest) := by
  have hlen : (strBytes s).length < 2 ^ 64 := by
    unfold usizeMax at hs
    omega
  obtain ⟨x, tail, hx, hcons⟩ := qpackInt_eq_cons 0x00 7 (strBytes s).length
  have hflag : ∀ y : Fin (2 ^ 7), UInt8.ofNat y &&& 0x80 = 0 := by decide
  have hhead : (qpackString s ++ rest).head? = some (0x00 ||| UInt8.ofNat x) := by
    rw [qpackString, hcons]
    rfl
  have hdecode := qpackIntDecode_qpackInt 0x00 (n := 7) (by decide) rfl hlen
    (strBytes s ++ rest)
  have hdrop : (qpackString s ++ rest).drop (qpackInt 0x00 7 (strBytes s).length).length =
      strBytes s ++ rest := by
    rw [qpackString, append_assoc, drop_left]
  rw [← append_assoc, ← qpackString] at hdecode
  simp only [readQpackString, hhead, hdecode, hdrop, bind_eq_bind, bind_some]
  simp [hs, decodeQpackBytes, hflag ⟨x, hx⟩]

theorem readQpackString_cut {s : String} (hs : (strBytes s).length ≤ usizeMax)
    (hp : Cut p (qpackString s)) : readQpackString huffman p = none := by
  have hlen : (strBytes s).length < 2 ^ 64 := by
    unfold usizeMax at hs
    omega
  rcases cut_append hp with hp | ⟨q, rfl, hq⟩
  · simp [readQpackString, qpackIntDecode_cut (by decide) rfl hp]
  · have hdecode := qpackIntDecode_qpackInt 0x00 (n := 7) (by decide) rfl hlen q
    have hshort := hq.length_lt
    simp [readQpackString, hdecode, hshort]

end

end WebTransportBun.Wasm.Qpack
