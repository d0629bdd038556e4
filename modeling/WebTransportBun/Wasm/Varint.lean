/-
  WebTransportBun.Wasm.Varint

  QUIC variable-length integers (`crates/wasm/src/varint.rs`) and the length-prefixed
  HTTP/3 frame built from them (`frame_wrap` in `crates/wasm/src/h3.rs`).

  The four branches of the encoder differ only in the two tag bits and the width, so
  the round trip is proved once for a tagged big-endian number (`tagged`) and the
  branches are shown to be instances of it.
-/

import Mathlib.Data.UInt
import Mathlib.Tactic.Ring
import WebTransportBun.Library.Framing

namespace WebTransportBun.Wasm

open Library List

abbrev Bytes := List UInt8

namespace Varint

/-- The low `width` bytes of `v`, most significant first (`to_be_bytes`). -/
def toBeBytes : Nat → Nat → Bytes
  | 0, _ => []
  | width + 1, v => UInt8.ofNat (v / 256 ^ width) :: toBeBytes width v

def encode (value : Nat) : Bytes :=
  if value < 0x40 then [UInt8.ofNat value]
  else if value < 0x4000 then toBeBytes 2 (value ||| 0x4000)
  else if value < 0x40000000 then toBeBytes 4 (value ||| 0x80000000)
  else toBeBytes 8 (value ||| 0xC000000000000000)

def width (value : Nat) : Nat :=
  if value < 0x40 then 1
  else if value < 0x4000 then 2
  else if value < 0x40000000 then 4
  else 8

def decode : Bytes → Option (Nat × Nat)
  | [] => none
  | first :: rest =>
    let len := 1 <<< (first >>> 6).toNat
    if (first :: rest).length < len then none
    else
      let v := (rest.take (len - 1)).foldl (fun v b => v <<< 8 ||| b.toNat)
        (first &&& 0x3f).toNat
      some (v, len)

/-! ## Big-endian numbers -/

@[simp] theorem length_toBeBytes (w v : Nat) : (toBeBytes w v).length = w := by
  induction w with
  | zero => rfl
  | succ w ih => simp [toBeBytes, ih]

theorem shift_or_byte (v : Nat) (b : UInt8) : v <<< 8 ||| b.toNat = v * 256 + b.toNat := by
  have hb : b.toNat < 2 ^ 8 := b.toNat_lt
  rw [Nat.shiftLeft_eq, mul_comm v, ← Nat.two_pow_add_eq_or_of_lt hb]

theorem foldl_toBeBytes (w v acc : Nat) :
    (toBeBytes w v).foldl (fun v b => v <<< 8 ||| b.toNat) acc =
      acc * 256 ^ w + v % 256 ^ w := by
  induction w generalizing acc with
  | zero => simp [toBeBytes, Nat.mod_one]
  | succ w ih =>
    have hbyte : (UInt8.ofNat (v / 256 ^ w)).toNat = v / 256 ^ w % 256 := by
      simp
    have hsplit : v % 256 ^ (w + 1) = v / 256 ^ w % 256 * 256 ^ w + v % 256 ^ w := by
      rw [pow_succ, Nat.mod_mul]
      ring
    rw [toBeBytes, foldl_cons, ih, shift_or_byte, hbyte, hsplit]
    ring

/-! ## Tagged numbers -/

/-- A number of `2 ^ tag` bytes with the tag in its two top bits. -/
def tagged (tag value : Nat) : Bytes :=
  toBeBytes (2 ^ tag) (value + tag * 2 ^ (8 * 2 ^ tag - 2))

variable {value : Nat}

theorem encode_eq_tagged (h : value < 2 ^ 62) :
    ∃ tag, tag < 4 ∧ value < 2 ^ (8 * 2 ^ tag - 2) ∧ width value = 2 ^ tag ∧
      encode value = tagged tag value := by
  have hor : ∀ {n t : Nat}, value < 2 ^ n → value ||| 2 ^ n * t = value + t * 2 ^ n := by
    grind [Nat.two_pow_add_eq_or_of_lt]
  unfold encode width
  split
  · next h0 => exact ⟨0, by decide, h0, rfl, by simp [tagged, toBeBytes]⟩
  · split
    · next h1 => exact ⟨1, by decide, h1, rfl, congrArg (toBeBytes 2) (hor (n := 14) (t := 1) h1)⟩
    · split
      · next h2 => exact ⟨2, by decide, h2, rfl, congrArg (toBeBytes 4) (hor (n := 30) (t := 2) h2)⟩
      · exact ⟨3, by decide, h, rfl, congrArg (toBeBytes 8) (hor (t := 3) h)⟩

theorem tag_byte {tag q : Nat} (htag : tag < 4) (hq : q < 64) :
    (UInt8.ofNat (q + tag * 64) >>> 6).toNat = tag ∧
      (UInt8.ofNat (q + tag * 64) &&& 0x3f).toNat = q := by
  have hbyte : (UInt8.ofNat (q + tag * 64)).toNat = q + tag * 64 := by
    rw [UInt8.toNat_ofNat']
    omega
  constructor
  · grind [Nat.shiftRight_eq_div_pow, UInt8.toNat_shiftRight]
  · rw [UInt8.toNat_and]
    have hmask : (0x3f : UInt8).toNat = 2 ^ 6 - 1 := rfl
    rw [hmask, Nat.and_two_pow_sub_one_eq_mod]
    omega

theorem tag_weight (tag : Nat) : 2 ^ (8 * 2 ^ tag - 2) = 256 ^ (2 ^ tag - 1) * 64 := by
  have hpos : 0 < 2 ^ tag := Nat.two_pow_pos tag
  rw [show (256 : Nat) = 2 ^ 8 by rfl, ← pow_mul, show (64 : Nat) = 2 ^ 6 by rfl, ← pow_add]
  congr 1
  omega

/-- A tagged number starts with a byte that holds the tag and the number's top bits. -/
theorem tagged_eq_cons {tag : Nat} (htag : tag < 4) (hv : value < 2 ^ (8 * 2 ^ tag - 2)) :
    ∃ first : UInt8, (first >>> 6).toNat = tag ∧
      (first &&& 0x3f).toNat = value / 256 ^ (2 ^ tag - 1) ∧ tagged tag value =
        first :: toBeBytes (2 ^ tag - 1) (value + tag * 2 ^ (8 * 2 ^ tag - 2)) := by
  have hpos : 0 < 2 ^ tag := Nat.two_pow_pos tag
  have hq : value / 256 ^ (2 ^ tag - 1) < 64 := by
    rw [tag_weight] at hv
    exact Nat.div_lt_of_lt_mul hv
  have htop : (value + tag * 2 ^ (8 * 2 ^ tag - 2)) / 256 ^ (2 ^ tag - 1) =
      value / 256 ^ (2 ^ tag - 1) + tag * 64 := by
    rw [tag_weight, Nat.mul_left_comm, Nat.add_mul_div_left _ _ (Nat.pow_pos (by decide))]
  obtain ⟨hshift, hmask⟩ := tag_byte htag hq
  refine ⟨UInt8.ofNat (value / 256 ^ (2 ^ tag - 1) + tag * 64), hshift, hmask, ?_⟩
  have hw : 2 ^ tag = 2 ^ tag - 1 + 1 := by omega
  rw [tagged, hw, toBeBytes, ← hw, htop]

/-! ## Round trip -/

@[simp] theorem length_encode (h : value < 2 ^ 62) : (encode value).length = width value := by
  obtain ⟨tag, -, -, hwidth, henc⟩ := encode_eq_tagged h
  rw [henc, hwidth, tagged, length_toBeBytes]

/-- Decoding returns the encoded value, whatever follows it. -/
theorem decode_encode (h : value < 2 ^ 62) (rest : Bytes) :
    decode (encode value ++ rest) = some (value, width value) := by
  obtain ⟨tag, htag, hv, hwidth, henc⟩ := encode_eq_tagged h
  obtain ⟨first, hshift, hmask, hcons⟩ := tagged_eq_cons htag hv
  have hlow : (value + tag * 2 ^ (8 * 2 ^ tag - 2)) % 256 ^ (2 ^ tag - 1) =
      value % 256 ^ (2 ^ tag - 1) := by
    rw [tag_weight, Nat.mul_left_comm, Nat.add_mul_mod_self_left]
  rw [henc, hcons, hwidth, cons_append, decode]
  simp only [hshift, hmask, Nat.one_shiftLeft]
  rw [if_neg (by simp; omega), take_left' (length_toBeBytes _ _), foldl_toBeBytes, hlow,
    Nat.div_add_mod']

variable {buf : Bytes} {v n : Nat}

theorem decode_take (h : decode buf = some (v, n)) :
    0 < n ∧ n ≤ buf.length ∧ decode (buf.take n) = some (v, n) := by
  cases buf with
  | nil => cases h
  | cons first rest =>
    simp only [decode] at h
    split at h
    · cases h
    · next hlen =>
      cases h
      have hpos : 0 < 1 <<< (first >>> 6).toNat := by simp
      refine ⟨hpos, not_lt.mp hlen, ?_⟩
      obtain ⟨m, hm⟩ := Nat.exists_eq_add_one_of_ne_zero hpos.ne'
      rw [hm] at hlen ⊢
      simp only [length_cons, Nat.add_lt_add_iff_right, not_lt] at hlen
      simp only [take_succ_cons, decode, hm, length_cons, length_take,
        min_eq_left hlen, lt_irrefl, if_false, Nat.add_sub_cancel, take_take,
        min_self]

theorem decode_append (h : decode buf = some (v, n)) (rest : Bytes) :
    decode (buf ++ rest) = some (v, n) := by
  cases buf with
  | nil => cases h
  | cons first tail =>
    simp only [decode] at h
    split at h
    · cases h
    · next hlen =>
      cases h
      simp only [length_cons] at hlen
      simp only [cons_append, decode, length_cons, length_append]
      rw [if_neg (by omega), take_append_of_le_length (by omega)]

theorem len_le_eight (first : UInt8) : 1 <<< (first >>> 6).toNat ≤ 8 := by
  have htag : (first >>> 6).toNat < 4 := by
    have hlt := first.toNat_lt
    rw [UInt8.toNat_shiftRight]
    simp only [UInt8.reduceToNat, Nat.reduceMod]
    omega
  rw [Nat.one_shiftLeft]
  calc 2 ^ (first >>> 6).toNat ≤ 2 ^ 3 := Nat.pow_le_pow_right (by decide) (by omega)
    _ = 8 := rfl

theorem decode_le_eight (h : decode buf = some (v, n)) : n ≤ 8 := by
  cases buf with
  | nil => cases h
  | cons first rest =>
    simp only [decode] at h
    split at h
    · cases h
    · cases h
      exact len_le_eight first

theorem length_lt_eight_of_decode (h : decode buf = none) : buf.length < 8 := by
  cases buf with
  | nil => decide
  | cons first rest =>
    simp only [decode] at h
    split at h
    · next hlen => exact lt_of_lt_of_le hlen (len_le_eight first)
    · cases h

theorem foldl_lt (bytes : Bytes) {acc bound : Nat} (h : acc < bound) :
    bytes.foldl (fun v b => v <<< 8 ||| b.toNat) acc < bound * 256 ^ bytes.length := by
  induction bytes generalizing acc bound with
  | nil => simpa using h
  | cons b bytes ih =>
    have hb := b.toNat_lt
    rw [foldl_cons, shift_or_byte, length_cons, pow_succ', ← mul_assoc]
    exact ih (by omega)

/-- Of the encodings of a number that the decoder takes, `encode` writes a shortest one. -/
theorem decode_shortest (h : decode buf = some (v, n)) :
    decode (encode v) = some (v, (encode v).length) ∧ (encode v).length ≤ n := by
  cases buf with
  | nil => cases h
  | cons first rest =>
    simp only [decode] at h
    split at h
    · cases h
    next hlen =>
    cases h
    have hmask : (first &&& 0x3f).toNat < 64 := by
      exact Nat.lt_succ_of_le Nat.and_le_right
    have hv := foldl_lt (rest.take (1 <<< (first >>> 6).toNat - 1)) hmask
    have htag := len_le_eight first
    rw [length_take, min_eq_left (by rw [length_cons] at hlen; omega)] at hv
    generalize (rest.take _).foldl _ _ = v at hv ⊢
    generalize (first >>> 6).toNat = tag at hv htag ⊢
    rw [Nat.one_shiftLeft] at hv htag ⊢
    have hfour : tag < 4 := Nat.lt_succ_of_le ((Nat.pow_le_pow_iff_right (by decide)).mp htag)
    have hwidth : v < 2 ^ 62 ∧ width v ≤ 2 ^ tag := by
      unfold width
      obtain rfl | rfl | rfl | rfl : tag = 0 ∨ tag = 1 ∨ tag = 2 ∨ tag = 3 := by omega
      all_goals
        split_ifs <;> omega
    rw [length_encode hwidth.1]
    exact ⟨by simpa using decode_encode hwidth.1 [], hwidth.2⟩

theorem decode_shortest_padded : (encode 5).length ≤ 2 :=
  (decode_shortest (by decide : decode [0x40, 5] = some (5, 2))).2

end Varint

/-! ## Frames -/

/-- `h3::frame_wrap`: a typed, length-prefixed frame. -/
def frameWrap (frameType : Nat) (payload : Bytes) : Bytes :=
  Varint.encode frameType ++ Varint.encode payload.length ++ payload

/-- The header of the frame at the front of a buffer: its type, the length of its payload
    and the number of header bytes. -/
def frameHeader (buf : Bytes) : Option (Nat × Nat × Nat) := do
  let (ftype, n1) ← Varint.decode buf
  let (flen, n2) ← Varint.decode (buf.drop n1)
  return (ftype, flen, n1 + n2)

theorem frameHeader_frameWrap {frameType : Nat} {payload : Bytes} (ht : frameType < 2 ^ 62)
    (hlen : payload.length < 2 ^ 62) (rest : Bytes) :
    frameHeader (frameWrap frameType payload ++ rest) = some (frameType, payload.length,
        Varint.width frameType + Varint.width payload.length) := by
  have hdrop : (frameWrap frameType payload ++ rest).drop (Varint.width frameType) =
      Varint.encode payload.length ++ (payload ++ rest) := by
    rw [frameWrap, append_assoc, append_assoc, ← Varint.length_encode ht,
      drop_left]
  have hfirst : Varint.decode (frameWrap frameType payload ++ rest) =
      some (frameType, Varint.width frameType) := by
    rw [frameWrap, append_assoc, append_assoc, Varint.decode_encode ht]
  simp [frameHeader, hfirst, hdrop, Varint.decode_encode hlen]

end WebTransportBun.Wasm
