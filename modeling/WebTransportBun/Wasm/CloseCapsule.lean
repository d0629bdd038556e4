/-
  WebTransportBun.Wasm.CloseCapsule

  `encode_close` read back by `parse_capsule` (`crates/wasm/src/capsule.rs`).  The reason
  arrives cut to `MAX_REASON_LEN` bytes.  `truncate_reason` backs up over continuation
  bytes, and in the bytes of a string that leads to the last character boundary: the cut
  reason is the longest prefix of whole characters that fits (`LongestFitting`).
-/

import WebTransportBun.Library.Text
import WebTransportBun.Wasm.Capsule

namespace WebTransportBun.Wasm

open Library Qpack List Varint

/-- `t` is the longest prefix of `s`, in whole characters, of at most `max` bytes. -/
structure LongestFitting (max : Nat) (s t : String) : Prop where
  isPrefix : t.toList <+: s.toList
  fits : (strBytes t).length ≤ max
  longest : ∀ u : String, u.toList <+: s.toList → (strBytes u).length ≤ max →
    u.toList <+: t.toList

/-! ## Truncation -/

theorem strBytes_eq_flatMap (s : String) :
    strBytes s = s.toList.flatMap String.utf8EncodeChar := toUTF8_toList s

theorem strBytes_ofList (cs : List Char) :
    strBytes (String.ofList cs) = cs.flatMap String.utf8EncodeChar := by
  rw [strBytes_eq_flatMap, String.toList_ofList]

/-- Where the back-up loop stops: at the last position up to `n` that holds no
    continuation byte, or at the front. -/
theorem charBoundary_spec (reason : Bytes) (n : Nat) : charBoundary reason n ≤ n ∧
      (charBoundary reason n = 0 ∨ ¬ Utf8.IsContinuation (reason.getD (charBoundary reason n) 0)) ∧
      ∀ q, charBoundary reason n < q → q ≤ n → Utf8.IsContinuation (reason.getD q 0) := by
  induction n with
  | zero => exact ⟨le_refl 0, .inl rfl, fun q hpos hle => by omega⟩
  | succ n ih =>
    obtain ⟨hle, hstop, hcont⟩ := ih
    rw [charBoundary]
    split
    · next hn =>
      refine ⟨by omega, hstop, fun q hlt hq => ?_⟩
      rcases Nat.lt_or_eq_of_le hq with hq | rfl
      · exact hcont q hlt (by omega)
      · exact hn
    · next hn => exact ⟨le_rfl, .inr hn, fun q hlt hq => by omega⟩

/-- The bytes up to the boundary are whole characters, and no more of them fit. -/
theorem longestFitting_charBoundary {s : String} {max : Nat} (h : max < (strBytes s).length) :
    ∃ t, LongestFitting max s t ∧
      (strBytes s).take (charBoundary (strBytes s) max) = strBytes t := by
  obtain ⟨hle, hstop, hcont⟩ := charBoundary_spec (strBytes s) max
  generalize charBoundary (strBytes s) max = p at hle hstop hcont
  rw [strBytes_eq_flatMap] at h hstop hcont ⊢
  obtain ⟨front, hfront, hlen⟩ : ∃ front, front <+: s.toList ∧
      (front.flatMap String.utf8EncodeChar).length = p := by
    rcases hstop with rfl | hlead
    · exact ⟨[], nil_prefix, rfl⟩
    · exact Utf8.exists_isPrefix_of_lead (by omega) hlead
  have htake : (s.toList.flatMap String.utf8EncodeChar).take p =
      front.flatMap String.utf8EncodeChar := by
    obtain ⟨rest, hrest⟩ := hfront
    rw [← hrest, flatMap_append, ← hlen, take_left]
  refine ⟨String.ofList front, ⟨?_, ?_, fun u hu hfits => ?_⟩, ?_⟩
  · rwa [String.toList_ofList]
  · rw [strBytes_ofList]
    omega
  · rw [String.toList_ofList]
    rw [strBytes_eq_flatMap] at hfits
    rcases prefix_or_prefix_of_prefix hu hfront with hpre | hpre
    · exact hpre
    · -- a longer one would end on a continuation byte
      have hshort : (u.toList.flatMap String.utf8EncodeChar).length ≤ p := by
        by_contra hlong
        exact Utf8.not_isContinuation_of_isPrefix hu (by omega) (hcont _ (by omega) hfits)
      rw [Utf8.eq_of_isPrefix_of_length_le hpre (by omega)]
  · rw [strBytes_ofList, htake]

theorem truncateReason_strBytes (s : String) :
    ∃ t, LongestFitting maxReasonLen s t ∧ truncateReason (strBytes s) = strBytes t := by
  rw [truncateReason]
  split
  · next h => exact ⟨s, ⟨prefix_rfl, h, fun u hu _ => hu⟩, rfl⟩
  · next h => exact longestFitting_charBoundary (by omega)

/-! ## Parsing -/

theorem beValue_toBeBytes {code : Nat} (h : code < 2 ^ 32) :
    beValue (Varint.toBeBytes 4 code) = code := by
  have hread := foldl_toBeBytes 4 code 0
  simp only [shift_or_byte] at hread
  rw [beValue, hread, Nat.mod_eq_of_lt (by omega), zero_mul, zero_add]

theorem parseCloseValue_toBeBytes {code : Nat} {t : String} (hcode : code < 2 ^ 32)
    (ht : (strBytes t).length ≤ maxReasonLen) :
    parseCloseValue (Varint.toBeBytes 4 code ++ strBytes t) = .ok (.close code t) := by
  have hlen : (toBeBytes 4 code).length = 4 := length_toBeBytes 4 code
  have hvalue : (toBeBytes 4 code ++ strBytes t).length = 4 + (strBytes t).length := by
    rw [length_append, hlen]
  have hdrop : (toBeBytes 4 code ++ strBytes t).drop 4 = strBytes t :=
    drop_left' hlen
  have htake : (toBeBytes 4 code ++ strBytes t).take 4 = toBeBytes 4 code :=
    take_left' hlen
  rw [parseCloseValue, if_neg (by omega), hdrop, fromUtf8_strBytes, htake, beValue_toBeBytes hcode]

/-- A close capsule whose value is within the cap is taken whole. -/
theorem parseCapsule_close {value : Bytes} {capsule : Capsule}
    (hlen : value.length ≤ maxCapsuleValueLen) (h : parseCloseValue value = .ok capsule) :
    parseCapsule (encodeCapsule capsuleCloseWtSession value) =
      .parsed capsule (encodeCapsule capsuleCloseWtSession value).length := by
  have hmax : maxCapsuleValueLen = 1028 := rfl
  have hkind : capsuleCloseWtSession < 2 ^ 62 := by decide
  have hvalue : value.length < 2 ^ 62 := by omega
  have hheader := frameHeader_frameWrap hkind hvalue []
  have hfront : (encode capsuleCloseWtSession ++ encode value.length).length =
      width capsuleCloseWtSession + width value.length := by
    rw [length_append, length_encode hkind, length_encode hvalue]
  have htotal : (encodeCapsule capsuleCloseWtSession value).length =
      width capsuleCloseWtSession + width value.length + value.length := by
    rw [encodeCapsule, frameWrap, length_append, hfront]
  rw [append_nil] at hheader
  rw [parseCapsule, encodeCapsule, hheader]
  show (if maxCapsuleValueLen < value.length then _ else _) = _
  rw [if_neg (by omega), ← encodeCapsule, ← htotal]
  simp only [lt_irrefl, if_false, if_true, take_length]
  rw [encodeCapsule, frameWrap, ← hfront, drop_left, h]

/-- Parsing an encoded close takes all of it and returns the code and the longest prefix of
    the reason that fits. -/
theorem encodeClose_read_back (code : UInt32) (reason : String) :
    ∃ t, parseCapsule (encodeClose code.toNat (strBytes reason)) =
        .parsed (.close code.toNat t) (encodeClose code.toNat (strBytes reason)).length ∧
      LongestFitting 1024 reason t := by
  obtain ⟨t, hlongest, htrunc⟩ := truncateReason_strBytes reason
  have hfits := hlongest.fits
  have hmax : maxCapsuleValueLen = 4 + maxReasonLen := rfl
  have hparse := parseCloseValue_toBeBytes code.toNat_lt hfits
  refine ⟨t, ?_, hlongest⟩
  rw [encodeClose, htrunc]
  apply parseCapsule_close
  · rw [length_append, length_toBeBytes]
    omega
  · exact hparse

end WebTransportBun.Wasm
