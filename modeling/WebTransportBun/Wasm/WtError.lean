/-
  WebTransportBun.Wasm.WtError

  The mapping of WebTransport application errors into the HTTP/3 error space
  (`crates/wasm/src/wt_error.rs`).  Thirty codes go to thirty-one code points; the
  thirty-first is the reserved one.
-/

import WebTransportBun.Wasm.H3

namespace WebTransportBun.Wasm

/-- A reserved HTTP/3 code point. -/
def IsReserved (v : Nat) : Prop := ∃ n, v = 0x1f * n + 0x21

/-- A code sits in its block of thirty-one at the place it has in its block of thirty. -/
theorem remapApplicationError_eq (code : Nat) :
    remapApplicationError code = wtAppErrorFirst + (31 * (code / 30) + code % 30) := by
  unfold remapApplicationError
  omega

theorem remapApplicationError_range {code : Nat} (h : code < 2 ^ 32) :
    wtAppErrorFirst ≤ remapApplicationError code ∧ remapApplicationError code ≤ wtAppErrorLast := by
  rw [remapApplicationError_eq]
  unfold wtAppErrorFirst wtAppErrorLast
  omega

theorem remapApplicationError_lt_iff (code code' : Nat) :
    remapApplicationError code < remapApplicationError code' ↔ code < code' := by
  unfold remapApplicationError
  omega

theorem remapApplicationError_not_reserved (code : Nat) :
    ¬ IsReserved (remapApplicationError code) := by
  rintro ⟨n, h⟩
  rw [remapApplicationError_eq] at h
  -- the first code point is 3 modulo 31, the reserved ones are 2
  unfold wtAppErrorFirst at h
  omega

/-- What `unmap_application_error` accepts is the image of the code it yields. -/
theorem unmapApplicationError_eq_some_iff (v code : Nat) :
    unmapApplicationError v = some code ↔ code < 2 ^ 32 ∧ v = remapApplicationError code := by
  unfold unmapApplicationError
  constructor
  · intro h
    split at h
    · cases h
    next hrange =>
    dsimp only at h
    split at h
    · cases h
    next hgap =>
    split at h
    · next hfits => grind [remapApplicationError_eq]
    · cases h
  · rintro ⟨hcode, rfl⟩
    obtain ⟨hfirst, hlast⟩ := remapApplicationError_range hcode
    -- the distance splits into the block and the place in it
    have hd : remapApplicationError code - wtAppErrorFirst = 31 * (code / 30) + code % 30 := by
      rw [remapApplicationError_eq]
      omega
    rw [if_neg (by omega)]
    rw [if_neg (by omega), if_pos (by omega)]
    exact congrArg some (by omega)

/-- Over all 32-bit codes the mapping is strictly increasing, avoids the reserved code
    points and is undone by `unmap_application_error`, which accepts its image and no other
    64-bit code point. -/
theorem application_error_mapping :
    (∀ c c' : UInt32, remapApplicationError c.toNat < remapApplicationError c'.toNat ↔ c < c') ∧
      (∀ c : UInt32, ¬ IsReserved (remapApplicationError c.toNat)) ∧
      (∀ c : UInt32, unmapApplicationError (remapApplicationError c.toNat) = some c.toNat) ∧
      ∀ (v : UInt64) (n : Nat), unmapApplicationError v.toNat = some n ↔
        ∃ c : UInt32, n = c.toNat ∧ v.toNat = remapApplicationError c.toNat := by
  refine ⟨fun c c' => ?_, fun c => ?_, fun c => ?_, fun v n => ?_⟩
  · rw [remapApplicationError_lt_iff, UInt32.lt_iff_toNat_lt]
  · exact remapApplicationError_not_reserved c.toNat
  · exact (unmapApplicationError_eq_some_iff _ _).mpr ⟨c.toNat_lt, rfl⟩
  · rw [unmapApplicationError_eq_some_iff]
    constructor
    · rintro ⟨hn, hv⟩
      have hc : (UInt32.ofNat n).toNat = n := UInt32.toNat_ofNat_of_lt' hn
      exact ⟨UInt32.ofNat n, hc.symm, hc.symm ▸ hv⟩
    · rintro ⟨c, rfl, hv⟩
      exact ⟨c.toNat_lt, hv⟩

/-- The ends of the range and the first gap. -/
example : remapApplicationError 0xffffffff = wtAppErrorLast ∧
    unmapApplicationError (wtAppErrorFirst + 30) = none := by decide

end WebTransportBun.Wasm
