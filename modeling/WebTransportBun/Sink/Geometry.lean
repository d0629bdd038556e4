/-
  Sink.Geometry

  Where records lie.  Cursors are unbounded numbers here; a block of the ring is the
  header and payload of one record, or a WRAP header, at its cursor modulo the
  capacity.  `Laid` describes the blocks between two cursors, `Plan` the actions a
  producer call has left: every store goes to a byte that belongs to no unreclaimed
  block, and at every publication the blocks up to the new tail are in place.
-/

import WebTransportBun.Sink.Reader

namespace WebTransportBun.Sink

open Library Nat

/-! ## Cursor arithmetic -/

namespace DataCapacity

variable (cap : DataCapacity)

theorem pos : 0 < cap.value := by
  have := cap.lower
  simp only [minDataCapacity] at this
  omega

theorem position_eq (c : Nat) : cap.position c = c % cap.value := by
  obtain ⟨k, hk⟩ := cap.powerOfTwo
  rw [position, hk, and_two_pow_sub_one_eq_mod]

theorem dvd_cursorModulus : cap.value ∣ cursorModulus := by
  obtain ⟨k, hk⟩ := cap.powerOfTwo
  have hupper := cap.upper
  rw [hk] at hupper ⊢
  have hle : k ≤ 30 := (Nat.pow_le_pow_iff_right (by decide)).mp hupper
  exact pow_dvd_pow 2 (by omega)

@[simp] theorem mod_cursorModulus_mod (c : Nat) : c % cursorModulus % cap.value = c % cap.value :=
  mod_mod_of_dvd c cap.dvd_cursorModulus

theorem quarter : 8 * (cap.value / 32) = cap.value / 4 := by
  obtain ⟨k, hk⟩ := cap.powerOfTwo
  have hlower := cap.lower
  have hten : 10 ≤ k := by
    rw [hk, show minDataCapacity = 2 ^ 10 from rfl] at hlower
    exact (Nat.pow_le_pow_iff_right (by decide)).mp hlower
  obtain ⟨j, rfl⟩ := Nat.exists_eq_add_of_le hten
  have hvalue : cap.value = 1024 * 2 ^ j := by rw [hk, pow_add]; rfl
  omega

end DataCapacity

theorem mod_ne_of_lt {c x y : Nat} (hlt : x < y) (hturn : y < x + c) : x % c ≠ y % c := by
  intro heq
  have hdvd : c ∣ y - x := dvd_of_mod_eq_zero (sub_mod_eq_zero_of_mod_eq heq.symm)
  have := le_of_dvd (by omega) hdvd
  omega

theorem add_mod_of_lt {c x k : Nat} (h : x % c + k < c) : (x + k) % c = x % c + k := by
  rw [← mod_add_mod, mod_eq_of_lt h]

theorem add_mod_of_eq {c x k : Nat} (h : x % c + k = c) : (x + k) % c = 0 := by
  rw [← mod_add_mod, h, mod_self]

theorem Shared.fill_eq {sh : Shared} {H T : Nat} (hhead : sh.head = H % cursorModulus)
    (htail : sh.tail = T % cursorModulus) (hle : H ≤ T) (hlt : T < H + cursorModulus) :
    sh.fill = T - H := by
  simp only [Shared.fill, wrappingSub, hhead, htail, cursorModulus] at hlt ⊢
  omega

/-! ## Blocks -/

/-- A stretch of the ring: a record, or a WRAP header without content. -/
structure Block where
  len : Nat
  content : Option Record

def records (bs : List Block) : List Record := bs.filterMap Block.content

def Block.header (b : Block) : Bytes :=
  match b.content with
  | none => headerBytes b.len RecordType.wrap.toByte 0 0 0 0
  | some r => headerBytes b.len r.kind r.timestampNs r.streamOffset r.payload.length r.aux

/-- What a block asks of its bytes: the header is there, and the payload of a record is
    behind it and inside the block. -/
structure Block.Holds (bytes : Nat → UInt8) (pos : Nat) (b : Block) : Prop where
  header : slice bytes pos recordHeaderBytes = b.header
  payload : ∀ r, b.content = some r →
    slice bytes (pos + recordHeaderBytes) r.payload.length = r.payload
  inside : ∀ r, b.content = some r → recordHeaderBytes + r.payload.length ≤ b.len
  kind : ∀ r, b.content = some r → r.kind ≠ RecordType.wrap.toByte

/-- `Laid c bytes H bs T`: the blocks `bs` fill the cursors from `H` to `T`, none of them
    across the end of the region. -/
inductive Laid (c : Nat) (bytes : Nat → UInt8) : Nat → List Block → Nat → Prop
  | nil (H : Nat) : Laid c bytes H [] H
  | cons {H T : Nat} {b : Block} {bs : List Block} (long : recordHeaderBytes ≤ b.len)
      (inside : H % c + b.len ≤ c) (holds : b.Holds bytes (H % c))
      (rest : Laid c bytes (H + b.len) bs T) : Laid c bytes H (b :: bs) T

variable {c H T : Nat} {bytes bytes' : Nat → UInt8} {bs : List Block}

theorem Laid.le (h : Laid c bytes H bs T) : H ≤ T := by
  induction h with
  | nil => exact le_rfl
  | cons => omega

theorem Laid.eq_nil_iff (h : Laid c bytes H bs T) : bs = [] ↔ H = T := by
  cases h with
  | nil => simp
  | cons long _ _ rest =>
    have := rest.le
    simp only [recordHeaderBytes] at long
    simp only [reduceCtorEq, false_iff]
    omega

theorem Laid.append {U : Nat} {bs' : List Block} (h : Laid c bytes H bs T)
    (h' : Laid c bytes T bs' U) : Laid c bytes H (bs ++ bs') U := by
  induction h with
  | nil => exact h'
  | cons long inside holds _ ih => exact .cons long inside holds (ih h')

theorem Block.Holds.congr {pos : Nat} {b : Block} (h : b.Holds bytes pos)
    (hlen : recordHeaderBytes ≤ b.len)
    (hsame : ∀ x, pos ≤ x → x < pos + b.len → bytes x = bytes' x) : b.Holds bytes' pos where
  header := by
    rw [← h.header]
    exact (slice_congr fun x hlow hhigh => hsame x hlow (by omega)).symm
  payload r hr := by
    have hin := h.inside r hr
    refine Eq.trans (slice_congr fun x hlow hhigh => ?_).symm (h.payload r hr)
    exact hsame x (by omega) (by omega)
  inside := h.inside
  kind := h.kind

theorem Laid.congr (h : Laid c bytes H bs T)
    (hsame : ∀ x, H ≤ x → x < T → bytes (x % c) = bytes' (x % c)) : Laid c bytes' H bs T := by
  induction h with
  | nil => exact .nil _
  | @cons H T b bs long inside holds rest ih =>
    refine .cons long inside (holds.congr long ?_) (ih fun x hlow => hsame x (by omega))
    intro y hlow hhigh
    -- The byte at position `y` of the block belongs to the cursor `H + (y - H % c)`.
    have hle := rest.le
    have hpos : (H + (y - H % c)) % c = y := by
      rw [add_mod_of_lt (by omega)]
      omega
    have := hsame (H + (y - H % c)) (by omega) (by omega)
    rwa [hpos] at this

end WebTransportBun.Sink
