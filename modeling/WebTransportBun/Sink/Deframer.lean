/-
  Sink.Deframer

  `FramingConfig` and `Deframer::push_bytes` of `stream_sink.rs`: length-prefixed frames
  cut out of a byte stream that arrives in chunks.

  A header denotes a total length, a plain integer (`FramingConfig.denoted`).  The code
  computes it in `usize` arithmetic that wraps in a release build.  Where nothing wraps,
  the frames that come out are exactly the frames of the stream (`framing_exact`); a
  header that wraps makes `push_bytes` spin forever (`wrapped_length_diverges`).
-/

import WebTransportBun.Library.Framing
import WebTransportBun.Library.Loop
import WebTransportBun.Library.Run
import WebTransportBun.Sink.Layout

namespace WebTransportBun.Sink

open Library List Nat

/-- The number of `usize` values on the 64-bit targets of the native addon. -/
def usizeModulus : Nat := 2 ^ 64

structure FramingConfig where
  headerBytes : Nat
  lengthOffset : Nat
  lengthWidth : Nat
  littleEndian : Bool
  lengthIncludesHeader : Bool
  maxFrameBytes : Nat
  deriving DecidableEq, Repr

/-- How a call ends other than well: with an error, or by a panic. -/
inductive Halt
  | fault (message : String)
  | panic
  deriving DecidableEq, Repr

namespace FramingConfig

section

variable (c : FramingConfig)

def validate : Except String Unit :=
  if ¬ (1 ≤ c.headerBytes ∧ c.headerBytes ≤ 64) then
    .error "E_SINK_BAD_OPTIONS: framing headerBytes must be 1..=64"
  else if c.lengthWidth ∉ [1, 2, 4, 8] then
    .error "E_SINK_BAD_OPTIONS: framing lengthWidth must be 1, 2, 4, or 8"
  else if c.headerBytes < (c.lengthOffset + c.lengthWidth) % usizeModulus then
    .error "E_SINK_BAD_OPTIONS: framing length field does not fit in the header"
  else if c.maxFrameBytes < c.headerBytes then
    .error "E_SINK_BAD_OPTIONS: framing maxFrameBytes is smaller than the header"
  else .ok ()

/-- The `u64` that the loops of `frame_len` accumulate. -/
def lengthValue (raw : Bytes) : Nat :=
  if c.littleEndian then
    raw.zipIdx.foldl (fun value b => value ||| (b.1.toNat <<< (8 * b.2)) % 2 ^ 64) 0
  else raw.foldl (fun value b => ((value <<< 8) % 2 ^ 64) ||| b.toNat) 0

/-- `frame_len`.  A slice with a bad range panics. -/
def frameLen (header : Bytes) : Except Halt Nat :=
  let stop := (c.lengthOffset + c.lengthWidth) % usizeModulus
  if ¬ (c.lengthOffset ≤ stop ∧ stop ≤ header.length) then .error .panic
  else
    let value := c.lengthValue ((header.take stop).drop c.lengthOffset)
    if c.lengthIncludesHeader ∧ value % usizeModulus < c.headerBytes then
      .error (.fault (s!"E_SINK_FRAME_FAULT: claimed length {value} is shorter than " ++
        s!"the {c.headerBytes} byte header"))
    else
      let total :=
        if c.lengthIncludesHeader then value % usizeModulus
        else (c.headerBytes + value % usizeModulus) % usizeModulus
      if c.maxFrameBytes < total then
        .error (.fault
          s!"E_SINK_FRAME_FAULT: frame of {total} bytes exceeds maxFrameBytes {c.maxFrameBytes}")
      else .ok total

end

end FramingConfig

/-! ## A push

`Deframer::push_bytes`, `Deframer::push` and the cutter of the wasm backend run two loops, one
behind the other.  The second is the same in all three, but for the function that reads a
header; the first differs in `push` (`Sink.DeframerTwins`). -/

/-- The variables of a push; `rest` is what is left of the chunk. -/
structure PushState where
  staging : Bytes
  rest : Bytes
  out : List Bytes := []
  deriving DecidableEq, Repr

/-- Move up to `want` bytes from the chunk to the staged ones. -/
def PushState.stage (s : PushState) (want : Nat) : PushState :=
  { s with staging := s.staging ++ s.rest.take want, rest := s.rest.drop want }

section

-- `frameLen` reads the header in front of its argument
variable (frameLen : Bytes → Except Halt Nat) (headerBytes : Nat)

/-- A round of the loop that completes the staged partial frame.  It leaves with `none`
    when nothing is staged any more, with `some` when the function returns from it. -/
def completeStaged (s : PushState) : PushState ⊕ (PushState × Option (Except Halt Unit)) :=
  if s.staging = [] then .inr (s, none)
  else if s.staging.length < headerBytes then
    let s := s.stage (headerBytes - s.staging.length)
    if s.staging.length < headerBytes then .inr (s, some (.ok ())) else .inl s
  else
    match frameLen s.staging with
    | .error halt => .inr (s, some (.error halt))
    | .ok total =>
      let s := s.stage (total - s.staging.length)
      if s.staging.length < total then .inr (s, some (.ok ()))
      else .inl { s with staging := [], out := s.out ++ [s.staging] }

/-- A round of the loop that slices whole frames off the chunk. -/
def cutWhole (s : PushState) : PushState ⊕ (PushState × Except Halt Unit) :=
  if s.rest.length < headerBytes then .inr (s, .ok ())
  else
    match frameLen s.rest with
    | .error halt => .inr (s, .error halt)
    | .ok total =>
      if s.rest.length < total then .inr (s, .ok ())
      else .inl { s with rest := s.rest.drop total, out := s.out ++ [s.rest.take total] }

end

theorem loop_completeStaged_nil (frameLen : Bytes → Except Halt Nat) (headerBytes fuel : Nat)
    (rest : Bytes) (out : List Bytes) :
    loop (completeStaged frameLen headerBytes) (fuel + 1) ⟨[], rest, out⟩ =
      some (⟨[], rest, out⟩, none) :=
  loop_done (if_pos rfl)

theorem loop_cutWhole_short (frameLen : Bytes → Except Halt Nat) {headerBytes : Nat} (fuel : Nat)
    (staging : Bytes) {rest : Bytes} (out : List Bytes) (h : rest.length < headerBytes) :
    loop (cutWhole frameLen headerBytes) (fuel + 1) ⟨staging, rest, out⟩ =
      some (⟨staging, rest, out⟩, .ok ()) :=
  loop_done (if_pos h)

/-- What a push leaves behind: the staged bytes, the frames it has put out, and its result. -/
structure Pushed where
  staging : Bytes
  out : List Bytes
  result : Except Halt Unit

/-- The two loops of a push, with at most `fuel` rounds each. -/
def pushLoops (first : PushState → PushState ⊕ (PushState × Option (Except Halt Unit)))
    (second : PushState → PushState ⊕ (PushState × Except Halt Unit)) (fuel : Nat)
    (staging chunk : Bytes) : Option Pushed :=
  match loop first fuel { staging, rest := chunk } with
  | none => none
  | some (s, some result) => some ⟨s.staging, s.out, result⟩
  | some (s, none) =>
    match loop second fuel s with
    | none => none
    | some (s, .error halt) => some ⟨s.staging, s.out, .error halt⟩
    | some (s, .ok ()) => some ⟨s.staging ++ s.rest, s.out, .ok ()⟩

/-- The native deframers hand `frame_len` the header alone. -/
def FramingConfig.headerLen (c : FramingConfig) (raw : Bytes) : Except Halt Nat :=
  c.frameLen (raw.take c.headerBytes)

/-- `Deframer::push_bytes`; its frames are in the caller's `out`, also when it fails. -/
def pushBytes (c : FramingConfig) : Nat → Bytes → Bytes → Option Pushed :=
  pushLoops (completeStaged c.headerLen c.headerBytes) (cutWhole c.headerLen c.headerBytes)

def PushReturns (c : FramingConfig) (staging chunk : Bytes) (p : Pushed) : Prop :=
  ∃ fuel, pushBytes c fuel staging chunk = some p

/-! ## What a header denotes -/

namespace FramingConfig

section

variable (c : FramingConfig)

def lengthField (header : Bytes) : Bytes :=
  (header.drop c.lengthOffset).take c.lengthWidth

def fieldValue (header : Bytes) : Nat :=
  if c.littleEndian then leValue (c.lengthField header)
  else leValue (c.lengthField header).reverse

def denoted (header : Bytes) : Nat :=
  if c.lengthIncludesHeader then c.fieldValue header else c.headerBytes + c.fieldValue header

def InBounds (total : Nat) : Prop :=
  c.headerBytes ≤ total ∧ total ≤ c.maxFrameBytes

end

/-- A whole frame: its header denotes its own length. -/
structure IsFrame (c : FramingConfig) (frame : Bytes) : Prop where
  bounds : c.InBounds frame.length
  denoted : c.denoted (frame.take c.headerBytes) = frame.length

section

variable (c : FramingConfig)

/-- A piece of a frame that is not whole yet: the header is incomplete, or it denotes more
    bytes than there are. -/
def Incomplete (rest : Bytes) : Prop :=
  c.headerBytes ≤ rest.length →
    c.InBounds (c.denoted (rest.take c.headerBytes)) ∧
      rest.length < c.denoted (rest.take c.headerBytes)

/-- A complete header that denotes a total no frame may have. -/
def Faulty (rest : Bytes) : Prop :=
  c.headerBytes ≤ rest.length ∧ ¬ c.InBounds (c.denoted (rest.take c.headerBytes))

/-- No header at a frame boundary of the stream denotes a total beyond `usize`. -/
def NoWrap (stream : Bytes) : Prop :=
  ∀ frames rest, Splits c.IsFrame stream frames rest → c.headerBytes ≤ rest.length →
    c.denoted (rest.take c.headerBytes) < usizeModulus

/-- No header behind a whole frame of the stream is faulty. -/
def FaultFirst (stream : Bytes) : Prop :=
  ∀ frames rest, Splits c.IsFrame stream frames rest → c.Faulty rest → frames = []

end

instance (c : FramingConfig) (total : Nat) : Decidable (c.InBounds total) :=
  inferInstanceAs (Decidable (_ ∧ _))

/-- What `validate` accepts, when the position of the length field does not wrap. -/
structure Valid (c : FramingConfig) : Prop where
  header_pos : 1 ≤ c.headerBytes
  header_le : c.headerBytes ≤ 64
  width_le : c.lengthWidth ≤ 8
  field_le : c.lengthOffset + c.lengthWidth ≤ c.headerBytes
  header_le_max : c.headerBytes ≤ c.maxFrameBytes

variable {c : FramingConfig}

theorem valid_of_validate (h : c.validate = .ok ())
    (hoff : c.lengthOffset + c.lengthWidth < usizeModulus) : c.Valid := by
  unfold validate at h
  rw [mod_eq_of_lt hoff] at h
  split at h
  · cases h
  · next hheader =>
    split at h
    · cases h
    · next hwidth =>
      split at h
      · cases h
      · next hfield =>
        split at h
        · cases h
        · next hmax =>
          simp only [mem_cons, not_mem_nil, or_false] at hwidth
          exact ⟨by omega, by omega, by omega, by omega, by omega⟩

/-! ### The length field -/

/-- The little-endian loop, behind `k` bytes that add up to `v`. -/
theorem foldl_littleEndian (raw : Bytes) {k v : Nat} (hlen : k + raw.length ≤ 8)
    (hv : v < 2 ^ (8 * k)) :
    (raw.zipIdx k).foldl (fun value b => value ||| (b.1.toNat <<< (8 * b.2)) % 2 ^ 64) v =
      v + 2 ^ (8 * k) * leValue raw := by
  induction raw generalizing k v with
  | nil => simp [leValue]
  | cons b raw ih =>
    rw [length_cons] at hlen
    have hb := b.toNat_lt
    have hshift : b.toNat <<< (8 * k) + v < 2 ^ (8 * (k + 1)) := by
      rw [mul_add, pow_add]
      have hle : b.toNat * 2 ^ (8 * k) ≤ 255 * 2 ^ (8 * k) := mul_le_mul_right _ (by omega)
      omega
    have hfit : b.toNat <<< (8 * k) < 2 ^ 64 := by
      have hpow : 2 ^ (8 * (k + 1)) ≤ 2 ^ 64 := Nat.pow_le_pow_right (by decide) (by omega)
      omega
    have hor : v ||| (b.toNat <<< (8 * k)) % 2 ^ 64 = b.toNat <<< (8 * k) + v := by
      rw [Nat.mod_eq_of_lt hfit, Nat.or_comm, Nat.shiftLeft_add_eq_or_of_lt hv]
    rw [zipIdx_cons, foldl_cons]
    simp only [hor]
    rw [ih (by omega) hshift, leValue, shiftLeft_eq, mul_add 8]
    ring

/-- The big-endian loop, behind `k` bytes that add up to `v`. -/
theorem foldl_bigEndian (raw : Bytes) {k v : Nat} (hlen : k + raw.length ≤ 8)
    (hv : v < 2 ^ (8 * k)) :
    raw.foldl (fun value b => ((value <<< 8) % 2 ^ 64) ||| b.toNat) v =
      v * 256 ^ raw.length + leValue raw.reverse := by
  induction raw generalizing k v with
  | nil => simp [leValue]
  | cons b raw ih =>
    rw [length_cons] at hlen
    have hb := b.toNat_lt
    have hshift : v <<< 8 + b.toNat < 2 ^ (8 * (k + 1)) := by
      rw [mul_add, pow_add]
      omega
    have hfit : v <<< 8 < 2 ^ 64 := by
      have hpow : 2 ^ (8 * (k + 1)) ≤ 2 ^ 64 := Nat.pow_le_pow_right (by decide) (by omega)
      omega
    have hor : (v <<< 8) % 2 ^ 64 ||| b.toNat = v <<< 8 + b.toNat := by
      rw [mod_eq_of_lt hfit, shiftLeft_add_eq_or_of_lt (by omega)]
    rw [foldl_cons, hor, ih (by omega) hshift, reverse_cons, leValue_append, leValue,
      leValue, length_reverse, length_cons, shiftLeft_eq]
    ring

theorem fieldValue_lt_pow (c : FramingConfig) (header : Bytes) :
    c.fieldValue header < 256 ^ c.lengthWidth := by
  have hpow : 256 ^ (c.lengthField header).length ≤ 256 ^ c.lengthWidth :=
    Nat.pow_le_pow_right (by decide) (length_take_le ..)
  unfold fieldValue
  split
  · exact (leValue_lt _).trans_le hpow
  · rw [← length_reverse] at hpow
    exact (leValue_lt _).trans_le hpow

theorem lengthValue_eq (c : FramingConfig) {raw : Bytes} (hlen : raw.length ≤ 8) :
    c.lengthValue raw = if c.littleEndian then leValue raw else leValue raw.reverse := by
  unfold lengthValue
  split
  · simpa using foldl_littleEndian raw (k := 0) (v := 0) (by omega) (by decide)
  · simpa using foldl_bigEndian raw (k := 0) (v := 0) (by omega) (by decide)

variable {header : Bytes}

section

variable (hv : c.Valid)

include hv

section

variable (hlen : header.length = c.headerBytes)

include hlen

/-- `frame_len` on a whole header, in terms of the number in its length field. -/
theorem frameLen_eq :
    c.frameLen header =
      if c.lengthIncludesHeader ∧ c.fieldValue header % usizeModulus < c.headerBytes then
        .error (.fault
          (s!"E_SINK_FRAME_FAULT: claimed length {c.fieldValue header} is shorter than " ++
            s!"the {c.headerBytes} byte header"))
      else
        let total :=
          if c.lengthIncludesHeader then c.fieldValue header % usizeModulus
          else (c.headerBytes + c.fieldValue header % usizeModulus) % usizeModulus
        if c.maxFrameBytes < total then
          .error (.fault
            s!"E_SINK_FRAME_FAULT: frame of {total} bytes exceeds maxFrameBytes {c.maxFrameBytes}")
        else .ok total := by
  have hfield := hv.field_le
  have hstop :
      (c.lengthOffset + c.lengthWidth) % usizeModulus = c.lengthOffset + c.lengthWidth := by
    apply mod_eq_of_lt
    have := hv.header_le
    simp only [usizeModulus]
    omega
  have hraw : (header.take (c.lengthOffset + c.lengthWidth)).drop c.lengthOffset =
      c.lengthField header := by
    rw [lengthField, drop_take, Nat.add_sub_cancel_left]
  have hrawlen : (c.lengthField header).length ≤ 8 := by
    rw [lengthField, length_take]
    exact (min_le_left _ _).trans hv.width_le
  have hvalue : c.lengthValue (c.lengthField header) = c.fieldValue header := by
    rw [c.lengthValue_eq hrawlen, fieldValue]
  unfold frameLen
  simp only [hstop, hraw, hvalue]
  rw [if_neg (by omega)]

theorem frameLen_ok (hfit : c.denoted header < usizeModulus)
    (hbounds : c.InBounds (c.denoted header)) : c.frameLen header = .ok (c.denoted header) := by
  obtain ⟨hlow, hhigh⟩ := hbounds
  rw [frameLen_eq hv hlen]
  unfold denoted at hfit hlow hhigh ⊢
  split at hfit
  · next hinc =>
    simp only [hinc, if_true] at hlow hhigh ⊢
    rw [mod_eq_of_lt hfit, if_neg (by omega), if_neg (by omega)]
  · next hinc =>
    simp only [hinc, if_false, false_and, Bool.false_eq_true] at hlow hhigh ⊢
    have hvalue : c.fieldValue header % usizeModulus = c.fieldValue header :=
      mod_eq_of_lt (by omega)
    rw [hvalue, mod_eq_of_lt hfit, if_neg (by omega)]

/-- A header that denotes a total out of bounds, and within `usize`, is a fault. -/
theorem frameLen_fault (hfit : c.denoted header < usizeModulus)
    (hbounds : ¬ c.InBounds (c.denoted header)) :
    ∃ message, c.frameLen header = .error (.fault message) := by
  rw [frameLen_eq hv hlen]
  unfold InBounds denoted at hbounds
  unfold denoted at hfit
  split at hfit
  · next hinc =>
    simp only [hinc, if_true, true_and] at hbounds ⊢
    rw [mod_eq_of_lt hfit]
    by_cases hshort : c.fieldValue header < c.headerBytes
    · rw [if_pos hshort]
      exact ⟨_, rfl⟩
    · rw [if_neg hshort, if_pos (by omega)]
      exact ⟨_, rfl⟩
  · next hinc =>
    simp only [hinc, if_false, false_and, Bool.false_eq_true] at hbounds ⊢
    have hvalue : c.fieldValue header % usizeModulus = c.fieldValue header :=
      mod_eq_of_lt (by omega)
    rw [hvalue, mod_eq_of_lt hfit, if_pos (by omega)]
    exact ⟨_, rfl⟩

end

theorem fieldValue_lt (header : Bytes) : c.fieldValue header < usizeModulus := by
  refine (c.fieldValue_lt_pow header).trans_le ?_
  exact (Nat.pow_le_pow_right (by decide) hv.width_le).trans (by decide)

/-- A header whose total wraps is accepted, as a frame that is shorter than its header. -/
theorem frameLen_wrapped (hlen : header.length = c.headerBytes)
    (hwrap : usizeModulus ≤ c.denoted header) :
    ∃ total < c.headerBytes, c.frameLen header = .ok total := by
  have hlt := fieldValue_lt hv header
  rw [frameLen_eq hv hlen]
  unfold denoted at hwrap
  split at hwrap
  · omega
  · next hinc =>
    have htotal : (c.headerBytes + c.fieldValue header % usizeModulus) % usizeModulus <
        c.headerBytes := by
      have hsmall := hv.header_le
      rw [mod_eq_of_lt hlt, mod_eq_sub_mod hwrap, mod_eq_of_lt]
      · omega
      · simp only [usizeModulus] at hlt ⊢
        omega
    have hmax := hv.header_le_max
    simp only [hinc, false_and, if_false, Bool.false_eq_true]
    rw [if_neg (by omega)]
    exact ⟨_, htotal, rfl⟩

/-- Only a length field of several bytes makes a total wrap. -/
theorem one_lt_headerBytes (hwrap : usizeModulus ≤ c.denoted header) : 1 < c.headerBytes := by
  by_contra hsmall
  have hwidth : c.lengthWidth ≤ 1 := by
    have := hv.field_le
    omega
  have hvalue := (c.fieldValue_lt_pow header).trans_le (Nat.pow_le_pow_right (by decide) hwidth)
  unfold denoted at hwrap
  split at hwrap <;> simp only [usizeModulus] at hwrap <;> omega

end

/-! ### Frames -/

section

variable {c : FramingConfig} {frame rest : Bytes}

theorem IsFrame.denoted_of_isPrefix (h : c.IsFrame frame) (hpre : frame <+: rest) :
    c.headerBytes ≤ rest.length ∧ c.denoted (rest.take c.headerBytes) = frame.length := by
  obtain ⟨tail, rfl⟩ := hpre
  have hlow := h.bounds.1
  refine ⟨by rw [length_append]; omega, ?_⟩
  rw [take_append_of_le_length hlow, h.denoted]

theorem IsFrame.eq_of_isPrefix {frame' : Bytes} (h : c.IsFrame frame) (h' : c.IsFrame frame')
    (hpre : frame <+: frame') : frame = frame' := by
  have hlen := (h.denoted_of_isPrefix hpre).2
  rw [h'.denoted] at hlen
  exact hpre.eq_of_length hlen.symm

theorem Incomplete.not_isPrefix (h : c.Incomplete rest) (hframe : c.IsFrame frame) :
    ¬ frame <+: rest := by
  intro hpre
  obtain ⟨hlen, hden⟩ := hframe.denoted_of_isPrefix hpre
  have hlt := (h hlen).2
  have hle := hpre.length_le
  omega

theorem Faulty.not_isPrefix (h : c.Faulty rest) (hframe : c.IsFrame frame) : ¬ frame <+: rest := by
  intro hpre
  have hden := (hframe.denoted_of_isPrefix hpre).2
  apply h.2
  rw [hden]
  exact hframe.bounds

theorem incomplete_nil (hv : c.Valid) : c.Incomplete [] := by
  intro hlen
  have := hv.header_pos
  rw [length_nil] at hlen
  omega

theorem isFrame_take (hlen : c.denoted (rest.take c.headerBytes) ≤ rest.length)
    (hbounds : c.InBounds (c.denoted (rest.take c.headerBytes))) :
    c.IsFrame (rest.take (c.denoted (rest.take c.headerBytes))) := by
  have htake : (rest.take (c.denoted (rest.take c.headerBytes))).length =
      c.denoted (rest.take c.headerBytes) := by
    rw [length_take, min_eq_left hlen]
  refine ⟨by rw [htake]; exact hbounds, ?_⟩
  rw [take_take, min_eq_left hbounds.1, htake]

theorem NoWrap.of_splits {stream : Bytes} {frames : List Bytes} (h : c.NoWrap stream)
    (hsplit : Splits c.IsFrame stream frames rest) : c.NoWrap rest :=
  fun _ _ hrest hlen => h _ _ (hsplit.trans hrest) hlen

theorem NoWrap.of_append {fed more : Bytes} (h : c.NoWrap (fed ++ more)) : c.NoWrap fed := by
  intro frames rest hsplit hlen
  have hden := h frames (rest ++ more) (hsplit.append more) (by rw [length_append]; omega)
  rwa [take_append_of_le_length hlen] at hden

theorem Faulty.append {more : Bytes} (h : c.Faulty rest) : c.Faulty (rest ++ more) := by
  obtain ⟨hlen, hbounds⟩ := h
  refine ⟨by rw [length_append]; omega, ?_⟩
  rwa [take_append_of_le_length hlen]

theorem FaultFirst.of_append {fed more : Bytes} (h : c.FaultFirst (fed ++ more)) :
    c.FaultFirst fed :=
  fun _ _ hsplit hfault => h _ _ (hsplit.append more) hfault.append

theorem FaultFirst.of_splits {stream : Bytes} {frames : List Bytes} (h : c.FaultFirst stream)
    (hsplit : Splits c.IsFrame stream frames rest) : c.FaultFirst rest :=
  fun _ _ hrest hfault => (append_eq_nil_iff.mp (h _ _ (hsplit.trans hrest) hfault)).2

theorem NoWrap.denoted_lt (h : c.NoWrap rest) (hlen : c.headerBytes ≤ rest.length) :
    c.denoted (rest.take c.headerBytes) < usizeModulus :=
  h [] rest (.nil _ _) hlen

theorem frameLen_front (hv : c.Valid) (h : c.NoWrap rest) (hlen : c.headerBytes ≤ rest.length) :
    (c.InBounds (c.denoted (rest.take c.headerBytes)) ∧
        c.frameLen (rest.take c.headerBytes) = .ok (c.denoted (rest.take c.headerBytes))) ∨
      c.Faulty rest ∧
        ∃ message, c.frameLen (rest.take c.headerBytes) = .error (.fault message) := by
  have htake : (rest.take c.headerBytes).length = c.headerBytes := by
    rw [length_take, min_eq_left hlen]
  by_cases hbounds : c.InBounds (c.denoted (rest.take c.headerBytes))
  · exact .inl ⟨hbounds, frameLen_ok hv htake (h.denoted_lt hlen) hbounds⟩
  · exact .inr ⟨⟨hlen, hbounds⟩, frameLen_fault hv htake (h.denoted_lt hlen) hbounds⟩

end

end FramingConfig

/-! ## What a push does -/

section

variable {c : FramingConfig} {frameLen : Bytes → Except Halt Nat}

/-- How the bytes behind the last whole frame end a push: they are kept, or they fault. -/
def Ends (c : FramingConfig) (rest : Bytes) : Except Halt Unit → Prop
  | .ok () => c.Incomplete rest
  | .error (.fault _) => c.Faulty rest
  | .error .panic => False

theorem Ends.not_isPrefix {rest frame : Bytes} {result : Except Halt Unit} (h : Ends c rest result)
    (hframe : c.IsFrame frame) : ¬ frame <+: rest := by
  match result, h with
  | .ok (), hinc => exact FramingConfig.Incomplete.not_isPrefix hinc hframe
  | .error (.fault _), hfault => exact FramingConfig.Faulty.not_isPrefix hfault hframe

theorem Ends.eq_fault {rest : Bytes} {result : Except Halt Unit} (h : Ends c rest result)
    (hfault : c.Faulty rest) : ∃ message, result = .error (.fault message) := by
  match result, h with
  | .ok (), hinc => exact absurd (hinc hfault.1).1 hfault.2
  | .error (.fault message), _ => exact ⟨message, rfl⟩

theorem FramingConfig.Incomplete.ends {rest : Bytes} (h : c.Incomplete rest) :
    Ends c rest (.ok ()) := h

theorem FramingConfig.Faulty.ends {rest : Bytes} (h : c.Faulty rest) :
    Ends c rest (.error (.fault "")) := h

/-- The frames in front of a rest that ends a push, and the rest, are determined. -/
theorem Ends.unique {stream rest rest' : Bytes} {frames frames' : List Bytes}
    {result result' : Except Halt Unit} (h : Ends c rest result) (h' : Ends c rest' result')
    (hsplit : Splits c.IsFrame stream frames rest)
    (hsplit' : Splits c.IsFrame stream frames' rest') : frames = frames' ∧ rest = rest' :=
  hsplit.unique (fun _ _ hi hj hpre => hi.eq_of_isPrefix hj hpre) hsplit'
    (fun _ hi => h.not_isPrefix hi) (fun _ hi => h'.not_isPrefix hi)

/-- A stream that ends within a frame has no faulty header. -/
theorem FramingConfig.Incomplete.not_faulty {stream rest rest' : Bytes}
    {frames frames' : List Bytes}
    (hinc : c.Incomplete rest) (hsplit : Splits c.IsFrame stream frames rest)
    (hsplit' : Splits c.IsFrame stream frames' rest') : ¬ c.Faulty rest' := by
  intro hfault
  obtain ⟨-, rfl⟩ := hinc.ends.unique hfault.ends hsplit hsplit'
  exact hfault.2 (hinc hfault.1).1

/-- `frameLen` looks at the header only, and reads every header at a frame boundary of the
    stream as what it denotes. -/
structure ReadBy (c : FramingConfig) (frameLen : Bytes → Except Halt Nat) (stream : Bytes) :
    Prop where
  header : ∀ raw, c.headerBytes ≤ raw.length → frameLen raw = frameLen (raw.take c.headerBytes)
  denoted : ∀ frames rest, Splits c.IsFrame stream frames rest → c.headerBytes ≤ rest.length →
    (c.InBounds (c.denoted (rest.take c.headerBytes)) ∧
        frameLen (rest.take c.headerBytes) = .ok (c.denoted (rest.take c.headerBytes))) ∨
      c.Faulty rest ∧ ∃ message, frameLen (rest.take c.headerBytes) = .error (.fault message)

theorem ReadBy.of_splits {stream rest : Bytes} {frames : List Bytes} (h : ReadBy c frameLen stream)
    (hsplit : Splits c.IsFrame stream frames rest) : ReadBy c frameLen rest :=
  ⟨h.header, fun _ _ hrest hlen => h.denoted _ _ (hsplit.trans hrest) hlen⟩

theorem ReadBy.front {rest : Bytes} (h : ReadBy c frameLen rest)
    (hlen : c.headerBytes ≤ rest.length) : (c.InBounds (c.denoted (rest.take c.headerBytes)) ∧
        frameLen (rest.take c.headerBytes) = .ok (c.denoted (rest.take c.headerBytes))) ∨
      c.Faulty rest ∧ ∃ message, frameLen (rest.take c.headerBytes) = .error (.fault message) :=
  h.denoted [] rest (.nil _ _) hlen

theorem cutWhole_returns (hv : c.Valid) {rest : Bytes} (hread : ReadBy c frameLen rest)
    (staging : Bytes) (out : List Bytes) :
    ∃ frames rest' result, Splits c.IsFrame rest frames rest' ∧ Ends c rest' result ∧
      loop (cutWhole frameLen c.headerBytes) (rest.length + 1) ⟨staging, rest, out⟩ =
        some (⟨staging, rest', out ++ frames⟩, result) := by
  induction hn : rest.length using Nat.strongRecOn generalizing rest out with
  | ind n ih =>
    by_cases hlen : c.headerBytes ≤ rest.length
    · have hfront := hread.front hlen
      rw [← hread.header rest hlen] at hfront
      rcases hfront with ⟨hbounds, hok⟩ | ⟨hfault, message, herr⟩
      · generalize htotal : c.denoted (rest.take c.headerBytes) = total at hbounds hok
        by_cases hwhole : total ≤ rest.length
        · -- A whole frame: cut it off and go on behind it.
          have hframe : c.IsFrame (rest.take total) := by grind [FramingConfig.isFrame_take]
          have hsplit : Splits c.IsFrame rest [rest.take total] (rest.drop total) :=
            ⟨by simp, by simpa using hframe⟩
          have hpos := hv.header_pos
          have hlow := hbounds.1
          have hshorter : (rest.drop total).length < n := by
            rw [length_drop]
            omega
          obtain ⟨frames, rest', result, hrest, hends, hret⟩ :=
            ih _ hshorter (hread.of_splits hsplit) (out ++ [rest.take total]) rfl
          refine ⟨rest.take total :: frames, rest', result, hsplit.trans hrest, hends, ?_⟩
          rw [append_assoc] at hret
          refine loop_next ?_ (loop_mono hret (hn ▸ hshorter))
          simp only [cutWhole, hok]
          rw [if_neg (by omega), if_neg (by omega)]
        · refine ⟨[], rest, .ok (), .nil _ _, fun _ => ?_, loop_done ?_⟩
          · rw [htotal]
            exact ⟨hbounds, by omega⟩
          · simp only [cutWhole, hok, append_nil]
            rw [if_neg (by omega), if_pos (by omega)]
      · refine ⟨[], rest, .error (.fault message), .nil _ _, hfault, loop_done ?_⟩
        simp only [cutWhole, herr, append_nil]
        rw [if_neg (by omega)]
    · refine ⟨[], rest, .ok (), .nil _ _, fun h => absurd h hlen, loop_done ?_⟩
      simp only [cutWhole, append_nil]
      rw [if_pos (by omega)]

theorem PushState.stage_split (bytes : Bytes) (out : List Bytes) {k n : Nat} (hle : k ≤ n) :
    PushState.stage ⟨bytes.take k, bytes.drop k, out⟩ (n - (bytes.take k).length) =
      ⟨bytes.take n, bytes.drop n, out⟩ := by
  rcases le_total k bytes.length with hk | hk
  · grind [stage, drop_drop]
  · grind [stage, take_of_length_le]

/-- Within `n` rounds a first loop on a piece of the frame in front of `bytes` leaves with
    nothing staged and at most one frame out, or the function returns from it. -/
def Completes (c : FramingConfig)
    (body : PushState → PushState ⊕ (PushState × Option (Except Halt Unit))) (n : Nat)
    (bytes : Bytes) (s : PushState) : Prop :=
  (∃ frames rest, Splits c.IsFrame bytes frames rest ∧ rest.length ≤ s.rest.length ∧
      loop body n s = some (⟨[], rest, frames⟩, none)) ∨
    ∃ staging rest result, Ends c bytes result ∧ (result = .ok () → staging = bytes) ∧
      loop body n s = some (⟨staging, rest, []⟩, some result)

theorem Completes.mono {body : PushState → PushState ⊕ (PushState × Option (Except Halt Unit))}
    {n m : Nat} {bytes : Bytes} {s : PushState} (h : Completes c body n bytes s) (hle : n ≤ m) :
    Completes c body m bytes s := by
  rcases h with ⟨frames, rest, hsplit, hrest, hret⟩ | ⟨staging, rest, result, hends, hkept, hret⟩
  · exact .inl ⟨frames, rest, hsplit, hrest, loop_mono hret hle⟩
  · exact .inr ⟨staging, rest, result, hends, hkept, loop_mono hret hle⟩

/-- The round that reads the header of `bytes`, with `k` of them staged. -/
def headerRound (frameLen : Bytes → Except Halt Nat) (headerBytes : Nat) (bytes : Bytes) (k : Nat) :
    PushState ⊕ (PushState × Option (Except Halt Unit)) :=
  match frameLen (bytes.take headerBytes) with
  | .error halt => .inr (⟨bytes.take k, bytes.drop k, []⟩, some (.error halt))
  | .ok total =>
    if bytes.length < total then .inr (⟨bytes.take total, bytes.drop total, []⟩, some (.ok ()))
    else .inl ⟨[], bytes.drop total, [bytes.take total]⟩

variable {body : PushState → PushState ⊕ (PushState × Option (Except Halt Unit))} {bytes : Bytes}
  {k : Nat} {s : PushState}

/-- The loop whose next round reads the header: the frame is completed, or the chunk runs out
    before, or the header faults. -/
theorem completes_of_round (hread : ReadBy c frameLen bytes) (hlen : c.headerBytes ≤ bytes.length)
    (hle : c.InBounds (c.denoted (bytes.take c.headerBytes)) →
      k ≤ c.denoted (bytes.take c.headerBytes))
    (hrest : bytes.length ≤ s.rest.length + k)
    (hnil : ∀ t : PushState, t.staging = [] → body t = .inr (t, none))
    (hround : (∀ total, frameLen (bytes.take c.headerBytes) = .ok total → k ≤ total) →
      body s = headerRound frameLen c.headerBytes bytes k) : Completes c body 2 bytes s := by
  rcases hread.front hlen with ⟨hbounds, hok⟩ | ⟨hfault, message, herr⟩
  · have hk := hle hbounds
    have hbody := hround fun total htotal => by
      rw [hok] at htotal
      cases htotal
      exact hk
    simp only [headerRound, hok] at hbody
    by_cases hshort : bytes.length < c.denoted (bytes.take c.headerBytes)
    · rw [if_pos hshort] at hbody
      exact .inr ⟨_, _, .ok (), fun _ => ⟨hbounds, hshort⟩,
        fun _ => take_of_length_le hshort.le, loop_done hbody⟩
    · rw [if_neg hshort] at hbody
      have hframe := FramingConfig.isFrame_take (not_lt.mp hshort) hbounds
      refine .inl
        ⟨[_], _, ⟨by simp, by simpa using hframe⟩, ?_, loop_next hbody (loop_done (hnil _ rfl))⟩
      rw [length_drop]
      omega
  · have hbody := hround fun total htotal => by
      rw [herr] at htotal
      cases htotal
    simp only [headerRound, herr] at hbody
    exact .inr ⟨_, _, .error (.fault message), hfault, nofun, loop_done hbody⟩

theorem completeStaged_header (hv : c.Valid) (hk : c.headerBytes ≤ k) (hlen : k ≤ bytes.length)
    (hread : ReadBy c frameLen bytes) (hle : c.InBounds (c.denoted (bytes.take c.headerBytes)) →
      k ≤ c.denoted (bytes.take c.headerBytes)) :
    Completes c
      (completeStaged frameLen c.headerBytes) 2 bytes ⟨bytes.take k, bytes.drop k, []⟩ := by
  have hpos := hv.header_pos
  have htake : (bytes.take k).length = k := by rw [length_take, min_eq_left hlen]
  have hne : bytes.take k ≠ [] := by grind
  refine completes_of_round hread (hk.trans hlen) hle (by rw [length_drop]; omega)
    (fun t ht => if_pos ht) fun htotal => ?_
  have hheader := hread.header (bytes.take k) (by omega)
  rw [take_take, min_eq_left hk] at hheader
  have hlong : ¬ (bytes.take k).length < c.headerBytes := by omega
  simp only [completeStaged, headerRound, if_neg hne, if_neg hlong, hheader]
  cases hok : frameLen (bytes.take c.headerBytes) with
  | error halt => rfl
  | ok total => grind [PushState.stage_split]

variable {staging chunk : Bytes}

theorem completeStaged_returns (hv : c.Valid)
    (hstaging : c.Incomplete staging) (hread : ReadBy c frameLen (staging ++ chunk)) :
    Completes c (completeStaged frameLen c.headerBytes) 3
      (staging ++ chunk) ⟨staging, chunk, []⟩ := by
  rcases eq_or_ne staging [] with rfl | hne
  · exact .inl ⟨[], chunk, .nil _ _, le_rfl, loop_done (if_pos rfl)⟩
  rcases lt_or_ge staging.length c.headerBytes with hpart | hfull
  · -- The header is completed first.
    have hstage := PushState.stage_split (staging ++ chunk) [] hpart.le
    rw [take_left, drop_left] at hstage
    by_cases hstill : (staging ++ chunk).length < c.headerBytes
    · refine .inr ⟨_, (staging ++ chunk).drop c.headerBytes, .ok (), fun h => by omega,
        fun _ => take_of_length_le hstill.le, loop_done ?_⟩
      simp only [completeStaged, hstage, length_take]
      rw [if_neg hne, if_pos hpart, if_pos (by omega)]
    · have hnext : completeStaged frameLen c.headerBytes ⟨staging, chunk, []⟩ = .inl
          ⟨(staging ++ chunk).take c.headerBytes, (staging ++ chunk).drop c.headerBytes, []⟩ := by
        simp only [completeStaged, hstage, length_take]
        rw [if_neg hne, if_pos hpart, if_neg (by omega)]
      rcases completeStaged_header hv le_rfl (by omega) hread (fun hbounds => hbounds.1) with
        ⟨frames, rest, hsplit, hle, hret⟩ | ⟨staging', rest, result, hends, hkept, hret⟩
      · refine .inl ⟨frames, rest, hsplit, hle.trans ?_, loop_next hnext hret⟩
        show ((staging ++ chunk).drop c.headerBytes).length ≤ chunk.length
        rw [length_drop, length_append]
        omega
      · exact .inr ⟨staging', rest, result, hends, hkept, loop_next hnext hret⟩
  · have hheader := completeStaged_header hv hfull (by simp) hread fun _ => by
      rw [take_append_of_le_length hfull]
      exact (hstaging hfull).2.le
    rw [take_left, drop_left] at hheader
    exact hheader.mono (by decide)

/-- A push of a chunk behind staged bytes puts out the whole frames, in order, and keeps the
    rest, or the rest is a fault. -/
def PushCuts (c : FramingConfig) (staging chunk : Bytes) (returns : Pushed → Prop) : Prop :=
  ∃ frames rest result staging', Splits c.IsFrame (staging ++ chunk) frames rest ∧
    Ends c rest result ∧ (result = .ok () → staging' = rest) ∧ returns ⟨staging', frames, result⟩

/-- A push whose first loop completes the staged frame, on bytes whose headers are read as they
    are, returns. -/
theorem pushLoops_returns (hv : c.Valid)
    (hfirst : Completes c body 3 (staging ++ chunk) ⟨staging, chunk, []⟩)
    (hread : ReadBy c frameLen (staging ++ chunk)) :
    PushCuts c staging chunk
      (pushLoops body (cutWhole frameLen c.headerBytes) (chunk.length + 3) staging chunk =
        some ·) := by
  rcases hfirst
    with ⟨frames, rest, hsplit, hle, hfirst⟩ | ⟨staging', rest, result, hends, hkept, hfirst⟩
  · obtain ⟨more, rest', result, hmore, hends, hsecond⟩ :=
      cutWhole_returns hv (hread.of_splits hsplit) [] frames
    have hfirst' := loop_mono hfirst (le_add_left 3 chunk.length)
    have hsecond' := loop_mono hsecond (Nat.add_le_add hle (show 1 ≤ 3 by decide))
    refine ⟨frames ++ more, rest', result, if result = .ok () then rest' else [],
      hsplit.trans hmore, hends, fun h => if_pos h, ?_⟩
    simp only [pushLoops, hfirst', hsecond']
    cases result <;> simp
  · refine ⟨[], staging ++ chunk, result, staging', .nil _ _, hends, hkept, ?_⟩
    simp only [pushLoops, loop_mono hfirst (le_add_left 3 chunk.length)]

theorem FramingConfig.headerLen_of_isFrame (hv : c.Valid) (hmax : c.maxFrameBytes < usizeModulus)
    {frame : Bytes} (hframe : c.IsFrame frame) (more : Bytes) :
    c.headerLen (frame ++ more) = .ok frame.length := by
  have hlow := hframe.bounds.1
  have hhigh := hframe.bounds.2
  rw [headerLen, take_append_of_le_length hlow, ← hframe.denoted]
  have hbounds := hframe.bounds
  rw [← hframe.denoted] at hbounds
  exact frameLen_ok hv (by rw [length_take, min_eq_left hlow]) (by rw [hframe.denoted]; omega)
    hbounds

theorem FramingConfig.NoWrap.readBy {stream : Bytes} (h : c.NoWrap stream) (hv : c.Valid) :
    ReadBy c c.headerLen stream where
  header raw _ := by rw [headerLen, headerLen, take_take, min_self]
  denoted frames rest hsplit hlen := by
    rw [headerLen, take_take, min_self]
    exact FramingConfig.frameLen_front hv (h.of_splits hsplit) hlen

theorem pushBytes_returns (hv : c.Valid) (hstaging : c.Incomplete staging)
    (hwrap : c.NoWrap (staging ++ chunk)) :
    PushCuts c staging chunk (PushReturns c staging chunk) := by
  have hread := hwrap.readBy hv
  obtain ⟨frames, rest, result, staging', hsplit, hends, hkept, hret⟩ :=
    pushLoops_returns hv (completeStaged_returns hv hstaging hread) hread
  exact ⟨frames, rest, result, staging', hsplit, hends, hkept, _, hret⟩

variable {n m : Nat} {p : Pushed}

/-- A push that has returned returns the same with more fuel. -/
theorem pushLoops_mono {second : PushState → PushState ⊕ (PushState × Except Halt Unit)}
    (h : pushLoops body second n staging chunk = some p) (hle : n ≤ m) :
    pushLoops body second m staging chunk = some p := by
  unfold pushLoops at h ⊢
  split at h
  · cases h
  · next s result hfirst => grind [loop_mono]
  · next s hfirst => grind [loop_mono]

theorem PushReturns.unique {q : Pushed}
    (hp : PushReturns c staging chunk p) (hq : PushReturns c staging chunk q) : p = q := by
  obtain ⟨n, hn⟩ := hp
  obtain ⟨m, hm⟩ := hq
  have hmax := pushLoops_mono hn (le_max_left n m)
  rw [pushLoops_mono hm (le_max_right n m)] at hmax
  exact (Option.some.inj hmax).symm

end

/-! ## Feeding a stream -/

/-- A deframer that is fed chunk by chunk: what it has staged, what came out of it, what
    went in, and the result of the last push. -/
structure Feed where
  staging : Bytes := []
  emitted : List Bytes := []
  fed : Bytes := []
  result : Except Halt Unit := .ok ()

/-- Push one more chunk; after an error the deframer is not fed again. -/
inductive Feed.Step (c : FramingConfig) : Feed → Bytes → Feed → Prop
  | push {f : Feed} {chunk : Bytes} {p : Pushed} (hok : f.result = .ok ())
      (hret : PushReturns c f.staging chunk p) :
      Feed.Step c f chunk ⟨p.staging, f.emitted ++ p.out, f.fed ++ chunk, p.result⟩

/-- Everything that went in came out as frames, or is what the last push ended on. -/
def Feed.Exact (c : FramingConfig) (f : Feed) : Prop :=
  ∃ rest, Splits c.IsFrame f.fed f.emitted rest ∧ Ends c rest f.result ∧
    (f.result = .ok () → f.staging = rest)

namespace Feed.Exact

variable {c : FramingConfig} {f : Feed}

theorem staged (h : f.Exact c) (hok : f.result = .ok ()) :
    Splits c.IsFrame f.fed f.emitted f.staging ∧ c.Incomplete f.staging := by
  obtain ⟨rest, hsplit, hends, hkept⟩ := h
  rw [hok] at hends
  rw [hkept hok]
  exact ⟨hsplit, hends⟩

theorem returns (hv : c.Valid) (h : f.Exact c) (hok : f.result = .ok ()) {chunk : Bytes}
    (hwrap : c.NoWrap (f.fed ++ chunk)) :
    PushCuts c f.staging chunk (PushReturns c f.staging chunk) := by
  obtain ⟨hsplit, hinc⟩ := h.staged hok
  exact pushBytes_returns hv hinc (hwrap.of_splits (hsplit.append chunk))

theorem step (hv : c.Valid) {f' : Feed} {chunk : Bytes} (h : f.Exact c)
    (hstep : Feed.Step c f chunk f') (hwrap : c.NoWrap f'.fed) : f'.Exact c := by
  cases hstep with
  | push hok hret =>
    obtain ⟨hsplit, -⟩ := h.staged hok
    obtain ⟨frames, rest, result, staging', hmore, hends, hkept, hret'⟩ := h.returns hv hok hwrap
    obtain rfl := hret.unique hret'
    exact ⟨rest, (hsplit.append chunk).trans hmore, hends, hkept⟩

theorem run (hv : c.Valid) {chunks : List Bytes} (hrun : Run (Feed.Step c) {} chunks f)
    (hwrap : c.NoWrap f.fed) : f.Exact c := by
  refine hrun.invariant (P := fun f => c.NoWrap f.fed → f.Exact c) ?_ ?_ hwrap
  · intro f chunk f' ih hstep hwrap'
    refine (ih ?_).step hv hstep hwrap'
    cases hstep with
    | push _ _ => exact hwrap'.of_append
  · intro _
    exact ⟨[], .nil _ _, FramingConfig.incomplete_nil hv, fun _ => rfl⟩

end Feed.Exact

/-- A validated deframer whose length field lies within `usize`, fed with any chunks of a
    stream no header of which denotes a total beyond `usize`:

    - every frame that came out is non-empty, within the maximum, and as long as its
      header denotes;
    - while no push has failed, the frames and the staged bytes are what was fed;
    - a push fails by a frame fault, never by a panic, and then the frames are followed by
      a header that denotes a total out of bounds;
    - wherever such a header follows whole frames of what was fed, the last push failed;
    - every further push returns. -/
theorem framing_exact {c : FramingConfig} (hvalid : c.validate = .ok ())
    (hoff : c.lengthOffset + c.lengthWidth < usizeModulus) {chunks : List Bytes} {f : Feed}
    (hrun : Run (Feed.Step c) {} chunks f) (hwrap : c.NoWrap f.fed) :
    (∀ frame ∈ f.emitted, frame ≠ [] ∧ frame.length ≤ c.maxFrameBytes ∧
      c.denoted (frame.take c.headerBytes) = frame.length) ∧
    (f.result = .ok () → f.emitted.flatten ++ f.staging = f.fed) ∧
    (∀ halt, f.result = .error halt → (∃ message, halt = .fault message) ∧
      ∃ bad, f.emitted.flatten ++ bad = f.fed ∧ c.Faulty bad) ∧
    (∀ frames bad, Splits c.IsFrame f.fed frames bad → c.Faulty bad →
      ∃ message, f.result = .error (.fault message)) ∧
    (f.result = .ok () → ∀ chunk, c.NoWrap (f.fed ++ chunk) →
      ∃ p, PushReturns c f.staging chunk p) := by
  have hv := FramingConfig.valid_of_validate hvalid hoff
  have hexact := Feed.Exact.run hv hrun hwrap
  obtain ⟨rest, hsplit, hends, hkept⟩ := hexact
  refine
    ⟨fun frame hmem => ?_, fun hok => ?_, fun halt herr => ?_, fun frames bad hbad hfault => ?_,
    fun hok chunk hchunk => ?_⟩
  · have hframe := hsplit.all frame hmem
    have hlow := hframe.bounds.1
    have hpos := hv.header_pos
    refine ⟨?_, hframe.bounds.2, hframe.denoted⟩
    rintro rfl
    rw [length_nil] at hlow
    omega
  · rw [hkept hok]
    exact hsplit.eq.symm
  · rw [herr] at hends
    cases halt with
    | fault message => exact ⟨⟨message, rfl⟩, rest, hsplit.eq.symm, hends⟩
    | panic => exact hends.elim
  · obtain ⟨-, rfl⟩ := hends.unique hfault.ends hsplit hbad
    exact hends.eq_fault hfault
  · obtain ⟨frames, rest', result, staging', -, -, -, hret⟩ :=
      Feed.Exact.returns hv ⟨rest, hsplit, hends, hkept⟩ hok hchunk
    exact ⟨_, hret⟩

/-- Frames with a one-byte header that is their length. -/
def byteFraming : FramingConfig where
  headerBytes := 1
  lengthOffset := 0
  lengthWidth := 1
  littleEndian := true
  lengthIncludesHeader := true
  maxFrameBytes := 16

theorem byteFraming_noWrap (stream : Bytes) : byteFraming.NoWrap stream := by
  intro frames rest _ _
  -- The length field is the total.
  show byteFraming.fieldValue _ < usizeModulus
  exact FramingConfig.fieldValue_lt (FramingConfig.valid_of_validate (by decide) (by decide)) _

/-- A frame of three bytes that arrives in two chunks, followed by an empty header. -/
theorem framing_exact_split_frame :
    ∃ f, Run (Feed.Step byteFraming) {} [[3, 7], [8, 0]] f ∧ f.emitted = [[3, 7, 8]] ∧
      ∃ message, f.result = .error (.fault message) := by
  have h1 : Run (Feed.Step byteFraming) {} [[3, 7]] _ := .single (.push rfl ⟨2, rfl⟩)
  have h2 : Run (Feed.Step byteFraming) {} [[3, 7], [8, 0]] _ := .snoc h1 (.push rfl ⟨2, rfl⟩)
  refine ⟨_, h2, rfl, ?_⟩
  refine (framing_exact (by decide) (by decide) h2 (byteFraming_noWrap _)).2.2.2.1 [[3, 7, 8]] [0]
    ⟨rfl, ?_⟩ ⟨by decide, by decide⟩
  simp only [mem_singleton, forall_eq]
  exact ⟨by decide, by decide⟩

/-- Frames with an eight-byte header that is the length of what follows it. -/
def wideFraming : FramingConfig where
  headerBytes := 8
  lengthOffset := 0
  lengthWidth := 8
  littleEndian := true
  lengthIncludesHeader := false
  maxFrameBytes := 64

/-- The length `2 ^ 64 - 8` wraps to a total of zero: the header is accepted, an empty
    frame is put out, the cursor stays where it is, and `push_bytes` never returns. -/
theorem wrapped_length_diverges :
    wideFraming.validate = .ok () ∧
      ¬ wideFraming.InBounds
        (wideFraming.denoted [0xf8, 0xff, 0xff, 0xff, 0xff, 0xff, 0xff, 0xff]) ∧
      ∀ fuel, pushBytes wideFraming fuel [] [0xf8, 0xff, 0xff, 0xff, 0xff, 0xff, 0xff, 0xff] =
        none := by
  refine ⟨by decide, by decide, fun fuel => ?_⟩
  cases fuel with
  | zero => rfl
  | succ fuel =>
    have hspin := loop_eq_none (cutWhole wideFraming.headerLen wideFraming.headerBytes)
      (I := fun s => s.rest = [0xf8, 0xff, 0xff, 0xff, 0xff, 0xff, 0xff, 0xff])
      (s := ⟨[], [0xf8, 0xff, 0xff, 0xff, 0xff, 0xff, 0xff, 0xff], []⟩) ?_ rfl (fuel + 1)
    · rw [pushBytes, pushLoops, loop]
      simp only [completeStaged, if_true, hspin]
    · rintro ⟨staging, rest, out⟩ hrest
      subst hrest
      refine ⟨⟨staging, _, out ++ [[]]⟩, ?_, rfl⟩
      have hzero : wideFraming.headerLen [0xf8, 0xff, 0xff, 0xff, 0xff, 0xff, 0xff, 0xff] =
          .ok 0 := by decide
      simp only [cutWhole]
      rfl

end WebTransportBun.Sink
