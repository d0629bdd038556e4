/-
  Sink.FrameCutter

  `FrameCutter` of `sink-ring-writer.ts`, the deframer of the wasm backend.  Its two loops are
  those of the native deframer; its lengths are JavaScript numbers and do not wrap.  A length
  beyond `2 ^ 53` is rounded there, but then it is beyond `maxFrameBytes` before and after.

  A push returns on every chunk: it hands out the frames of the stream and keeps a piece of the
  next one, or throws on a header that no frame may have (`push_returns`).  When it throws, the
  frames that it has cut off the chunk before are lost.
-/

import WebTransportBun.Sink.Options

namespace WebTransportBun.Sink

/-- What a push returns that has its frames in a local variable: when it throws they are gone. -/
def Pushed.returned (p : Pushed) : Bytes × Except Halt (List Bytes) :=
  (p.staging, p.result.map fun _ => p.out)

namespace FrameCutter

open Library List FramingConfig

def new (framing : FramingConfig) : Except String FramingConfig := do
  refuse (framing.headerBytes < 1 ∨ 64 < framing.headerBytes)
    (bad "framing headerBytes must be 1..=64")
  refuse (framing.lengthWidth ∉ [1, 2, 4, 8]) (bad "framing lengthWidth must be 1, 2, 4, or 8")
  refuse (framing.headerBytes < framing.lengthOffset + framing.lengthWidth)
    (bad "framing length field does not fit in the header")
  refuse (framing.maxFrameBytes < framing.headerBytes)
    (bad "framing maxFrameBytes is smaller than the header")
  return framing

section

variable (f : FramingConfig)

/-- One round of the loops of `#frameLen`, with `header[..] ?? 0`. -/
def addByte (header : Bytes) (value i : Nat) : Nat :=
  value * 256 + (header[f.lengthOffset + i]?.getD 0).toNat

def lengthValue (header : Bytes) : Nat :=
  if f.littleEndian then (range f.lengthWidth).reverse.foldl (addByte f header) 0
  else (range f.lengthWidth).foldl (addByte f header) 0

def frameLen (header : Bytes) : Except Halt Nat :=
  let value := lengthValue f header
  let total := if f.lengthIncludesHeader then value else f.headerBytes + value
  if f.lengthIncludesHeader ∧ value < f.headerBytes then
    .error (.fault (s!"E_SINK_FRAME_FAULT: claimed length {value} is shorter than " ++
      s!"the {f.headerBytes} byte header"))
  else if f.maxFrameBytes < total then
    .error (.fault
      s!"E_SINK_FRAME_FAULT: frame of {total} bytes exceeds maxFrameBytes {f.maxFrameBytes}")
  else .ok total

/-- `push`, with the staged bytes; `none` would be a push that does not return. -/
def push (staging chunk : Bytes) : Option (Bytes × Except Halt (List Bytes)) :=
  (pushLoops (completeStaged (frameLen f) f.headerBytes) (cutWhole (frameLen f) f.headerBytes)
    (chunk.length + 3) staging chunk).map Pushed.returned

end

/-! ## What a header is read as -/

section

variable {c : FramingConfig}

theorem valid_of_new {framing : FramingConfig} (h : new framing = .ok c) :
    c.Valid ∧ c = framing := by
  obtain ⟨_, hheader, h⟩ := bind_eq_ok h
  obtain ⟨_, hwidth, h⟩ := bind_eq_ok h
  obtain ⟨_, hfield, h⟩ := bind_eq_ok h
  obtain ⟨_, hmax, h⟩ := bind_eq_ok h
  cases h
  have hheader := not_of_refuse hheader
  have hwidth := not_of_refuse hwidth
  have hfield := not_of_refuse hfield
  have hmax := not_of_refuse hmax
  simp only [mem_cons, not_mem_nil, or_false] at hwidth
  exact ⟨⟨by omega, by omega, by omega, by omega, by omega⟩, rfl⟩

theorem foldl_bytes (raw : Bytes) (v : Nat) :
    raw.foldl (fun value b => value * 256 + b.toNat) v =
      v * 256 ^ raw.length + leValue raw.reverse := by
  induction raw generalizing v with
  | nil => simp [leValue]
  | cons b raw ih =>
    rw [foldl_cons, ih, reverse_cons, leValue_append, length_cons,
      length_reverse]
    simp only [leValue]
    ring

theorem foldl_addByte (header : Bytes) {is : List Nat} (his : ∀ i ∈ is, i < c.lengthWidth)
    (v : Nat) :
    is.foldl (addByte c header) v =
      (is.map fun i => (c.lengthField header)[i]?.getD 0).foldl
        (fun value b => value * 256 + b.toNat) v := by
  rw [foldl_map]
  refine foldl_ext _ _ _ fun value i hi => ?_
  rw [addByte, lengthField, getElem?_take_of_lt (his i hi), getElem?_drop]

variable {header : Bytes}

section

variable (hlen : c.lengthOffset + c.lengthWidth ≤ header.length)

include hlen

theorem map_range_lengthField :
    (range c.lengthWidth).map (fun i => (c.lengthField header)[i]?.getD 0) =
      c.lengthField header := by
  have hwidth : (c.lengthField header).length = c.lengthWidth := by
    rw [lengthField, length_take, length_drop]
    omega
  refine ext_getElem (by rw [length_map, length_range, hwidth]) fun i hi hi' => ?_
  rw [getElem_map, getElem_range, getElem?_eq_getElem hi', Option.getD_some]

theorem lengthValue_eq :
    lengthValue c header = c.fieldValue header := by
  have hrange : ∀ i ∈ range c.lengthWidth, i < c.lengthWidth := fun i => mem_range.mp
  unfold lengthValue fieldValue
  split
  · grind [foldl_addByte, map_reverse, map_range_lengthField, foldl_bytes]
  · rw [foldl_addByte header hrange, map_range_lengthField hlen, foldl_bytes]
    omega

end

section

variable (hv : c.Valid)

include hv

theorem fieldValue_take (raw : Bytes) :
    c.fieldValue (raw.take c.headerBytes) = c.fieldValue raw := by
  have hfield : c.lengthField (raw.take c.headerBytes) = c.lengthField raw := by
    have := hv.field_le
    rw [lengthField, lengthField, drop_take, take_take,
      min_eq_left (by omega)]
  rw [fieldValue, fieldValue, hfield]

theorem frameLen_eq {raw : Bytes} (hlen : c.headerBytes ≤ raw.length) :
    (c.InBounds (c.denoted (raw.take c.headerBytes)) ∧
        frameLen c raw = .ok (c.denoted (raw.take c.headerBytes))) ∨
      c.Faulty raw ∧ ∃ message, frameLen c raw = .error (.fault message) := by
  have hfield := hv.field_le
  have hvalue : lengthValue c raw = c.fieldValue (raw.take c.headerBytes) := by
    rw [lengthValue_eq (by omega), fieldValue_take hv]
  simp only [frameLen, FramingConfig.Faulty, FramingConfig.InBounds, denoted]
  cases c.lengthIncludesHeader with
  | true => grind
  | false => grind

theorem readBy (stream : Bytes) : ReadBy c (frameLen c) stream where
  header raw hlen := by
    have hfield := hv.field_le
    have htake : c.headerBytes ≤ (raw.take c.headerBytes).length := by
      rw [length_take]
      omega
    have hvalue : lengthValue c raw = lengthValue c (raw.take c.headerBytes) := by
      rw [lengthValue_eq (by omega), lengthValue_eq (by omega), fieldValue_take hv]
    simp only [frameLen, hvalue]
  denoted frames rest _ hlen := by
    have htake : c.headerBytes ≤ (rest.take c.headerBytes).length := by
      rw [length_take]
      omega
    have hfront := frameLen_eq hv htake
    rw [take_take, min_self] at hfront
    rcases hfront with hok | ⟨hfault, herror⟩
    · exact .inl hok
    · refine .inr ⟨⟨hlen, ?_⟩, herror⟩
      have hbounds := hfault.2
      rwa [take_take, min_self] at hbounds

theorem push_returns {staging : Bytes} (hstaging : c.Incomplete staging) (chunk : Bytes) :
    PushCuts c staging chunk (push c staging chunk = some ·.returned) := by
  have hread := readBy hv (staging ++ chunk)
  obtain ⟨frames, rest, result, staging', hsplit, hends, hkept, hret⟩ :=
    pushLoops_returns hv (completeStaged_returns hv hstaging hread) hread
  exact ⟨frames, rest, result, staging', hsplit, hends, hkept, by rw [push, hret]; rfl⟩

end

end

end FrameCutter

end WebTransportBun.Sink
