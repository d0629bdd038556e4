/-
  WebTransportBun.Wasm.Qpack.Streams

  What an endpoint does with its QPACK codec: the parts of `parse_qpack_encoder`,
  `parse_qpack_decoder` and `write_encoded_headers` (`crates/wasm/src/endpoint.rs`) that
  concern encoder, decoder and buffered bytes, with the connection left out.  The endpoint
  (`Endpoint.Connect`) and the link of two endpoints (`Qpack.Link`) both run these.
-/

import WebTransportBun.Library.Map
import WebTransportBun.Wasm.H3

namespace WebTransportBun.Wasm.Qpack

open Library

/-- The encoder capacity an endpoint derives from its own settings,
    `usize::try_from(max_table_capacity).unwrap_or(0)`. -/
def encoderCapacity (settings : QpackLocalSettings) : Nat :=
  if settings.maxTableCapacity ≤ usizeMax then settings.maxTableCapacity else 0

/-- Why a QPACK stream is not read on: the connection is closed for a reason, or the parser
    panicked. -/
inductive StreamStop
  | close (reason : String)
  | panic
  deriving DecidableEq, Repr

section

variable (huffman : Bytes → Option Bytes) (d : QpackDecoder) (rx : Bytes)

/-- `parse_qpack_encoder` on the buffered bytes: the decoder afterwards, the bytes that are
    left and the number of new inserts. -/
def parseEncoderStream : QpackDecoder × Except StreamStop (Bytes × Nat) :=
  if maxH3FrameSize < rx.length then (d, .error (.close "QPACK encoder stream too large"))
  else
    match feedEncoderStream huffman d rx with
    | (d', .error .panic) => (d', .error .panic)
    | (d', .error (.error _)) => (d', .error (.close "QPACK encoder stream error"))
    | (d', .ok n) =>
      let delta := d'.table.insertCount - d.table.insertCount
      (if 0 < delta then d'.noteInsertCountIncrement delta else d', .ok (rx.drop n, delta))

variable {huffman d rx}

/-- The report on new inserts is no part of the table. -/
theorem parseEncoderStream_ok {d' : QpackDecoder} {n : Nat} (hsmall : rx.length ≤ maxH3FrameSize)
    (hfeed : feedEncoderStream huffman d rx = (d', .ok n)) :
    ∃ d'' : QpackDecoder, d''.table = d'.table ∧ parseEncoderStream huffman d rx =
      (d'', .ok (rx.drop n, d'.table.insertCount - d.table.insertCount)) := by
  rw [parseEncoderStream, if_neg (by omega), hfeed]
  refine ⟨_, ?_, rfl⟩
  split <;> rfl

end

/-- Acknowledged sections raise the Known Received Count. -/
def applySectionAcks (encoder : QpackEncoder) (pending : Map Nat Nat) :
    List Nat → QpackEncoder × Map Nat Nat
  | [] => (encoder, pending)
  | sid :: sids =>
    match pending.get? sid with
    | none => applySectionAcks encoder pending sids
    | some ric => applySectionAcks (encoder.noteSectionAck ric) (pending.erase sid) sids

theorem applySectionAcks_keep {P : QpackEncoder → Prop} {pendingRic : Map Nat Nat}
    {sids : List Nat} (hstep : ∀ sid ∈ sids, ∀ ric, pendingRic.get? sid = some ric →
      ∀ e, P e → P (e.noteSectionAck ric)) {e : QpackEncoder} (h : P e) :
    P (applySectionAcks e pendingRic sids).1 := by
  induction sids generalizing e pendingRic with
  | nil => exact h
  | cons sid sids ih => grind [applySectionAcks, Map.get?_of_erase]

/-- The feedback of the peer's decoder: an increment, then the acknowledged sections. -/
def applyDecoderFeedback (encoder : QpackEncoder) (pending : Map Nat Nat)
    (feedback : DecoderFeedback) : QpackEncoder × Map Nat Nat :=
  applySectionAcks (if 0 < feedback.ici then encoder.notePeerIci feedback.ici else encoder)
    pending feedback.sectionAcks

/-- `parse_qpack_decoder` on the buffered bytes: encoder, sections that wait for their
    acknowledgement, and the bytes that are left. -/
def parseDecoderStream (encoder : QpackEncoder) (pending : Map Nat Nat) (rx : Bytes) :
    Except StreamStop (QpackEncoder × Map Nat Nat × Bytes) :=
  if maxH3FrameSize < rx.length then .error (.close "QPACK decoder stream too large")
  else
    match feedDecoderStream rx with
    | .error .panic => .error .panic
    | .error (.error _) => .error (.close "QPACK decoder stream error")
    | .ok (n, feedback) =>
      let (encoder, pending) := applyDecoderFeedback encoder pending feedback
      .ok (encoder, pending, rx.drop n)

theorem parseDecoderStream_ok {encoder : QpackEncoder} {pending : Map Nat Nat} {rx : Bytes}
    {n : Nat} {feedback : DecoderFeedback} (hsmall : rx.length ≤ maxH3FrameSize)
    (hfeed : feedDecoderStream rx = .ok (n, feedback)) :
    parseDecoderStream encoder pending rx =
      .ok ((applyDecoderFeedback encoder pending feedback).1,
        (applyDecoderFeedback encoder pending feedback).2, rx.drop n) := by
  rw [parseDecoderStream, if_neg (by omega), hfeed]

/-- `write_encoded_headers` remembers the Required Insert Count of a section that refers to
    the table, until the section is acknowledged. -/
def trackSectionRic (pending : Map Nat Nat) (streamId ric : Nat) : Map Nat Nat :=
  if 0 < ric then pending.insert streamId ric else pending

end WebTransportBun.Wasm.Qpack
