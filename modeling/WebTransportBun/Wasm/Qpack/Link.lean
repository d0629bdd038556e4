/-
  WebTransportBun.Wasm.Qpack.Link

  One direction of QPACK between two endpoints, as `crates/wasm/src/endpoint.rs` drives it:
  `write_encoded_headers` on the sending side, `parse_qpack_encoder` and the decoding of
  HEADERS on the receiving side, `parse_qpack_decoder` for the feedback.

  The streams are byte streams.  Delivery of the encoder stream and of the decoder stream
  happens in chunks of any size, each stream in order; a field section travels on its own
  stream and is decoded at any time, again and again while it is blocked.
-/

import WebTransportBun.Library.Run
import WebTransportBun.Wasm.Qpack.Streams

namespace WebTransportBun.Wasm.Qpack

open Library Option

/-- The section of a whole HEADERS frame.  The size check of `decode_frame_header` is not
    part of it; `acceptHeaders` makes it. -/
def headersPayload (frame : Bytes) : Option Bytes := do
  let (ftype, flen, header) ← frameHeader frame
  guard (ftype = frameHeaders ∧ header + flen ≤ frame.length)
  return framePayload frame header (header + flen)

inductive Call
  | connectRequest (authority path : String)
  | statusResponse (status : String)
  deriving DecidableEq, Repr

def Call.headers : Call → List HeaderField
  | connectRequest authority path => connectHeaders authority path
  | statusResponse status => [(":status", status)]

/-- The strings of a call, whose lengths are `usize` values. -/
def Call.strings : Call → List String
  | connectRequest authority path => [authority, path]
  | statusResponse status => [status]

/-- A field section on its stream, not decoded yet.  The last three fields are not on the
    wire: the headers it was made from, the entries it refers to, and the length of the
    encoder stream up to and including its own inserts. -/
structure SentSection where
  streamId : Nat
  encoded : EncodedHeaders
  headers : List HeaderField
  indexes : List Nat
  streamEnd : Nat
  deriving DecidableEq, Repr

structure Link where
  /-- Sending side: encoder, unparsed decoder-stream bytes, Required Insert Counts of
      sections that wait for their acknowledgement. -/
  encoder : QpackEncoder
  decoderRx : Bytes := []
  pendingSectionRic : Map Nat Nat := ∅
  /-- Receiving side: decoder and unparsed encoder-stream bytes. -/
  decoder : QpackDecoder
  encoderRx : Bytes := []
  /-- In between: all bytes of the encoder stream with the number delivered, the
      undelivered bytes of the decoder stream, and the sections. -/
  encoderStream : Bytes := []
  delivered : Nat := 0
  decoderStream : Bytes := []
  sections : List SentSection := []
  /-- Streams that carry or carried a section. -/
  usedStreams : List Nat := []
  /-- One side has torn the connection down. -/
  closed : Bool := false

namespace Link

/-- One direction of a connection between endpoints with settings of their own, nothing
    sent yet. -/
def between (sender receiver : QpackLocalSettings) : Link :=
  { encoder := .new (encoderCapacity sender), decoder := .new receiver }

def encode (l : Link) (streamId : Nat) (call : Call) : Link :=
  let (encoded, encoder) := encodeOrLiteral l.encoder call.headers
  let indexes := match placeHeaders l.encoder call.headers with
    | .ok (indexes, _, _) => indexes
    | .error _ => []
  let encoderStream := l.encoderStream ++ encoded.encoderStream
  { l with
    encoder
    encoderStream
    pendingSectionRic := trackSectionRic l.pendingSectionRic streamId encoded.ric
    sections := l.sections ++
      [{ streamId, encoded, headers := call.headers, indexes, streamEnd := encoderStream.length }]
    usedStreams := streamId :: l.usedStreams }

def parseQpackDecoder (l : Link) : Link :=
  match parseDecoderStream l.encoder l.pendingSectionRic l.decoderRx with
  | .error _ => { l with closed := true }
  | .ok (encoder, pendingSectionRic, decoderRx) =>
    { l with encoder, pendingSectionRic, decoderRx }

def deliverDecoder (l : Link) (n : Nat) : Link :=
  { l with
    decoderRx := l.decoderRx ++ l.decoderStream.take n
    decoderStream := l.decoderStream.drop n }.parseQpackDecoder

section

variable (huffman : Bytes → Option Bytes)

/-- `parse_qpack_encoder`: apply what is complete and report new inserts. -/
def parseQpackEncoder (l : Link) : Link :=
  match parseEncoderStream huffman l.decoder l.encoderRx with
  | (decoder, .error _) => { l with decoder, closed := true }
  | (decoder, .ok (encoderRx, delta)) =>
    { l with
      decoder
      encoderRx
      decoderStream :=
        if 0 < delta then l.decoderStream ++ encodeInsertCountIncrement delta
        else l.decoderStream }

def deliverEncoder (l : Link) (n : Nat) : Link :=
  { l with
    encoderRx := l.encoderRx ++ (l.encoderStream.drop l.delivered).take n
    delivered := min (l.delivered + n) l.encoderStream.length }.parseQpackEncoder huffman

/-- What the receiver's decoder says about a section now. -/
def tryDecode (l : Link) (sec : SentSection) : Except QpackError (List HeaderField × Nat) :=
  match headersPayload sec.encoded.headersFrame with
  | none => .error .invalid
  | some payload => decodeFieldSection huffman payload l.decoder

/-- Decode a section: a decoded one is acknowledged (unless its Required Insert Count is
    zero) and done, a blocked one stays, an invalid one tears the connection down. -/
def decode (l : Link) (sec : SentSection) : Link :=
  match l.tryDecode huffman sec with
  | .ok (_, ric) =>
    { l with
      sections := l.sections.erase sec
      decoderStream :=
        if ric = 0 then l.decoderStream
        else l.decoderStream ++ encodeSectionAcknowledgement sec.streamId }
  | .error .blocked => l
  | .error .invalid => { l with closed := true }

inductive Op
  | encode (streamId : Nat) (call : Call)
  | deliverEncoder (n : Nat)
  | deliverDecoder (n : Nat)
  | decode (sec : SentSection)
  deriving DecidableEq, Repr

/-- One step of a connection that is up.  A section gets a stream of its own, with a QUIC
    stream id, and its strings have `usize` lengths with room for a frame header. -/
inductive Step : Link → Op → Link → Prop
  | encode {l : Link} {streamId : Nat} {call : Call} (hopen : l.closed = false)
      (hfresh : streamId ∉ l.usedStreams) (hid : streamId < 2 ^ 62)
      (hlen : ∀ s ∈ call.strings, (strBytes s).length ≤ usizeMax) :
      Step l (.encode streamId call) (l.encode streamId call)
  | deliverEncoder {l : Link} {n : Nat} (hopen : l.closed = false) :
      Step l (.deliverEncoder n) (l.deliverEncoder huffman n)
  | deliverDecoder {l : Link} {n : Nat} (hopen : l.closed = false) :
      Step l (.deliverDecoder n) (l.deliverDecoder n)
  | decode {l : Link} {sec : SentSection} (hopen : l.closed = false) (hsec : sec ∈ l.sections) :
      Step l (.decode sec) (l.decode huffman sec)

def exec (l : Link) (op : Op) : Option Link :=
  if l.closed then none
  else
    match op with
    | .encode streamId call =>
      if streamId ∉ l.usedStreams ∧ streamId < 2 ^ 62 ∧
          ∀ s ∈ call.strings, (strBytes s).length ≤ usizeMax then
        some (l.encode streamId call)
      else none
    | .deliverEncoder n => some (l.deliverEncoder huffman n)
    | .deliverDecoder n => some (l.deliverDecoder n)
    | .decode sec => if sec ∈ l.sections then some (l.decode huffman sec) else none

variable {huffman} in
theorem step_of_exec {l l' : Link} {op : Op} (h : l.exec huffman op = some l') :
    Step huffman l op l' := by
  obtain ⟨hopen, h⟩ := ite_none_left_eq_some.mp h
  rw [Bool.not_eq_true] at hopen
  cases op with
  | encode streamId call =>
    obtain ⟨⟨hfresh, hid, hlen⟩, h⟩ := ite_none_right_eq_some.mp h
    cases h
    exact .encode hopen hfresh hid hlen
  | deliverEncoder n =>
    cases h
    exact .deliverEncoder hopen
  | deliverDecoder n =>
    cases h
    exact .deliverDecoder hopen
  | decode sec =>
    obtain ⟨hsec, h⟩ := ite_none_right_eq_some.mp h
    cases h
    exact .decode hopen hsec

end

end Link

end WebTransportBun.Wasm.Qpack
