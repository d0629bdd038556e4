/-
  WebTransportBun.Wasm.LiteralHeaders

  The literal-only HEADERS frames of `crates/wasm/src/h3.rs` (`encode_connect_request`,
  `encode_status_response`) read back the way the endpoint reads them:
  `decode_frame_header` finds the frame, `decode_literal_headers` its header list.

  `decode_frame_header` refuses payloads over `MAX_H3_FRAME_SIZE`; the encoders have no
  such limit.
-/

import WebTransportBun.Wasm.H3
import WebTransportBun.Wasm.Qpack.Reorder

namespace WebTransportBun.Wasm

open List Varint

open Qpack

/-! ## Frames -/

section Frames

variable {frameType : Nat} {payload : Bytes}

section

variable (htype : frameType < 2 ^ 62)

include htype

theorem length_frameWrap (hlen : payload.length < 2 ^ 62) :
    (frameWrap frameType payload).length =
      width frameType + width payload.length + payload.length := by
  rw [frameWrap, length_append, length_append, length_encode htype,
    length_encode hlen]

theorem decodeFrameHeader_frameWrap (hsize : payload.length ≤ maxH3FrameSize) (rest : Bytes) :
    decodeFrameHeader (frameWrap frameType payload ++ rest) =
      .ready (width frameType + width payload.length)
        (frameWrap frameType payload).length frameType := by
  have hmax : maxH3FrameSize = 2 ^ 20 := rfl
  have hlen : payload.length < 2 ^ 62 := by omega
  have htotal := length_frameWrap htype hlen
  rw [decodeFrameHeader, frameHeader_frameWrap htype hlen]
  show (if maxH3FrameSize < payload.length then FrameHdr.tooLarge else _) = _
  rw [if_neg (by omega), if_neg, htotal]
  rw [length_append]
  omega

theorem decodeFrameHeader_tooLarge (hsize : maxH3FrameSize < payload.length)
    (hlen : payload.length < 2 ^ 62) (rest : Bytes) :
    decodeFrameHeader (frameWrap frameType payload ++ rest) = .tooLarge := by
  rw [decodeFrameHeader, frameHeader_frameWrap htype hlen]
  exact if_pos hsize

theorem framePayload_frameWrap (hlen : payload.length < 2 ^ 62)
    (rest : Bytes) : framePayload (frameWrap frameType payload ++ rest)
      (width frameType + width payload.length)
      (frameWrap frameType payload).length = payload := by
  have hfront : (encode frameType ++ encode payload.length).length =
      width frameType + width payload.length := by
    rw [length_append, length_encode htype, length_encode hlen]
  rw [framePayload, take_left, frameWrap, ← hfront, drop_left]

end

end Frames

/-! ## Header lists -/

section Headers

variable (huffman : Bytes → Option Bytes)

/-- The frame at the front of `buf` ends after `len` bytes and holds the headers. -/
def ReadsHeaders (buf : Bytes) (len : Nat) (headers : List HeaderField) : Prop :=
  ∃ header, decodeFrameHeader buf = .ready header len FrameType.headers ∧
    decodeLiteralHeaders huffman (framePayload buf header len) = some headers

theorem strBytes_lt_literalSection {headers : List HeaderField} {h : HeaderField}
    (hmem : h ∈ headers) : (strBytes h.1).length < (literalSection headers).length ∧
      (strBytes h.2).length < (literalSection headers).length := by
  have hline : (qpackLiteral h).length ≤ (headers.map qpackLiteral).flatten.length :=
    (sublist_flatten_of_mem (mem_map_of_mem hmem)).length_le
  simp only [qpackLiteral, qpackString, length_append] at hline
  simp only [literalSection, length_cons]
  omega

/-- A literal section within the frame limit is read back, whatever follows its frame. -/
theorem readsHeaders_literalSection {headers : List HeaderField}
    (hsize : (literalSection headers).length ≤ maxH3FrameSize) (rest : Bytes) :
    ReadsHeaders huffman ((encodeLiteralHeaders headers).headersFrame ++ rest)
      (encodeLiteralHeaders headers).headersFrame.length headers := by
  have hmax : maxH3FrameSize = 2 ^ 20 := rfl
  have husize : usizeMax = 2 ^ 32 - 1 := rfl
  have htype : frameHeaders < 2 ^ 62 := by decide
  refine ⟨_, decodeFrameHeader_frameWrap htype hsize rest, ?_⟩
  have hpayload := framePayload_frameWrap htype
    (show (literalSection headers).length < 2 ^ 62 by omega) rest
  have hsection : decodeFieldSection huffman (literalSection headers) (.new .disabled) =
      .ok (headers, 0) := by
    apply decodeFieldSection_literal
    intro h hmem
    have hlt := strBytes_lt_literalSection hmem
    omega
  refine (congrArg (decodeLiteralHeaders huffman) hpayload).trans ?_
  rw [decodeLiteralHeaders, hsection]

end Headers

/-- Requests and responses whose section is within the frame limit are read back to their
    header lists, and their frames end where the encodings end. -/
theorem literal_headers_read_back (huffman : Bytes → Option Bytes) (rest : Bytes) :
    (∀ authority path : String,
      (literalSection (connectHeaders authority path)).length ≤ maxH3FrameSize →
      ReadsHeaders huffman (encodeConnectRequest authority path ++ rest)
        (encodeConnectRequest authority path).length
        [(":method", "CONNECT"), (":protocol", "webtransport"), (":scheme", "https"),
          (":authority", authority), (":path", path)]) ∧
    ∀ status : String, (literalSection [(":status", status)]).length ≤ maxH3FrameSize →
      ReadsHeaders huffman (encodeStatusResponse status ++ rest)
        (encodeStatusResponse status).length [(":status", status)] := by
  constructor
  · intro authority path hsize
    exact readsHeaders_literalSection huffman hsize rest
  · intro status hsize
    exact readsHeaders_literalSection huffman hsize rest

theorem literal_headers_read_back_example :
    ReadsHeaders (fun _ => none) (encodeConnectRequest "example.com" "/echo")
        (encodeConnectRequest "example.com" "/echo").length
        [(":method", "CONNECT"), (":protocol", "webtransport"), (":scheme", "https"),
          (":authority", "example.com"), (":path", "/echo")] ∧
      ReadsHeaders (fun _ => none) (encodeStatusResponse "200")
        (encodeStatusResponse "200").length [(":status", "200")] := by
  obtain ⟨hrequest, hresponse⟩ := literal_headers_read_back (fun _ => none) []
  have hconnect := hrequest "example.com" "/echo" (by decide)
  have hstatus := hresponse "200" (by decide)
  exact ⟨hconnect, hstatus⟩

/-- A request whose authority alone reaches the limit is refused on its header. -/
theorem decodeFrameHeader_of_long_authority {authority path : String}
    (hlong : maxH3FrameSize ≤ (strBytes authority).length)
    (hauthority : (strBytes authority).length ≤ usizeMax)
    (hpath : (strBytes path).length ≤ usizeMax) :
    decodeFrameHeader (encodeConnectRequest authority path) = .tooLarge := by
  have hmem : (":authority", authority) ∈ connectHeaders authority path := by
    simp [connectHeaders]
  have hsize : maxH3FrameSize < (literalSection (connectHeaders authority path)).length :=
    lt_of_le_of_lt hlong (strBytes_lt_literalSection hmem).2
  have hfits : ∀ h ∈ connectHeaders authority path, HeaderFits h := by
    simp only [connectHeaders, forall_mem_cons, HeaderFits, hauthority, hpath]
    decide
  have hlen := length_literalSection hfits
  have husize : usizeMax = 2 ^ 32 - 1 := rfl
  have hcount : (connectHeaders authority path).length = 5 := rfl
  rw [hcount] at hlen
  have hrefused := decodeFrameHeader_tooLarge (show FrameType.headers < 2 ^ 62 by decide) hsize
    (by omega) []
  rwa [append_nil] at hrefused

theorem long_authority_refused :
    decodeFrameHeader (encodeConnectRequest (letters (2 ^ 20)) "/") = .tooLarge := by
  have hlen := length_strBytes_letters (2 ^ 20)
  have hmax : maxH3FrameSize = 2 ^ 20 := rfl
  have husize : usizeMax = 2 ^ 32 - 1 := rfl
  exact decodeFrameHeader_of_long_authority (by omega) (by omega) (by decide)

end WebTransportBun.Wasm
