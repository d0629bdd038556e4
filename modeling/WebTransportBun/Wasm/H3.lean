/-
  WebTransportBun.Wasm.H3

  The HTTP/3 and WebTransport conventions the endpoint works with: stream and frame
  types, SETTINGS, frame headers, datagram framing (`crates/wasm/src/h3.rs`), the
  application error mapping (`crates/wasm/src/wt_error.rs`) and the small classifiers at
  the top of `crates/wasm/src/endpoint.rs`.
-/

import WebTransportBun.Wasm.Qpack.Codec

namespace WebTransportBun.Wasm

open Qpack Varint

/-! ## Stream and frame types -/

namespace StreamType

def control : Nat := 0x00
def qpackEncoder : Nat := 0x02
def qpackDecoder : Nat := 0x03
def wtUni : Nat := 0x54

end StreamType

namespace FrameType

def data : Nat := 0x00
def headers : Nat := frameHeaders
def settings : Nat := 0x04
def wtBidi : Nat := 0x41

end FrameType

inductive PeerStreamClass
  | control
  | serverConnect
  | qpackEncoder
  | qpackDecoder
  | webTransport
  | ignore
  deriving DecidableEq, Repr

/-- `classify_peer_stream_kind`: the first varint of a peer-accepted stream. -/
def classifyPeerStreamKind (kind : Nat) (isBidi : Bool) : PeerStreamClass :=
  if kind = StreamType.control then .control
  else if kind = FrameType.headers ∧ isBidi then .serverConnect
  else if kind = StreamType.qpackEncoder then .qpackEncoder
  else if kind = StreamType.qpackDecoder then .qpackDecoder
  else if kind = StreamType.wtUni ∨ kind = FrameType.wtBidi then .webTransport
  else .ignore

/-- `required_slots_for_in_stream`: how many host events a read of a classified stream may
    enqueue. -/
def requiredSlotsForInStream (kind : Option Nat) (isBidi hasHandle : Bool) : Nat :=
  match kind with
  | none => 2
  | some kind =>
    match classifyPeerStreamKind kind isBidi with
    | .webTransport => if hasHandle then 1 else 2
    | _ => 0

/-! ## Frames -/

def maxH3FrameSize : Nat := 1 <<< 20

inductive FrameHdr
  | incomplete
  | tooLarge
  | ready (header total ftype : Nat)
  deriving DecidableEq, Repr

/-- `decode_frame_header`: the header of the frame at the front of `buf`, once the whole
    frame is there. -/
def decodeFrameHeader (buf : Bytes) : FrameHdr :=
  match frameHeader buf with
  | none => .incomplete
  | some (ftype, flen, header) =>
    if maxH3FrameSize < flen then .tooLarge
    else if buf.length < header + flen then .incomplete
    else .ready header (header + flen) ftype

def framePayload (buf : Bytes) (header total : Nat) : Bytes := (buf.take total).drop header

/-! ## SETTINGS -/

namespace Setting

def qpackMaxTableCapacity : Nat := 0x01
def qpackBlockedStreams : Nat := 0x07
def enableConnectProtocol : Nat := 0x08
def h3Datagram : Nat := 0x33
def enableWebtransport : Nat := 0x2b603742
def webtransportMaxSessions : Nat := 0xc671706a

end Setting

/-- `encode_control_preamble_with`: the control stream's type and our SETTINGS frame. -/
def encodeControlPreambleWith (maxSessions : Nat) (qpack : QpackLocalSettings) : Bytes :=
  let pairs :=
    [ (Setting.qpackMaxTableCapacity, qpack.maxTableCapacity),
      (Setting.qpackBlockedStreams, qpack.maxBlockedStreams),
      (Setting.enableConnectProtocol, 1),
      (Setting.h3Datagram, 1),
      (Setting.enableWebtransport, 1),
      (Setting.webtransportMaxSessions, maxSessions) ]
  let payload := (pairs.map fun (id, val) => encode id ++ encode val).flatten
  encode StreamType.control ++ frameWrap FrameType.settings payload

structure PeerSettings where
  webtransport : Bool := false
  h3Datagram : Bool := false
  connectProtocol : Bool := false
  maxSessions : Nat := 0
  qpackMaxTableCapacity : Nat := 0
  qpackBlockedStreams : Nat := 0
  deriving DecidableEq, Repr

/-- One setting of the frame; unknown ones are ignored. -/
def PeerSettings.apply (s : PeerSettings) (id val : Nat) : PeerSettings :=
  if id = Setting.enableWebtransport then { s with webtransport := val = 1 }
  else if id = Setting.h3Datagram then { s with h3Datagram := val = 1 }
  else if id = Setting.enableConnectProtocol then { s with connectProtocol := val = 1 }
  else if id = Setting.webtransportMaxSessions then { s with maxSessions := val }
  else if id = Setting.qpackMaxTableCapacity then { s with qpackMaxTableCapacity := val }
  else if id = Setting.qpackBlockedStreams then { s with qpackBlockedStreams := val }
  else s

/-- The loop of `parse_settings`; each pair takes at least two bytes. -/
def parseSettingsLoop : Nat → PeerSettings → Bytes → Option PeerSettings
  | _, s, [] => some s
  | 0, _, _ :: _ => none
  | fuel + 1, s, payload => do
    let (id, n1) ← decode payload
    let payload := payload.drop n1
    let (val, n2) ← decode payload
    parseSettingsLoop fuel (s.apply id val) (payload.drop n2)

def parseSettings (payload : Bytes) : Option PeerSettings :=
  parseSettingsLoop payload.length {} payload

/-! ## Datagrams -/

def datagramPrefixLen (connectStreamId : Nat) : Nat := width (connectStreamId / 4)

def wrapDatagram (connectStreamId : Nat) (payload : Bytes) : Bytes :=
  encode (connectStreamId / 4) ++ payload

/-- `unwrap_datagram`: the quarter-session-id and the payload. -/
def unwrapDatagram (buf : Bytes) : Option (Nat × Bytes) := do
  let (qsid, n) ← decode buf
  return (qsid, buf.drop n)

/-! ## Requests and responses -/

inductive ConnectStatusKind
  | success
  | interim
  | failure
  deriving DecidableEq, Repr

def classifyConnectStatus : Option Nat → ConnectStatusKind
  | none => .failure
  | some status =>
    if 200 ≤ status ∧ status ≤ 299 then .success
    else if 100 ≤ status ∧ status ≤ 199 then .interim
    else .failure

/-- `str::parse::<u16>`: decimal digits after an optional plus sign. -/
def parseU16 (text : String) : Option Nat :=
  let digits := match text.toList with
    | '+' :: rest => rest
    | chars => chars
  if digits.isEmpty ∨ ¬ digits.all Char.isDigit then none
  else
    let value := digits.foldl (fun v c => v * 10 + (c.toNat - 48)) 0
    if value ≤ 65535 then some value else none

def connectStatus (headers : List HeaderField) : Option Nat :=
  (headers.find? fun h => h.1 == ":status").bind fun h => parseU16 h.2

def headersAreWebtransportConnect (headers : List HeaderField) : Bool :=
  (headers.any fun h => h.1 == ":method" && h.2 == "CONNECT") &&
    headers.any fun h => h.1 == ":protocol" && h.2 == "webtransport"

/-! ## Error codes -/

def h3ExcessiveLoad : Nat := 0x0107

def h3InternalError : Nat := 0x0102

def h3MessageError : Nat := 0x010e

def qpackDecompressionFailed : Nat := 0x0200

def qpackEncoderStreamError : Nat := 0x0201

def qpackDecoderStreamError : Nat := 0x0202

/-- `WT_SESSION_GONE`: reset code for streams orphaned by session teardown. -/
def wtSessionGone : Nat := 0x170d7b68

def wtBufferedStreamRejected : Nat := 0x3994bd84

def wtAppErrorFirst : Nat := 0x52e4a40fa8db

def wtAppErrorLast : Nat := 0x52e5ac983162

def remapApplicationError (code : Nat) : Nat := wtAppErrorFirst + code + code / 0x1e

def unmapApplicationError (v : Nat) : Option Nat :=
  if v < wtAppErrorFirst ∨ wtAppErrorLast < v then none
  else
    let d := v - wtAppErrorFirst
    if d % 31 = 30 then none
    else
      let n := d / 31 * 30 + d % 31
      if n < 2 ^ 32 then some n else none

def clampVarintToU32 (value : Nat) : Nat := min value (2 ^ 32 - 1)

/-- `unmap_wt_app_error`: codes outside the application range pass through clamped. -/
def unmapWtAppError (value : Nat) : Nat :=
  (unmapApplicationError value).getD (clampVarintToU32 value)

end WebTransportBun.Wasm
