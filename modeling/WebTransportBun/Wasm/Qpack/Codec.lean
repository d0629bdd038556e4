/-
  WebTransportBun.Wasm.Qpack.Codec

  QPACK encoder and decoder of `crates/wasm/src/h3.rs`: field sections, the encoder
  stream that carries table inserts, and the decoder stream that carries
  acknowledgements.

  `encode_connect_request_with` and `encode_status_response_with` do the same with
  different header lists, so both are `encodeHeadersWith`.  The two instruction streams
  are parsed with `drain`; `encoderInstruction` and `decoderInstruction` are one round
  of the loops of `feed_encoder_stream` and `feed_decoder_stream`.
-/

import WebTransportBun.Wasm.Qpack.Table

namespace WebTransportBun.Wasm.Qpack

open Library

abbrev HeaderField := String × String

def frameHeaders : Nat := 0x01

structure QpackLocalSettings where
  maxTableCapacity : Nat := 4096
  maxBlockedStreams : Nat := 16
  deriving DecidableEq, Repr

def QpackLocalSettings.disabled : QpackLocalSettings := ⟨0, 0⟩

structure QpackDecoder where
  table : DynamicTable
  maxBlockedStreams : Nat
  knownReceivedCount : Nat := 0
  deriving DecidableEq, Repr

namespace QpackDecoder

def new (settings : QpackLocalSettings) : QpackDecoder :=
  { table := .new (min settings.maxTableCapacity usizeMax)
    maxBlockedStreams := settings.maxBlockedStreams }

def noteInsertCountIncrement (d : QpackDecoder) (delta : Nat) : QpackDecoder :=
  { d with knownReceivedCount := d.knownReceivedCount + delta }

end QpackDecoder

structure QpackEncoder where
  table : DynamicTable
  knownReceivedCount : Nat := 0
  deriving DecidableEq, Repr

namespace QpackEncoder

def new (maxCapacity : Nat) : QpackEncoder := { table := .new maxCapacity }

section

variable (e : QpackEncoder)

/-- `note_peer_ici`; the saturating `u64` sum is absorbed by the cap at the insert count. -/
def notePeerIci (delta : Nat) : QpackEncoder :=
  { e with knownReceivedCount := min (e.knownReceivedCount + delta) e.table.insertCount }

def noteSectionAck (ric : Nat) : QpackEncoder :=
  if e.knownReceivedCount < ric then
    { e with knownReceivedCount := min ric e.table.insertCount }
  else e

/-- `set_capacity_instruction`.  It only ever runs on a scratch copy, so an error needs no
    state. -/
def setCapacityInstruction (capacity : Nat) :
    Except QpackError (Bytes × QpackEncoder) :=
  match e.table.setCapacityWithAckFloor capacity (some e.knownReceivedCount) with
  | (.error err, _) => .error err
  | (.ok (), table) => .ok (qpackInt 0x20 5 capacity, { e with table })

end

def literalInsert (name value : String) : Bytes :=
  qpackInt 0x40 5 (strBytes name).length ++ strBytes name ++ qpackString value

/-- `insert_literal_instruction`, on a scratch copy like the one above. -/
def insertLiteralInstruction (e : QpackEncoder) (name value : String) :
    Except QpackError (Bytes × QpackEncoder) :=
  match e.table.insertWithAckFloor name value (some e.knownReceivedCount) with
  | (.error err, _) => .error err
  | (.ok (), table) => .ok (literalInsert name value, { e with table })

/-- `find_absolute`: the lowest live index of a matching entry. -/
def findAbsolute (e : QpackEncoder) (name value : String) : Option Nat :=
  (List.range' 1 e.table.insertCount).find? fun abs =>
    e.table.getAbsolute abs == some ⟨name, value⟩

def encodeDynamicIndexed (abs base : Nat) : Option Bytes :=
  if base < abs then none else some (qpackInt 0x80 6 (base - abs))

end QpackEncoder

structure EncodedHeaders where
  headersFrame : Bytes
  encoderStream : Bytes
  ric : Nat
  deriving DecidableEq, Repr

/-- `ensure_dynamic_entry`: the index of the entry, the encoder, and the bytes to append to
    the encoder stream. -/
def ensureDynamicEntry (e : QpackEncoder) (h : HeaderField) :
    Except QpackError (Nat × QpackEncoder × Bytes) :=
  match e.findAbsolute h.1 h.2 with
  | some abs => .ok (abs, e, [])
  | none => do
    let (bytes, e) ← e.insertLiteralInstruction h.1 h.2
    return (e.table.insertCount, e, bytes)

/-- `ensure_dynamic_entry` for each header in turn. -/
def ensureDynamicEntries (e : QpackEncoder) :
    List HeaderField → Except QpackError (List Nat × QpackEncoder × Bytes)
  | [] => .ok ([], e, [])
  | h :: hs => do
    let (abs, e, bytes) ← ensureDynamicEntry e h
    let (rest, e, more) ← ensureDynamicEntries e hs
    return (abs :: rest, e, bytes ++ more)

/-- Announce the table capacity on the encoder stream before the first insert. -/
def announceCapacity (e : QpackEncoder) : Except QpackError (Bytes × QpackEncoder) :=
  if e.table.insertCount = 0 then e.setCapacityInstruction e.table.maxCapacity
  else .ok ([], e)

/-- The scratch part of an encode call: the index of each header's entry, the encoder with
    the entries in place, and the encoder-stream bytes. -/
def placeHeaders (e : QpackEncoder) (headers : List HeaderField) :
    Except QpackError (List Nat × QpackEncoder × Bytes) := do
  let (setup, e) ← announceCapacity e
  let (indexes, e, inserts) ← ensureDynamicEntries e headers
  return (indexes, e, setup ++ inserts)

def encodeRequiredInsertCount (ric maxCapacity : Nat) : Option Nat :=
  if ric = 0 then some 0
  else
    let maxEntries := maxCapacity / 32
    if maxEntries = 0 then none else some (ric % (2 * maxEntries) + 1)

def encodeSectionPrefix (ric base maxCapacity : Nat) : Option Bytes := do
  let encodedRic ← encodeRequiredInsertCount ric maxCapacity
  let delta := if ric ≤ base then qpackInt 0x00 7 (base - ric) else qpackInt 0x80 7 (ric - base - 1)
  return qpackInt 0x00 8 encodedRic ++ delta

def encodeIndexedLines (base : Nat) : List Nat → Option Bytes
  | [] => some []
  | abs :: rest => do
    let line ← QpackEncoder.encodeDynamicIndexed abs base
    let more ← encodeIndexedLines base rest
    return line ++ more

/-- `qpack_literal`: a field line with literal name, without Huffman coding. -/
def qpackLiteral (h : HeaderField) : Bytes :=
  qpackInt 0x20 3 (strBytes h.1).length ++ strBytes h.1 ++ qpackString h.2

/-- A section of literals only, with Required Insert Count and Base zero. -/
def literalSection (headers : List HeaderField) : Bytes :=
  0x00 :: 0x00 :: (headers.map qpackLiteral).flatten

def encodeLiteralHeaders (headers : List HeaderField) : EncodedHeaders :=
  { headersFrame := frameWrap frameHeaders (literalSection headers), encoderStream := [], ric := 0 }

/-- The common body of the two `encode_…_with` functions.  The work is done on a copy of
    the encoder, so an error leaves the caller's encoder as it was. -/
def encodeHeadersWith (e : QpackEncoder) (headers : List HeaderField) :
    Except QpackError (EncodedHeaders × QpackEncoder) :=
  if e.table.maxCapacity = 0 then .ok (encodeLiteralHeaders headers, e)
  else do
    let (indexes, scratch, encoderStream) ← placeHeaders e headers
    let ric := scratch.table.insertCount
    let base := scratch.table.insertCount
    match encodeSectionPrefix ric base scratch.table.maxCapacity,
      encodeIndexedLines base indexes with
    | some front, some lines =>
      return ({ headersFrame := frameWrap frameHeaders (front ++ lines), encoderStream, ric },
        scratch)
    | _, _ => .error .invalid

def connectHeaders (authority path : String) : List HeaderField :=
  [(":method", "CONNECT"), (":protocol", "webtransport"), (":scheme", "https"),
    (":authority", authority), (":path", path)]

def encodeConnectRequestWith (e : QpackEncoder) (authority path : String) :
    Except QpackError (EncodedHeaders × QpackEncoder) :=
  encodeHeadersWith e (connectHeaders authority path)

def encodeStatusResponseWith (e : QpackEncoder) (status : String) :
    Except QpackError (EncodedHeaders × QpackEncoder) :=
  encodeHeadersWith e [(":status", status)]

def encodeConnectRequest (authority path : String) : Bytes :=
  (encodeLiteralHeaders (connectHeaders authority path)).headersFrame

def encodeStatusResponse (status : String) : Bytes :=
  (encodeLiteralHeaders [(":status", status)]).headersFrame

/-- How the endpoint calls the encoders: an error falls back to literals and keeps the
    encoder (`encode_status_for_session` and the two CONNECT call sites). -/
def encodeOrLiteral (e : QpackEncoder) (headers : List HeaderField) :
    EncodedHeaders × QpackEncoder :=
  match encodeHeadersWith e headers with
  | .ok res => res
  | .error _ => (encodeLiteralHeaders headers, e)

/-! ## Static table -/

/-- RFC 9204 Appendix A, indices 0 to 98. -/
def qpackStaticTable : List HeaderField :=
  [ (":authority", ""), (":path", "/"), ("age", "0"), ("content-disposition", ""),
    ("content-length", "0"), ("cookie", ""), ("date", ""), ("etag", ""),
    ("if-modified-since", ""), ("if-none-match", ""), ("last-modified", ""), ("link", ""),
    ("location", ""), ("referer", ""), ("set-cookie", ""), (":method", "CONNECT"),
    (":method", "DELETE"), (":method", "GET"), (":method", "HEAD"), (":method", "OPTIONS"),
    (":method", "POST"), (":method", "PUT"), (":scheme", "http"), (":scheme", "https"),
    (":status", "103"), (":status", "200"), (":status", "304"), (":status", "404"),
    (":status", "503"), ("accept", "*/*"), ("accept", "application/dns-message"),
    ("accept-encoding", "gzip, deflate, br"), ("accept-ranges", "bytes"),
    ("access-control-allow-headers", "cache-control"),
    ("access-control-allow-headers", "content-type"), ("access-control-allow-origin", "*"),
    ("cache-control", "max-age=0"), ("cache-control", "max-age=2592000"),
    ("cache-control", "max-age=604800"), ("cache-control", "no-cache"),
    ("cache-control", "no-store"), ("cache-control", "public, max-age=31536000"),
    ("content-encoding", "br"), ("content-encoding", "gzip"),
    ("content-type", "application/dns-message"), ("content-type", "application/javascript"),
    ("content-type", "application/json"), ("content-type", "application/x-www-form-urlencoded"),
    ("content-type", "image/gif"), ("content-type", "image/jpeg"), ("content-type", "image/png"),
    ("content-type", "text/css"), ("content-type", "text/html; charset=utf-8"),
    ("content-type", "text/plain"), ("content-type", "text/plain;charset=utf-8"),
    ("range", "bytes=0-"), ("strict-transport-security", "max-age=31536000"),
    ("strict-transport-security", "max-age=31536000; includesubdomains"),
    ("strict-transport-security", "max-age=31536000; includesubdomains; preload"),
    ("vary", "accept-encoding"), ("vary", "origin"), ("x-content-type-options", "nosniff"),
    ("x-xss-protection", "1; mode=block"), (":status", "100"), (":status", "204"),
    (":status", "206"), (":status", "302"), (":status", "400"), (":status", "403"),
    (":status", "421"), (":status", "425"), (":status", "500"), ("accept-language", ""),
    ("access-control-allow-credentials", "FALSE"), ("access-control-allow-credentials", "TRUE"),
    ("access-control-allow-headers", "*"), ("access-control-allow-methods", "get"),
    ("access-control-allow-methods", "get, post, options"),
    ("access-control-allow-methods", "options"),
    ("access-control-expose-headers", "content-length"),
    ("access-control-request-headers", "content-type"), ("access-control-request-method", "get"),
    ("access-control-request-method", "post"), ("alt-svc", "clear"), ("authorization", ""),
    ("content-security-policy", "script-src 'none'; object-src 'none'; base-uri 'none'"),
    ("early-data", "1"), ("expect-ct", ""), ("forwarded", ""), ("if-range", ""), ("origin", ""),
    ("purpose", "prefetch"), ("server", ""), ("timing-allow-origin", "*"),
    ("upgrade-insecure-requests", "1"), ("user-agent", ""), ("x-forwarded-for", ""),
    ("x-frame-options", "deny"), ("x-frame-options", "sameorigin") ]

def qpackStatic (index : Nat) : Option HeaderField :=
  if usizeMax < index then none else qpackStaticTable[index]?

/-! ## Encoder stream -/

/-- Why `feed_encoder_stream` stops early: an error it returns, or a `usize` addition that
    overflows in front of a slice and takes the program down. -/
inductive FeedStop
  | error (e : QpackError)
  | panic
  deriving DecidableEq, Repr

def applyInsert (d : QpackDecoder) (name value : String) (consumed : Nat) :
    Verdict QpackDecoder FeedStop :=
  match d.table.insert name value with
  | (.ok (), table) => .take consumed { d with table }
  | (.error e, table) => .fail { d with table } (.error e)

/-- The entry `idx` inserts back from the newest one. -/
def fromNewest (d : QpackDecoder) (idx : Nat) : Option DynEntry :=
  if d.table.insertCount < idx then none else d.table.getAbsolute (d.table.insertCount - idx)

section

variable (huffman : Bytes → Option Bytes)

section

variable (d : QpackDecoder)

/-- Insert With Name Reference: `1 T index(6+)`, then the value. -/
def insertWithNameReference (first : UInt8) (buf : Bytes) :
    Verdict QpackDecoder FeedStop :=
  match qpackIntDecode buf 6 with
  | none => .wait
  | some (idx, n) =>
    let name := if first &&& 0x40 ≠ 0 then (qpackStatic idx).map Prod.fst
      else (fromNewest d idx).map DynEntry.name
    match name with
    | none => .fail d (.error .invalid)
    | some name =>
      match readQpackString huffman (buf.drop n) with
      | none => .wait
      | some (value, rest) => applyInsert d name value (buf.length - rest.length)

/-- Insert With Literal Name: `01 H nameLen(5+)`, the name, then the value. -/
def insertWithLiteralName (first : UInt8) (buf : Bytes) :
    Verdict QpackDecoder FeedStop :=
  match qpackIntDecode buf 5 with
  | none => .wait
  | some (nlen, n1) =>
    if usizeMax < nlen then .fail d (.error .invalid)
    else if usizeMax < n1 + nlen then .fail d .panic
    else if buf.length < n1 + nlen then .wait
    else
      match decodeQpackBytes huffman ((buf.drop n1).take nlen) (first &&& 0x20 ≠ 0) with
      | none => .fail d (.error .invalid)
      | some name =>
        match readQpackString huffman (buf.drop (n1 + nlen)) with
        | none => .wait
        | some (value, rest) => applyInsert d name value (buf.length - rest.length)

/-- Set Dynamic Table Capacity: `001 capacity(5+)`. -/
def setTableCapacity (buf : Bytes) : Verdict QpackDecoder FeedStop :=
  match qpackIntDecode buf 5 with
  | none => .wait
  | some (cap, n) =>
    if usizeMax < cap then .fail d (.error .invalid)
    else
      match d.table.setCapacity cap with
      | (.ok (), table) => .take n { d with table }
      | (.error e, table) => .fail { d with table } (.error e)

/-- Duplicate: `000 index(5+)`. -/
def duplicateEntry (buf : Bytes) : Verdict QpackDecoder FeedStop :=
  match qpackIntDecode buf 5 with
  | none => .wait
  | some (idx, n) =>
    match fromNewest d idx with
    | none => .fail d (.error .invalid)
    | some e => applyInsert d e.name e.value n

def encoderInstruction (buf : Bytes) : Verdict QpackDecoder FeedStop :=
  match buf with
  | [] => .wait
  | first :: _ =>
    if first &&& 0x80 ≠ 0 then insertWithNameReference huffman d first buf
    else if first &&& 0x40 ≠ 0 then insertWithLiteralName huffman d first buf
    else if first &&& 0x20 ≠ 0 then setTableCapacity d buf
    else duplicateEntry d buf

/-- `feed_encoder_stream`: the number of bytes consumed.  The decoder keeps what was
    applied before an error. -/
def feedEncoderStream (data : Bytes) : QpackDecoder × Except FeedStop Nat :=
  match drain (encoderInstruction huffman) data.length d data with
  | (d, .ok rest) => (d, .ok (data.length - rest.length))
  | (d, .error e) => (d, .error e)

end

end

/-! ## Decoder stream -/

def encodeSectionAcknowledgement (streamId : Nat) : Bytes := qpackInt 0x80 7 streamId

def encodeInsertCountIncrement (delta : Nat) : Bytes := qpackInt 0x00 6 delta

/-- What the decoder stream has said: the sum of the increments and the acknowledged
    streams. -/
structure DecoderFeedback where
  ici : Nat := 0
  sectionAcks : List Nat := []
  deriving DecidableEq, Repr

/-- One round of `feed_decoder_stream`: an acknowledgement, a cancellation or an increment.
    The `u64` sum of increments saturates in the source; it is capped at the insert count
    where it is used. -/
def decoderInstruction (s : DecoderFeedback) (buf : Bytes) : Verdict DecoderFeedback FeedStop :=
  match buf with
  | [] => .wait
  | first :: _ =>
    if first &&& 0x80 ≠ 0 then
      match qpackIntDecode buf 7 with
      | none => .wait
      | some (sid, n) => .take n { s with sectionAcks := s.sectionAcks ++ [sid] }
    else if first &&& 0x40 ≠ 0 then
      match qpackIntDecode buf 6 with
      | none => .wait
      | some (_, n) => .take n s
    else
      match qpackIntDecode buf 6 with
      | none => .wait
      | some (delta, n) => .take n { s with ici := s.ici + delta }

def feedDecoderStream (data : Bytes) : Except FeedStop (Nat × DecoderFeedback) :=
  match drain decoderInstruction data.length {} data with
  | (s, .ok rest) => .ok (data.length - rest.length, s)
  | (_, .error e) => .error e

/-! ## Field sections -/

/-- `decode_required_insert_count`, with its checked `u64` arithmetic. -/
def decodeRequiredInsertCount (encoded maxCapacity totalInserts : Nat) : Except QpackError Nat :=
  if encoded = 0 then .ok 0
  else
    let maxEntries := maxCapacity / 32
    let fullRange := 2 * maxEntries
    let maxValue := totalInserts + maxEntries
    let maxWrapped := maxValue / fullRange * fullRange
    if maxEntries = 0 then .error .invalid
    else if 2 ^ 64 ≤ maxValue ∨ 2 ^ 64 ≤ maxWrapped + encoded then .error .invalid
    else
      let ric := maxWrapped + encoded - 1
      if maxValue < ric then
        if ric ≤ maxValue + maxEntries then
          if ric < fullRange then .error .invalid
          else if ric - fullRange = 0 then .error .invalid
          else .ok (ric - fullRange)
        else .error .invalid
      else if ric = 0 then .error .invalid
      else .ok ric

section

variable (huffman : Bytes → Option Bytes)

/-- What a reader of field lines makes of the forms a line has: where an index leads, and
    the line that results. -/
structure LineReader (E L : Type) where
  relative : Nat → Nat → Option E
  postBase : Nat → Nat → Option E
  field : HeaderField → L
  entry : E → L
  named : E → String → L

section

variable {E L : Type} (r : LineReader E L) (base : Nat)

/-- One field line of a section and what follows it; `none` is `Invalid`. -/
def readFieldLine (buf : Bytes) : Option (L × Bytes) := do
  let first ← buf.head?
  if first &&& 0x80 ≠ 0 then
    -- Indexed Field Line: 1 T index(6).
    let (idx, n) ← qpackIntDecode buf 6
    let line ← if first &&& 0x40 ≠ 0 then (qpackStatic idx).map r.field
      else (r.relative idx base).map r.entry
    return (line, buf.drop n)
  else if first &&& 0x40 ≠ 0 then
    -- Literal Field Line With Name Reference: 01 N T index(4).
    let (idx, n) ← qpackIntDecode buf 4
    let line ← if first &&& 0x10 ≠ 0 then (qpackStatic idx).map fun f v => r.field (f.1, v)
      else (r.relative idx base).map r.named
    let (value, rest) ← readQpackString huffman (buf.drop n)
    return (line value, rest)
  else if first &&& 0x20 ≠ 0 then
    -- Literal Field Line With Literal Name: 001 N H nameLen(3).
    let (nlen, n1) ← qpackIntDecode buf 3
    let buf := buf.drop n1
    guard (nlen ≤ usizeMax)
    guard (nlen ≤ buf.length)
    let name ← decodeQpackBytes huffman (buf.take nlen) (first &&& 0x08 ≠ 0)
    let (value, rest) ← readQpackString huffman (buf.drop nlen)
    return (r.field (name, value), rest)
  else if first &&& 0x10 ≠ 0 then
    -- Indexed Field Line With Post-Base Index: 0001 index(4).
    let (idx, n) ← qpackIntDecode buf 4
    let e ← r.postBase idx base
    return (r.entry e, buf.drop n)
  else
    -- Literal Field Line With Post-Base Name Reference: 0000 N index(3).
    let (idx, n) ← qpackIntDecode buf 3
    let e ← r.postBase idx base
    let (value, rest) ← readQpackString huffman (buf.drop n)
    return (r.named e value, rest)

/-- The field lines up to the end of the section; each takes at least one byte. -/
def readFieldLines : Nat → Bytes → Option (List L)
  | _, [] => some []
  | 0, _ :: _ => none
  | fuel + 1, buf => do
    let (line, rest) ← readFieldLine huffman r base buf
    let lines ← readFieldLines fuel rest
    return line :: lines

end

/-- Base from the sign bit and the delta (checked `u64` arithmetic). -/
def decodeBase (ric deltaBase : Nat) (signBit : Bool) : Option Nat :=
  if signBit then
    if ric < deltaBase + 1 then none else some (ric - deltaBase - 1)
  else if 2 ^ 64 ≤ ric + deltaBase then none
  else some (ric + deltaBase)

/-- What follows the Required Insert Count: the base, and the lines. -/
def readSectionBody {E L : Type} (r : LineReader E L) (ric : Nat) (buf : Bytes) :
    Option (List L) := do
  let first ← buf.head?
  let (deltaBase, nBase) ← qpackIntDecode buf 7
  let base ← decodeBase ric deltaBase (first &&& 0x80 ≠ 0)
  readFieldLines huffman r base (buf.length - nBase) (buf.drop nBase)

/-- The decoder's own reader looks the indexes up in its table. -/
def QpackDecoder.lineReader (d : QpackDecoder) : LineReader DynEntry HeaderField where
  relative := d.table.getRelative
  postBase := d.table.getPostBase
  field := id
  entry e := (e.name, e.value)
  named e value := (e.name, value)

/-- `decode_field_section`: the headers and the Required Insert Count. -/
def decodeFieldSection (buf : Bytes) (d : QpackDecoder) :
    Except QpackError (List HeaderField × Nat) :=
  if buf.length < 2 then .error .invalid
  else
    match qpackIntDecode buf 8 with
    | none => .error .invalid
    | some (encodedRic, nRic) =>
      match decodeRequiredInsertCount encodedRic d.table.maxCapacity d.table.insertCount with
      | .error e => .error e
      | .ok ric =>
        if d.table.insertCount < ric then .error .blocked
        else
          match readSectionBody huffman d.lineReader ric (buf.drop nRic) with
          | none => .error .invalid
          | some headers => .ok (headers, ric)

/-- `decode_literal_headers`: a section read without a dynamic table. -/
def decodeLiteralHeaders (buf : Bytes) : Option (List HeaderField) :=
  match decodeFieldSection huffman buf (.new .disabled) with
  | .ok (headers, _) => some headers
  | .error _ => none

end

end WebTransportBun.Wasm.Qpack
