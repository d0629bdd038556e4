/-
  WebTransportBun.Wasm.HostEvent

  The host's side of the event wire: `decodeWasmEvent` of `backend-wasm.ts`, applied to
  what `encode_with_host_token` writes.

  Numbers of the host are doubles.  `toNumber` is their rounding, so the decoder is
  modelled on any bytes; on what the encoder writes, every number is below `2 ^ 53` and
  no rounding happens.  Only two things do not come back: a byte order mark at the front
  of a close reason, which the text decoder drops, and a host token zero
  (`event_round_trip`).
-/

import WebTransportBun.Library.Text
import WebTransportBun.Wasm.Event

namespace WebTransportBun.Wasm

open Library Qpack List Option WtEvent Varint

/-! ## Numbers -/

def maxSafeInteger : Nat := 2 ^ 53 - 1

/-- The double nearest to a natural number, halves to even. -/
def toNumber (n : Nat) : Nat :=
  if n ≤ maxSafeInteger then n
  else
    let unit := 2 ^ (n.log2 - 52)
    let q := n / unit
    let r := n % unit
    if 2 * r < unit ∨ 2 * r = unit ∧ q % 2 = 0 then q * unit else (q + 1) * unit

theorem toNumber_eq {n : Nat} (h : n ≤ maxSafeInteger) : toNumber n = n := if_pos h

/-! ## Varints -/

/-- A varint at an offset, and the offset behind it; each step of the accumulator is
    rounded by `round`. -/
def decodeVarint (round : Nat → Nat) (buf : Bytes) (off : Nat) : Option (Nat × Nat) :=
  match buf.drop off with
  | [] => none
  | first :: rest =>
    let len := 1 <<< (first >>> 6).toNat
    if buf.length < off + len then none
    else
      some ((rest.take (len - 1)).foldl (fun v b => round (round (v * 256) + b.toNat))
        (first &&& 0x3f).toNat, off + len)

def decodeVarintSafe : Bytes → Nat → Option (Nat × Nat) := decodeVarint toNumber

def decodeVarintBig : Bytes → Nat → Option (Nat × Nat) := decodeVarint id

def requireSafeSessionId (sessionId : Nat) : Option Nat :=
  if maxSafeInteger < sessionId then none else some sessionId

theorem requireSafeSessionId_eq {sessionId : Nat} (h : sessionId ≤ maxSafeInteger) :
    requireSafeSessionId sessionId = some sessionId := if_neg (not_lt.mpr h)

/-! ## Events -/

inductive DecodedWasmEvent
  | connected (conn : Nat)
  | sessionEstablished (conn sessionId : Nat)
  | datagram (conn sessionId : Nat) (payload : Bytes) (hostToken : Option Nat)
  | closed (conn code : Nat)
  | sessionClosed (conn sessionId code : Nat) (reason : String)
  | sessionDraining (conn sessionId : Nat)
  | streamOpened (conn sessionId stream : Nat) (bidi : Bool)
  | streamData (conn stream : Nat) (payload : Bytes) (fin : Bool) (hostToken : Option Nat)
  | streamReset (conn stream code : Nat)
  | streamStopped (conn stream code : Nat)
  | unknown (tag : UInt8)
  deriving DecidableEq, Repr

section

variable (ev : Bytes)

/-- A length and as many bytes, and the offset behind them. -/
def decodeBytes (off : Nat) : Option (Bytes × Nat) := do
  let (len, off) ← decodeVarintSafe ev off
  if ev.length < toNumber (off + len) then none
  else some ((ev.drop off).take len, off + len)

/-- The token behind a payload; zero is none, and so is the end of the event. -/
def decodeHostToken (off : Nat) : Option (Option Nat) :=
  if off < ev.length then
    (decodeVarintSafe ev off).map fun (token, _) => if 0 < token then some token else none
  else some none

/-- The `switch` of `decodeWasmEvent`, behind the tag and the connection. -/
def decodeFields (tag : UInt8) (conn off : Nat) : Option DecodedWasmEvent := do
  match tag.toNat with
  | 1 => return .connected conn
  | 2 =>
    let (sid, _) ← decodeVarintBig ev off
    let sessionId ← requireSafeSessionId sid
    return .sessionEstablished conn sessionId
  | 3 =>
    let (sid, off) ← decodeVarintBig ev off
    let (payload, off) ← decodeBytes ev off
    let hostToken ← decodeHostToken ev off
    let sessionId ← requireSafeSessionId sid
    return .datagram conn sessionId payload hostToken
  | 4 =>
    let (code, _) ← decodeVarintSafe ev off
    return .closed conn code
  | 9 =>
    let (sid, off) ← decodeVarintBig ev off
    let (code, off) ← decodeVarintSafe ev off
    let (raw, _) ← decodeBytes ev off
    let sessionId ← requireSafeSessionId sid
    return .sessionClosed conn sessionId code (textDecode raw)
  | 10 =>
    let (sid, _) ← decodeVarintBig ev off
    let sessionId ← requireSafeSessionId sid
    return .sessionDraining conn sessionId
  | 5 =>
    let (sid, off) ← decodeVarintBig ev off
    let (stream, off) ← decodeVarintSafe ev off
    let flag ← ev[off]?
    let sessionId ← requireSafeSessionId sid
    return .streamOpened conn sessionId stream (flag = 1)
  | 6 =>
    let (stream, off) ← decodeVarintSafe ev off
    let flag ← ev[off]?
    let (payload, off) ← decodeBytes ev (off + 1)
    let hostToken ← decodeHostToken ev off
    return .streamData conn stream payload (flag = 1) hostToken
  | 7 =>
    let (stream, off) ← decodeVarintSafe ev off
    let (code, _) ← decodeVarintSafe ev off
    return .streamReset conn stream code
  | 8 =>
    let (stream, off) ← decodeVarintSafe ev off
    let (code, _) ← decodeVarintSafe ev off
    return .streamStopped conn stream code
  | _ => return .unknown tag

def decodeWasmEvent : Option DecodedWasmEvent := do
  let tag ← ev.head?
  let (conn, off) ← decodeVarintSafe ev 1
  decodeFields ev tag conn off

end

/-! ## What should come back -/

namespace WtEvent

def decoded (hostToken : Option Nat) : WtEvent → DecodedWasmEvent
  | connected conn => .connected conn
  | sessionEstablished conn sessionId => .sessionEstablished conn sessionId
  | datagram conn sessionId data => .datagram conn sessionId data hostToken
  | connectionClosed conn code => .closed conn code
  | streamOpened conn sessionId stream bidi => .streamOpened conn sessionId stream bidi
  | streamData conn stream fin data => .streamData conn stream data fin hostToken
  | streamReset conn stream code => .streamReset conn stream code
  | streamStopped conn stream code => .streamStopped conn stream code
  | sessionClosed conn sessionId code reason => .sessionClosed conn sessionId code reason
  | sessionDraining conn sessionId => .sessionDraining conn sessionId

/-- The numbers of an event: handles and codes of 32 bits. -/
def words : WtEvent → List Nat
  | connected conn | sessionEstablished conn _ | datagram conn _ _ | sessionDraining conn _ =>
    [conn]
  | connectionClosed conn code | sessionClosed conn _ code _ => [conn, code]
  | streamOpened conn _ stream _ | streamData conn stream _ _ => [conn, stream]
  | streamReset conn stream code | streamStopped conn stream code => [conn, stream, code]

def sessionId? : WtEvent → Option Nat
  | sessionEstablished _ sessionId | datagram _ sessionId _ | streamOpened _ sessionId _ _
  | sessionClosed _ sessionId _ _ | sessionDraining _ sessionId => some sessionId
  | _ => none

def content : WtEvent → Bytes
  | datagram _ _ data | streamData _ _ _ data => data
  | sessionClosed _ _ _ reason => strBytes reason
  | _ => []

/-- An event as the wasm side can hold it. -/
structure Sized (ev : WtEvent) : Prop where
  words : ∀ n ∈ ev.words, n < 2 ^ 32
  content : ev.content.length ≤ usizeMax

/-- The text of the event survives a text decoder. -/
def KeepsText : WtEvent → Prop
  | sessionClosed _ _ _ reason => reason.toList.head? ≠ some byteOrderMark
  | _ => True

def KeepsToken (hostToken : Option Nat) : WtEvent → Prop
  | datagram .. | streamData .. => hostToken ≠ some 0
  | _ => True

end WtEvent

/-! ## Reading at an offset -/

/-- `rest` is what stands in the buffer from the offset on. -/
def At (buf : Bytes) (off : Nat) (rest : Bytes) : Prop :=
  ∃ before, buf = before ++ rest ∧ before.length = off

namespace At

variable {buf rest : Bytes} {off : Nat}

theorem length (h : At buf off rest) : buf.length = off + rest.length := by
  obtain ⟨before, rfl, rfl⟩ := h
  exact length_append

theorem drop (h : At buf off rest) : buf.drop off = rest := by
  obtain ⟨before, rfl, rfl⟩ := h
  exact drop_left

theorem move {taken : Bytes} (h : At buf off (taken ++ rest)) :
    At buf (off + taken.length) rest := by
  obtain ⟨before, rfl, rfl⟩ := h
  exact ⟨before ++ taken, (append_assoc ..).symm, length_append⟩

end At

theorem le_foldl_varint (raw : Bytes) (acc : Nat) :
    acc ≤ raw.foldl (fun v b => v <<< 8 ||| b.toNat) acc := by
  induction raw generalizing acc with
  | nil => exact le_refl acc
  | cons b raw ih =>
    refine le_trans ?_ (ih _)
    show acc ≤ acc <<< 8 ||| b.toNat
    rw [shift_or_byte]
    omega

theorem foldl_round {round : Nat → Nat} (raw : Bytes) (acc : Nat)
    (hround : ∀ n ≤ raw.foldl (fun v b => v <<< 8 ||| b.toNat) acc, round n = n) :
    raw.foldl (fun v b => round (round (v * 256) + b.toNat)) acc =
      raw.foldl (fun v b => v <<< 8 ||| b.toNat) acc := by
  induction raw generalizing acc with
  | nil => rfl
  | cons b raw ih => grind [le_foldl_varint, shift_or_byte]

namespace At

variable {buf rest : Bytes} {off v : Nat}

section

variable (h : At buf off (encode v ++ rest))

include h

theorem decodeVarint {round : Nat → Nat} (hv : v < 2 ^ 62) (hround : ∀ n ≤ v, round n = n) :
    decodeVarint round buf off = some (v, off + (encode v).length) := by
  have hdecode := decode_encode hv rest
  rw [length_encode hv, Wasm.decodeVarint, h.drop, h.length]
  cases hcons : encode v ++ rest with
  | nil =>
    rw [hcons] at hdecode
    cases hdecode
  | cons first more =>
    rw [hcons] at hdecode
    simp only [decode, ite_none_left_eq_some, Option.some.injEq,
      Prod.mk.injEq] at hdecode
    obtain ⟨hlen, hvalue, hwidth⟩ := hdecode
    simp only [hwidth] at hlen hvalue ⊢
    rw [if_neg (by omega), foldl_round _ _ (by rw [hvalue]; exact hround), hvalue]

theorem varintSafe (hv : v ≤ maxSafeInteger) :
    decodeVarintSafe buf off = some (v, off + (encode v).length) := by
  refine h.decodeVarint ?_ fun n hn => toNumber_eq (le_trans hn hv)
  simp only [maxSafeInteger] at hv
  omega

theorem varintBig (hv : v ≤ maxSafeInteger) :
    decodeVarintBig buf off = some (v, off + (encode v).length) := by
  refine h.decodeVarint ?_ fun _ _ => rfl
  simp only [maxSafeInteger] at hv
  omega

theorem word (hv : v < 2 ^ 32) :
    decodeVarintSafe buf off = some (v, off + (encode v).length) := by
  refine h.varintSafe ?_
  simp only [maxSafeInteger]
  omega

end

theorem last (h : At buf off rest) : At buf off (rest ++ []) := by
  rwa [append_nil]

theorem byte {b : UInt8} (h : At buf off (b :: rest)) : buf[off]? = some b := by
  obtain ⟨before, rfl, rfl⟩ := h
  simp

theorem bytes {data : Bytes} (h : At buf off (WtEvent.lengthPrefixed data ++ rest))
    (hbuf : buf.length ≤ maxSafeInteger) :
    decodeBytes buf off = some (data, off + (WtEvent.lengthPrefixed data).length) := by
  rw [lengthPrefixed, append_assoc] at h
  have hlength := h.length
  simp only [length_append] at hlength
  have hdata := h.move
  simp only [decodeBytes, h.varintSafe (by omega), bind_eq_bind, bind_some,
    hdata.drop, take_left]
  rw [toNumber_eq (by omega), if_neg (by omega), lengthPrefixed, length_append,
    add_assoc]

theorem hostToken {token : Option Nat} (h : At buf off (encode (token.getD 0)))
    (htoken : token.getD 0 ≤ maxSafeInteger) :
    decodeHostToken buf off = some (token.filter (0 < ·)) := by
  have hlength := h.length
  have hlong : 0 < (encode (token.getD 0)).length := by
    rw [length_encode (by simp only [maxSafeInteger] at htoken; omega), width]
    split_ifs <;> decide
  rw [decodeHostToken, if_pos (by omega), h.last.varintSafe htoken]
  cases token with
  | none => rfl
  | some n => cases n <;> rfl

end At

namespace WtEvent

/-- What the host makes of an event: the text decoded, a token zero taken for none. -/
def received (hostToken : Option Nat) : WtEvent → DecodedWasmEvent
  | datagram conn sessionId data => .datagram conn sessionId data (hostToken.filter (0 < ·))
  | streamData conn stream fin data =>
    .streamData conn stream data fin (hostToken.filter (0 < ·))
  | sessionClosed conn sessionId code reason =>
    .sessionClosed conn sessionId code (textDecode (strBytes reason))
  | ev => ev.decoded hostToken

theorem length_varint_le (v : Nat) : (encode v).length ≤ 8 := by
  rw [encode]
  split_ifs <;> simp

/-- Every offset of an event the wasm side can hold is a safe integer. -/
theorem length_encodeWithHostToken (ev : WtEvent) (hostToken : Option Nat) (h : ev.Sized) :
    (ev.encodeWithHostToken hostToken).length ≤ maxSafeInteger := by
  have hcontent := h.content
  have hconn := length_varint_le ev.conn
  have htoken := length_varint_le (hostToken.getD 0)
  simp only [usizeMax] at hcontent
  simp only [maxSafeInteger, encodeWithHostToken, length_cons, length_append]
  cases ev with
  | connected conn => simp only [fields, length_nil]; omega
  | datagram conn sessionId data =>
    have hsession := length_varint_le sessionId
    have hlen := length_varint_le data.length
    simp only [content] at hcontent
    simp only [fields, lengthPrefixed, length_append]
    omega
  | streamOpened conn sessionId stream bidi => grind [length_varint_le, fields]
  | streamData conn stream fin data =>
    have hstream := length_varint_le stream
    have hlen := length_varint_le data.length
    simp only [content] at hcontent
    simp only [fields, lengthPrefixed, length_append, length_singleton]
    omega
  | streamReset conn stream code | streamStopped conn stream code =>
    grind [length_varint_le, fields]
  | sessionClosed conn sessionId code reason =>
    have hsession := length_varint_le sessionId
    have hcode := length_varint_le code
    have hlen := length_varint_le (strBytes reason).length
    simp only [content] at hcontent
    simp only [fields, lengthPrefixed, length_append]
    omega
  | sessionEstablished conn v | connectionClosed conn v | sessionDraining conn v =>
    have hv := length_varint_le v
    simp only [fields]
    omega

end WtEvent

theorem decodeWasmEvent_fields (ev : WtEvent) (hostToken : Option Nat) (hconn : ev.conn < 2 ^ 32) :
    (ev.encodeWithHostToken hostToken).head? = some ev.tag ∧
      decodeVarintSafe (ev.encodeWithHostToken hostToken) 1 =
        some (ev.conn, 1 + (encode ev.conn).length) ∧
      At (ev.encodeWithHostToken hostToken) (1 + (encode ev.conn).length)
        (ev.fields hostToken) := by
  have hstart : At (ev.encodeWithHostToken hostToken) 1
      (encode ev.conn ++ ev.fields hostToken) := ⟨[ev.tag], rfl, rfl⟩
  refine ⟨rfl, hstart.varintSafe ?_, hstart.move⟩
  simp only [maxSafeInteger]
  omega

/-- The decoder on what the encoder writes. -/
theorem decodeWasmEvent_encodeWithHostToken {ev : WtEvent} {hostToken : Option Nat}
    (hsized : ev.Sized) (htoken : hostToken.getD 0 < 2 ^ 32)
    (hsession : ∀ sessionId ∈ ev.sessionId?, sessionId ≤ maxSafeInteger) :
    decodeWasmEvent (ev.encodeWithHostToken hostToken) = some (ev.received hostToken) := by
  have hbuf := ev.length_encodeWithHostToken hostToken hsized
  have hwords := hsized.words
  have hconn : ev.conn < 2 ^ 32 := by
    cases ev <;> exact hwords _ mem_cons_self
  obtain ⟨htag, hfirst, hfields⟩ := decodeWasmEvent_fields ev hostToken hconn
  simp only [decodeWasmEvent, htag, hfirst, bind_eq_bind, bind_some]
  generalize ev.encodeWithHostToken hostToken = buf at hbuf hfields
  cases ev <;> simp only [decodeFields, tag, UInt8.reduceToNat, bind_eq_bind]
  case connected conn => rfl
  case sessionEstablished conn sessionId | sessionDraining conn sessionId =>
    have hsafe := hsession sessionId rfl
    simp only [bind_some, hfields.last.varintBig hsafe,
      requireSafeSessionId_eq hsafe]
    rfl
  case datagram conn sessionId data =>
    have hsafe := hsession sessionId rfl
    rw [fields, append_assoc] at hfields
    simp only [bind_some, hfields.varintBig hsafe, hfields.move.bytes hbuf,
      hfields.move.move.hostToken (by simp only [maxSafeInteger]; omega),
      requireSafeSessionId_eq hsafe]
    rfl
  case connectionClosed conn code =>
    have hcode : code < 2 ^ 32 := hwords _ (by simp [words])
    simp only [hfields.last.word hcode]
    rfl
  case streamOpened conn sessionId stream bidi =>
    have hsafe := hsession sessionId rfl
    have hstream : stream < 2 ^ 32 := hwords _ (by simp [words])
    rw [fields, append_assoc] at hfields
    simp only [bind_some, hfields.varintBig hsafe, hfields.move.word hstream,
      hfields.move.move.byte, requireSafeSessionId_eq hsafe]
    cases bidi <;> rfl
  case streamData conn stream fin data =>
    have hstream : stream < 2 ^ 32 := hwords _ (by simp [words])
    simp only [fields, append_assoc] at hfields
    have hflag := hfields.move
    have hdata := hflag.move
    rw [length_singleton] at hdata
    simp only [bind_some, hfields.word hstream, hflag.byte,
      hdata.bytes hbuf, hdata.move.hostToken (by simp only [maxSafeInteger]; omega)]
    cases fin <;> rfl
  case streamReset conn stream code | streamStopped conn stream code =>
    have hstream : stream < 2 ^ 32 := hwords _ (by simp [words])
    have hcode : code < 2 ^ 32 := hwords _ (by simp [words])
    simp only [bind_some, hfields.word hstream, hfields.move.last.word hcode]
    rfl
  case sessionClosed conn sessionId code reason =>
    have hsafe := hsession sessionId rfl
    have hcode : code < 2 ^ 32 := hwords _ (by simp [words])
    rw [fields, append_assoc] at hfields
    simp only [bind_some, hfields.varintBig hsafe, hfields.move.word hcode,
      hfields.move.move.last.bytes hbuf, requireSafeSessionId_eq hsafe]
    rfl

/-- Text and token are all that the way through the wire can change. -/
theorem WtEvent.received_eq_decoded_iff (ev : WtEvent) (hostToken : Option Nat) :
    ev.received hostToken = ev.decoded hostToken ↔ ev.KeepsText ∧ ev.KeepsToken hostToken := by
  have htoken : hostToken.filter (0 < ·) = hostToken ↔ hostToken ≠ some 0 := by
    cases hostToken with
    | none => simp
    | some n => cases n <;> simp
  cases ev with
  | datagram conn sessionId data => simp [received, decoded, KeepsText, KeepsToken, htoken]
  | streamData conn stream fin data => simp [received, decoded, KeepsText, KeepsToken, htoken]
  | sessionClosed conn sessionId code reason =>
    simp only [received, decoded, KeepsToken, DecodedWasmEvent.sessionClosed.injEq,
      true_and, and_true]
    exact textDecode_toUTF8_eq_iff reason
  | _ => simp [received, KeepsText, KeepsToken]

/-- For every event, host token and session id up to `2 ^ 53 - 1`, the host decodes what the
    wasm side encoded to the same variant with the same fields, exactly when the close
    reason does not begin with a byte order mark and the token is not zero. -/
theorem event_round_trip {ev : WtEvent} {hostToken : Option Nat} (hsized : ev.Sized)
    (htoken : hostToken.getD 0 < 2 ^ 32)
    (hsession : ∀ sessionId ∈ ev.sessionId?, sessionId ≤ maxSafeInteger) :
    decodeWasmEvent (ev.encodeWithHostToken hostToken) = some (ev.decoded hostToken) ↔
      ev.KeepsText ∧ ev.KeepsToken hostToken := by
  rw [decodeWasmEvent_encodeWithHostToken hsized htoken hsession, Option.some.injEq]
  exact ev.received_eq_decoded_iff hostToken

theorem event_round_trip_datagram :
    decodeWasmEvent ((WtEvent.datagram 3 4 [1, 2]).encodeWithHostToken (some 5)) =
      some (.datagram 3 4 [1, 2] (some 5)) :=
  (@event_round_trip (.datagram 3 4 [1, 2]) (some 5) ⟨by decide, by decide⟩ (by decide)
    (by decide)).mpr ⟨trivial, show (some 5 : Option Nat) ≠ some 0 by decide⟩

/-- A close reason that begins with a byte order mark reaches the host without it. -/
theorem byte_order_mark_lost :
    decodeWasmEvent ((WtEvent.sessionClosed 1 4 0
        (String.ofList [byteOrderMark, 'b', 'y', 'e'])).encodeWithHostToken none) =
      some (.sessionClosed 1 4 0 "bye") ∧
    String.ofList [byteOrderMark, 'b', 'y', 'e'] ≠ "bye" := by
  constructor
  · decide +kernel
  · decide +kernel

end WebTransportBun.Wasm
