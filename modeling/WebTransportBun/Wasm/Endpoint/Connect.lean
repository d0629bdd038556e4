/-
  WebTransportBun.Wasm.Endpoint.Connect

  The session layer of the endpoint (`crates/wasm/src/endpoint.rs`): the calls into
  quinn-proto, the ways a WebTransport session or its connection ends, and the parsers of
  the control, QPACK and CONNECT streams.

  Each function keeps the name of the function of the source that it translates; a loop
  whose body is long has that body as a definition of its own (`…Round`).
-/

import WebTransportBun.Wasm.Endpoint.State

namespace WebTransportBun.Wasm

open Library Library.Prog Qpack FrameType Session

abbrev EndpointM (W α : Type) := Prog (WtEndpoint W) α

namespace Endpoint

variable {W : Type} (env : Env W)

/-! ## Calls into quinn-proto -/

def call (c : QuicCall) : EndpointM W c.Reply := do
  let s ← get
  let (reply, world) := env.quinn c s.world
  set { s with world }
  return reply

/-- A call on a connection, made if the connection is there; the answer is not used. -/
def onConn (h : Nat) (c : QuicCall) : EndpointM W Unit := do
  when ((← get).registry.conn h).isSome do
    discard (call env c)

theorem wp_onConn {env : Env W} {s : WtEndpoint W} {h : Nat} {c : QuicCall}
    {Q : Unit → WtEndpoint W → Prop}
    (hQ : ∀ world, Q () { s with world }) : wp (onConn env h c) s Q := by
  simp only [onConn, wp_bind, wp_get, wp_when, wp_discard, call, wp_set, wp_pure]
  split
  · exact hQ _
  · exact hQ s.world

def closeQuic (h code : Nat) (reason : String) : EndpointM W Unit := do
  when ((← get).registry.conn h).isSome do
    let now ← call env .now
    discard (call env (.close h now code (strBytes reason)))

def stopRecv (h sid code : Nat) : EndpointM W Unit := do
  modify (·.noteAt h (.stopped · sid))
  onConn env h (.stop h sid code)

def openQuicStream (h : Nat) (dir : Dir) : EndpointM W (Option Nat) := do
  match (← get).registry.conn h with
  | none => return none
  | some conn =>
    match ← call env (.openStream h conn dir) with
    | none => return none
    | some sid =>
      modify (·.updConn h fun c => { c with streams := sid.val :: c.streams })
      return some sid.val

/-! ## Ending sessions and connections -/

/-- The streams demuxed to a session, as `reset_session_streams` collects them. -/
def sessionStreams (s : WtEndpoint W) (h sessionId : Nat) : List Nat :=
  (s.streamHandlesOf h).filter fun handle => s.streamSessions.get? handle == some sessionId

/-- Reset the halves a stream has: a unidirectional stream only has the half of the side
    that opened it. -/
def resetStreamHalves (h sid code : Nat) : EndpointM W Unit := do
  match (← get).registry.conn h with
  | none => return
  | some conn =>
    let openedLocally := streamInitiator sid == conn.side
    let bidi := streamDir sid == .bi
    when (bidi || openedLocally) (onConn env h (.reset h sid code))
    when (bidi || !openedLocally) (stopRecv env h sid code)

/-- The tables of one stream of a terminated session, and its event. -/
def dropSessionStream (s : WtEndpoint W) (h connId handle sid : Nat) : WtEndpoint W :=
  let s := s.updSession h fun x =>
    { x with selfBidi := x.selfBidi.erase sid, inStreams := x.inStreams.erase sid }
  let s := { s.unpause handle with halfDone := s.halfDone.erase handle }
  ((s.dropStreamReservation handle).indexRemove handle).pushEvent
    (.streamReset connId handle wtSessionGone)

def resetSessionStreams (h connId sessionId : Nat) : EndpointM W Unit := do
  let s ← get
  let order ← call env (.order (sessionStreams s h sessionId))
  order.val.forM fun handle =>
    match s.streamIndex.get? handle with
    | none => pure ()
    | some (_, sid) => do
      resetStreamHalves env h sid wtSessionGone
      modify (dropSessionStream · h connId handle sid)

def retireWtSession (x : Session) (sid : Nat) : Session :=
  let x :=
    if x.connectStream = some sid then { x with connectClosed := true }
    else { x with extraSessions := x.extraSessions.erase sid }
  { x with capsules := x.capsules.erase sid, extraRx := x.extraRx.erase sid }

def wtSessionLive (x : Session) (sid : Nat) : Bool :=
  if x.connectStream = some sid then x.established && !x.connectClosed
  else x.extraSessions.contains sid

def endWtSession (h sid code : Nat) (reason : String) : EndpointM W Unit := do
  match (← get).registry.entries.get? h with
  | none => return
  | some e =>
    modify (·.updSession h (retireWtSession · sid))
    when (wtSessionLive e.session sid) do
      resetSessionStreams env h e.id sid
      modify (·.pushSessionClosed e.id sid code reason)

def failSessionBeforeEstablish (h : Nat) : EndpointM W Unit := do
  match (← get).registry.entries.get? h with
  | none => return
  | some e =>
    if e.session.connectClosed then return
    else do
      modify fun s => (((s.updSession h fun x =>
        { x with connectClosed := true, extraSessions := ∅ }).noteAt h .fault).pushEvent
          (.connectionClosed e.id 0))
      closeQuic env h 0 ""
      modify (·.releaseConnectionBudget h)

def pushProtocolError (s : WtEndpoint W) (h code : Nat) : WtEndpoint W :=
  match s.registry.handleToId h with
  | none => s
  | some id => (s.noteAt h .fault).pushEvent (.connectionClosed id code)

def closeConnProtocolError (h code : Nat) (reason : String) : EndpointM W Unit := do
  modify (pushProtocolError · h code)
  closeQuic env h code reason
  modify (·.releaseConnectionBudget h)

def onConnectStreamEnded (h id : Nat) (isPrimaryConnect : Bool) : EndpointM W Unit := do
  let established := ((← get).registry.session h).any established
  if isPrimaryConnect && !established then failSessionBeforeEstablish env h
  else endWtSession env h id 0 ""

/-! ## Capsules -/

/-- One round of the loop of `feed_session_capsules`; `some` leaves it. -/
def feedSessionCapsulesRound (h sid : Nat) : EndpointM W (Option Unit) := do
  match (← get).registry.session h with
  | none => return some ()
  | some x =>
    match x.capsules.get? sid with
    | none => return some ()
    | some buf =>
      let (popped, rest) := nextCapsule buf
      modify (·.updSession h fun x => { x with capsules := x.capsules.insert sid rest })
      match popped with
      | .ok none => return some ()
      | .ok (some (.close code reason)) =>
        modify (·.noteAt h (.capsule · sid (.close code reason)))
        endWtSession env h sid code reason
        return some ()
      | .ok (some .drain) =>
        modify fun s =>
          let s := s.noteAt h (.capsule · sid .drain)
          match s.registry.handleToId h with
          | none => s
          | some conn => s.pushEvent (.sessionDraining conn sid)
        return none
      | .error _ =>
        onConn env h (.reset h sid h3MessageError)
        stopRecv env h sid h3MessageError
        modify (·.setLastError "E_PROTOCOL: malformed WebTransport capsule")
        endWtSession env h sid h3MessageError ""
        return some ()

def feedSessionCapsules (h sid : Nat) (payload : Bytes) : EndpointM W Unit := do
  modify (·.updSession h fun x =>
    { x with capsules := x.capsules.insert sid ((x.capsules.get? sid).getD [] ++ payload) })
  loop env.fuel (feedSessionCapsulesRound env h sid)

/-! ## Control and QPACK streams -/

/-- The loop of `parse_control` over the buffered bytes; the flag is `oversized`.  A frame
    takes at least two bytes, so the length of the buffer bounds the rounds. -/
def parseControlLoop : Nat → Session → Bool × Session
  | 0, x => (false, x)
  | fuel + 1, x =>
    match frameHeader x.controlRx with
    | none => (false, x)
    | some (ftype, flen, header) =>
      if maxH3FrameSize < flen then (true, x)
      else if x.controlRx.length < header + flen then (false, x)
      else
        let payload := framePayload x.controlRx header (header + flen)
        let settings := if ftype = settings then parseSettings payload else none
        parseControlLoop fuel { x with
          peerSettings := settings <|> x.peerSettings
          controlRx := x.controlRx.drop (header + flen) }

def parseControl (h : Nat) : EndpointM W Unit := do
  match (← get).registry.session h with
  | none => return
  | some x =>
    let (oversized, x') := parseControlLoop (x.controlRx.length + 1) x
    modify (·.updSession h fun x =>
      { x with peerSettings := x'.peerSettings, controlRx := x'.controlRx })
    when oversized
      (closeConnProtocolError env h h3ExcessiveLoad "H3 control frame too large")

/-- `parse_qpack_encoder`.  A panic in `feed_encoder_stream` takes the program down. -/
def parseQpackEncoder (h : Nat) : EndpointM W Unit := do
  match (← get).registry.session h with
  | none => return
  | some x =>
    match parseEncoderStream env.huffman x.qpackDecoder x.qpackEncoderRx with
    | (_, .error .panic) => failure
    | (d, .error (.close reason)) =>
      modify (·.updSession h fun x => { x with qpackDecoder := d })
      closeConnProtocolError env h qpackEncoderStreamError reason
    | (d, .ok (rest, delta)) =>
      modify (·.updSession h fun x => { x with qpackDecoder := d, qpackEncoderRx := rest })
      match x.qpackDecoderSend with
      | some sid =>
        when (0 < delta) (onConn env h (.write h sid (encodeInsertCountIncrement delta)))
      | none => return

def parseQpackDecoder (h : Nat) : EndpointM W Unit := do
  match (← get).registry.session h with
  | none => return
  | some x =>
    match parseDecoderStream x.qpackEncoder x.pendingSectionRic x.qpackDecoderRx with
    | .error .panic => failure
    | .error (.close reason) => closeConnProtocolError env h qpackDecoderStreamError reason
    | .ok (encoder, pending, rest) =>
      modify (·.updSession h fun x => { x with
        qpackEncoder := encoder
        pendingSectionRic := pending
        qpackDecoderRx := rest })

/-! ## Headers -/

/-- Encode a header list with the session's encoder, or as literals when that fails
    (`encode_status_for_session`, `encode_connect_ok_for_session` and the two CONNECT
    requests). -/
def encodeForSession (h : Nat) (headers : List HeaderField) : EndpointM W EncodedHeaders := do
  match (← get).registry.session h with
  | none => return encodeLiteralHeaders headers
  | some x =>
    let (encoded, e) := encodeOrLiteral x.qpackEncoder headers
    modify (·.updSession h fun x => { x with qpackEncoder := e })
    return encoded

def writeEncodedHeaders (h streamId : Nat) (encoded : EncodedHeaders) : EndpointM W Unit := do
  match ((← get).registry.session h).bind qpackEncoderSend with
  | some encSid =>
    when (!encoded.encoderStream.isEmpty)
      (onConn env h (.write h encSid encoded.encoderStream))
  | none => pure ()
  onConn env h (.write h streamId encoded.headersFrame)
  modify (·.updSession h fun x =>
    { x with pendingSectionRic := trackSectionRic x.pendingSectionRic streamId encoded.ric })

/-- A response of one status, and with `finish` the end of our half of the stream. -/
def respond (h streamId : Nat) (status : String) (finish : Bool) : EndpointM W Unit := do
  let resp ← encodeForSession h [(":status", status)]
  writeEncodedHeaders env h streamId resp
  when finish (onConn env h (.finish h streamId))

def emitQpackSectionAck (h streamId ric : Nat) : EndpointM W Unit := do
  match ((← get).registry.session h).bind qpackDecoderSend with
  | none => return
  | some decoderSend =>
    when (0 < ric)
      (onConn env h (.write h decoderSend (encodeSectionAcknowledgement streamId)))

/-- `note_qpack_header_blocked`: the session with the stream recorded, or the reason to
    close the connection. -/
def noteQpackHeaderBlocked (x : Session) (streamId : Option Nat) : Except String Session :=
  let maxBlocked := x.qpackDecoder.maxBlockedStreams
  if maxBlocked = 0 then .error "QPACK blocked streams not permitted"
  else
    match streamId with
    | none => .ok x
    | some sid =>
      if !x.qpackBlockedStreams.contains sid &&
          min maxBlocked usizeMax ≤ x.qpackBlockedStreams.size then
        .error "QPACK blocked stream limit exceeded"
      else .ok { x with qpackBlockedStreams := x.qpackBlockedStreams.insert sid () }

/-- A header section that cannot be decoded: wait for inserts, or close the connection. -/
def onHeadersUndecodable (h : Nat) (streamId : Option Nat) (e : QpackError) :
    EndpointM W Unit := do
  match e with
  | .invalid =>
    closeConnProtocolError env h qpackDecompressionFailed "QPACK decompression failed"
  | .blocked =>
    match ((← get).registry.session h).map (noteQpackHeaderBlocked · streamId) with
    | none => return
    | some (.error reason) => closeConnProtocolError env h qpackDecompressionFailed reason
    | some (.ok x) =>
      modify (·.updSession h fun y => { y with qpackBlockedStreams := x.qpackBlockedStreams })

/-- A decoded section of a stream: it no longer waits for inserts, its frame leaves the
    buffer (`drain`), and it is acknowledged. -/
def onHeadersDecoded (h streamId ric : Nat) (drain : Session → Session) : EndpointM W Unit := do
  modify (·.updSession h fun x =>
    drain { x with qpackBlockedStreams := x.qpackBlockedStreams.erase streamId })
  emitQpackSectionAck env h streamId ric

/-! ## Server: requests -/

/-- Latch an accepted CONNECT stream: the primary one if there is none yet, otherwise an
    extra session. -/
def latchServerSession (x : Session) (streamId : Nat) : Session :=
  if !x.established || x.connectStream.isNone then
    { x with connectStream := some streamId, established := true, connectClosed := false }
  else { x with extraSessions := x.extraSessions.insert streamId () }

/-- Accept a WebTransport CONNECT: answer 200, latch the session, report it. -/
def acceptWtSession (h streamId id : Nat) : EndpointM W Unit := do
  respond env h streamId "200" false
  modify fun s =>
    let primary := (s.registry.session h).any fun x => !x.established || x.connectStream.isNone
    let s := s.updSession h (latchServerSession · streamId)
    let s := if primary then s.noteAt h (.primary · streamId) else s
    (s.dropHandshakeReservation h).pushEvent (.sessionEstablished id streamId)

def onServerRequest (h streamId id : Nat) (headers : List HeaderField) : EndpointM W Unit := do
  if !headersAreWebtransportConnect headers then respond env h streamId "404" true
  else do
    modify (·.noteAt h (.request · streamId))
    let s ← get
    let x := s.registry.session h
    if x.any (·.isWtConnect streamId) then return
    else if s.wtMaxSessions ≤ (x.map activeWtCount).getD 0 then do
      modify (·.setLastError "E_LIMIT_EXCEEDED: SETTINGS_WT_MAX_SESSIONS exceeded")
      respond env h streamId "429" true
    else acceptWtSession env h streamId id

/-- A frame other than HEADERS on a request stream: on an established CONNECT stream a DATA
    frame carries capsules. -/
def onServerDataFrame (h streamId header total ftype : Nat) : EndpointM W Unit := do
  let s ← get
  let capsulePayload := (s.registry.session h).bind fun x =>
    if ftype = data ∧ x.isWtConnect streamId then
      (x.inStreams.get? streamId).map fun st => framePayload st.buf header total
    else none
  modify (·.updInStream h streamId fun st => { st with buf := st.buf.drop total })
  match capsulePayload with
  | none => return
  | some payload => feedSessionCapsules env h streamId payload

def parseServerConnectRound (h streamId id : Nat) : EndpointM W (Option Unit) := do
  match (← get).registry.session h with
  | none => return some ()
  | some x =>
    match x.inStreams.get? streamId with
    | none => return some ()
    | some st =>
      match decodeFrameHeader st.buf with
      | .incomplete => return some ()
      | .tooLarge =>
        closeConnProtocolError env h h3ExcessiveLoad "H3 frame too large"
        return some ()
      | .ready header total ftype =>
        if ftype ≠ headers then do
          onServerDataFrame env h streamId header total ftype
          return none
        else
          match decodeFieldSection env.huffman (framePayload st.buf header total)
              x.qpackDecoder with
          | .error e =>
            onHeadersUndecodable env h (some streamId) e
            return some ()
          | .ok (headers, ric) =>
            onHeadersDecoded env h streamId ric fun x => { x with
              inStreams := x.inStreams.modify streamId fun st =>
                { st with buf := st.buf.drop total } }
            onServerRequest env h streamId id headers
            return none

def parseServerConnect (h streamId : Nat) : EndpointM W Unit := do
  match (← get).registry.handleToId h with
  | none => return
  | some id => loop env.fuel (parseServerConnectRound env h streamId id)

/-! ## Client: responses -/

def establishClientSession (s : WtEndpoint W) (h id : Nat) : WtEndpoint W :=
  let sessionId := ((s.registry.session h).bind connectStream).getD 0
  let s := s.updSession h fun x => { x with established := true, connectDeadline := none }
  (s.dropHandshakeReservation h).pushEvent (.sessionEstablished id sessionId)

def onClientDataFrame (h header total ftype : Nat) : EndpointM W Unit := do
  let s ← get
  let capsule := (s.registry.session h).bind fun x =>
    if ftype = data ∧ x.established ∧ ¬ x.connectClosed then
      x.connectStream.map fun sid => (sid, framePayload x.connectRx header total)
    else none
  modify (·.updSession h fun x => { x with connectRx := x.connectRx.drop total })
  match capsule with
  | none => return
  | some (sid, payload) => feedSessionCapsules env h sid payload

def parseClientConnectRound (h id : Nat) : EndpointM W (Option Unit) := do
  match (← get).registry.session h with
  | none => return some ()
  | some x =>
    match decodeFrameHeader x.connectRx with
    | .incomplete => return some ()
    | .tooLarge =>
      closeConnProtocolError env h h3ExcessiveLoad "H3 frame too large"
      return some ()
    | .ready header total ftype =>
      let drop := fun x : Session => { x with connectRx := x.connectRx.drop total }
      if ftype ≠ headers then do
        onClientDataFrame env h header total ftype
        return none
      else if x.connectClosed then do
        -- a late response must not resurrect a discarded session
        modify (·.updSession h drop)
        return none
      else
        match decodeFieldSection env.huffman (framePayload x.connectRx header total)
            x.qpackDecoder with
        | .error e =>
          onHeadersUndecodable env h x.connectStream e
          return some ()
        | .ok (headers, ric) => do
          match x.connectStream with
          | some sid => onHeadersDecoded env h sid ric drop
          | none => modify (·.updSession h drop)
          match classifyConnectStatus (connectStatus headers) with
          | .success =>
            when (!x.established) (modify (establishClientSession · h id))
            return none
          | .interim => return none
          | .failure =>
            if x.established then return none
            else do
              failSessionBeforeEstablish env h
              return some ()

def parseClientConnect (h : Nat) : EndpointM W Unit := do
  match (← get).registry.handleToId h with
  | none => return
  | some id => loop env.fuel (parseClientConnectRound env h id)

def parseExtraConnectCapsulesRound (h streamId : Nat) : EndpointM W (Option Unit) := do
  match ((← get).registry.session h).bind fun x => x.extraRx.get? streamId with
  | none => return some ()
  | some buf =>
    match decodeFrameHeader buf with
    | .incomplete => return some ()
    | .tooLarge =>
      closeConnProtocolError env h h3ExcessiveLoad "H3 frame too large"
      return some ()
    | .ready header total ftype =>
      modify (·.updSession h fun x =>
        { x with extraRx := x.extraRx.insert streamId (buf.drop total) })
      when (ftype == data)
        (feedSessionCapsules env h streamId (framePayload buf header total))
      return none

def parseExtraConnectCapsules (h streamId : Nat) : EndpointM W Unit :=
  loop env.fuel (parseExtraConnectCapsulesRound env h streamId)

/-- A 2xx on a secondary CONNECT: the pending session becomes an extra one. -/
def promotePendingSession (s : WtEndpoint W) (h streamId id : Nat) : WtEndpoint W :=
  (s.updSession h fun x => { x with
    pendingClientConnects := x.pendingClientConnects.erase streamId
    extraSessions := x.extraSessions.insert streamId () }).pushEvent
      (.sessionEstablished id streamId)

/-- A secondary CONNECT that will not be answered any more leaves the pending ones, and its
    session is reported closed. -/
def dropPendingSession (s : WtEndpoint W) (h streamId id : Nat) : WtEndpoint W :=
  (s.updSession h fun x => { x with
    pendingClientConnects := x.pendingClientConnects.erase streamId }).pushSessionClosed
      id streamId 0 ""

def parsePendingClientConnectRound (h streamId id : Nat) : EndpointM W (Option Unit) := do
  match (← get).registry.session h with
  | none => return some ()
  | some x =>
    match x.pendingClientConnects.get? streamId with
    | none => return some ()
    | some pending =>
      match decodeFrameHeader pending.rx with
      | .incomplete => return some ()
      | .tooLarge =>
        closeConnProtocolError env h h3ExcessiveLoad "H3 frame too large"
        return some ()
      | .ready header total ftype =>
        let drop := fun x : Session => { x with
          pendingClientConnects := x.pendingClientConnects.modify streamId fun p =>
            { p with rx := p.rx.drop total } }
        if ftype ≠ headers then do
          modify (·.updSession h drop)
          return none
        else
          match decodeFieldSection env.huffman (framePayload pending.rx header total)
              x.qpackDecoder with
          | .error e =>
            onHeadersUndecodable env h (some streamId) e
            return some ()
          | .ok (headers, ric) => do
            onHeadersDecoded env h streamId ric drop
            match classifyConnectStatus (connectStatus headers) with
            | .success =>
              modify (promotePendingSession · h streamId id)
              return some ()
            | .interim => return none
            | .failure =>
              onConn env h (.reset h streamId 0)
              stopRecv env h streamId 0
              modify (dropPendingSession · h streamId id)
              return some ()

def parsePendingClientConnect (h streamId : Nat) : EndpointM W Unit := do
  match (← get).registry.handleToId h with
  | none => return
  | some id => loop env.fuel (parsePendingClientConnectRound env h streamId id)

def retryBlockedConnects (h : Nat) : EndpointM W Unit := do
  let requests := match (← get).registry.session h with
    | none => []
    | some x => x.inStreams.keys.filter fun id => (x.inStreams.get? id).any fun st =>
      st.kind == some headers && st.isBidi
  let ids ← call env (.order requests)
  ids.val.forM (parseServerConnect env h)
  when (((← get).registry.session h).any fun x => x.connectSelfOpened && !x.connectRx.isEmpty)
    (parseClientConnect env h)
  let pending := match (← get).registry.session h with
    | none => []
    | some x => x.pendingClientConnects.keys
  let ids ← call env (.order pending)
  ids.val.forM (parsePendingClientConnect env h)

end Endpoint

end WebTransportBun.Wasm
