/-
  WebTransportBun.Wasm.Endpoint.Api

  The public calls of `WtEndpoint` (`crates/wasm/src/endpoint.rs`) and the endpoint as a
  machine that takes them one after the other (`ApiCall`, `Step`).

  Left out are the calls that only read (`connection_stats_json`, `governor_snapshot_json`
  and the like) and those that only concern TLS (`update_tls_json`, the ticket store).
  `next_timeout_ms` yields the remaining nanoseconds instead of a float.
-/

import WebTransportBun.Library.Text
import WebTransportBun.Wasm.Endpoint.Drive

namespace WebTransportBun.Wasm

open Library Library.Prog Qpack

namespace Endpoint

/-! ## Authorities -/

/-- What stands before and after the last `:` (`rsplit_once`). -/
def rsplitColon (chars : List Char) : Option (List Char × List Char) :=
  let port := (chars.reverse.takeWhile (· != ':')).reverse
  if port.length = chars.length then none
  else some (chars.take (chars.length - port.length - 1), port)

/-- The host of an authority, without a port or brackets. -/
def authorityHost : List Char → List Char
  | '[' :: rest =>
    if rest.contains ']' then rest.takeWhile (· != ']') else '[' :: rest
  | chars =>
    match rsplitColon chars with
    | none => chars
    | some (host, port) => if !port.isEmpty && port.all Char.isDigit then host else chars

def tlsServerNameFromAuthority (authority : String) : Option String :=
  let chars := trim authority.toList
  let host := trim (authorityHost chars)
  if chars.isEmpty || host.isEmpty then none else some (String.ofList host)

/-! ## Connections -/

variable {W : Type} (env : Env W)

section

variable (s : WtEndpoint W)

/-- The reservations of `admit_new_connection`: a handshake and a session slot. -/
def admitSlots : Except String (Slot × Slot) × WtEndpoint W :=
  match s.box.reserveHandshake with
  | .error e => (.error e, s)
  | .ok (handshake, box) =>
    match box.reserveSession 0 with
    | .error e => (.error e, { s with box := box.release handshake })
    | .ok (session, box) => (.ok (handshake, session), { s with box })

def admitNewConnection (now : Nat) (source : Option SocketAddr) :
    Except String (Slot × Slot) × WtEndpoint W :=
  match source with
  | none => admitSlots s
  | some source =>
    match s.rateLimiter.check now source .handshake with
    | (.error e, rateLimiter) => (.error e, { s with rateLimiter })
    | (.ok (), rateLimiter) => admitSlots { s with rateLimiter }

/-- The reservations of a connection that is not taken on after all. -/
def releaseSlots (slots : Slot × Slot) : WtEndpoint W :=
  { s with box := (s.box.release slots.1).release slots.2 }

def storeSlots (h : Nat) (slots : Slot × Slot) : WtEndpoint W :=
  { s with
    handshakeReservations := s.handshakeReservations.insert h slots.1
    sessionReservations := s.sessionReservations.insert h slots.2 }

/-- The session of a new connection, with the deadline for its CONNECT. -/
def freshSession (authority : String) (now : Nat) : Session :=
  .new authority s.qpackSettings (now + s.handshakeTimeoutMs * 1000000)

end

def connect (authority : String) : EndpointM W Int := do
  if (← get).isServer then do
    modify (·.setLastError "E_INTERNAL: client config unavailable")
    return -1
  else do
    let now ← call env .now
    let admitted := admitNewConnection (← get) now none
    set admitted.2
    match admitted.1 with
    | .error e =>
      modify (·.setLastError e)
      return -1
    | .ok slots =>
      match tlsServerNameFromAuthority authority with
      | none =>
        modify fun s =>
          releaseSlots (s.setLastError "E_INVALID_ARGUMENT: empty authority host") slots
        return -1
      | some serverName =>
        let s ← get
        match ← call env (.connect s.registry.handles serverName) with
        | none =>
          modify fun s =>
            releaseSlots (s.setLastError "E_INTERNAL: quic connect rejected") slots
          return -1
        | some h =>
          match s.registry.register h.val h.property { side := .client }
              (freshSession s authority now) with
          | .error e =>
            modify fun s => releaseSlots (s.setLastError e) slots
            return -1
          | .ok (id, registry) =>
            modify fun s => storeSlots { s with registry } h.val slots
            return id

def pushTransmit (s : WtEndpoint W) : Option (Bytes × SocketAddr) → WtEndpoint W
  | none => s
  | some (packet, dest) =>
    if packet.isEmpty then s else { s with endpointTx := s.endpointTx ++ [(packet, dest)] }

/-- A new connection that quinn-proto accepted: register it, attach it to its peer's rate
    limit, keep its reservations.  The result is the connection to drive; `none` is an early
    return. -/
def adoptConnection (s : WtEndpoint W) (h : { h : Nat // h ∉ s.registry.handles })
    (slots : Slot × Slot) (now : Nat) (source : SocketAddr) : EndpointM W (Option Nat) := do
  match s.registry.register h.val h.property { side := .server } (freshSession s "" now) with
  | .error e =>
    modify fun s => releaseSlots (s.setLastError e) slots
    return none
  | .ok (id, registry) =>
    let attached : Except String Unit × PeerRateLimiter :=
      if s.isServer then s.rateLimiter.attachConnection id source now else (.ok (), s.rateLimiter)
    modify fun s => { s with registry, rateLimiter := attached.2 }
    match attached.1 with
    | .error e =>
      modify (·.setLastError e)
      closeConn env id 0 (strBytes "rate limited") now
      modify (releaseSlots · slots)
      return none
    | .ok () =>
      modify (storeSlots · h.val slots)
      return some h.val

/-- The `NewConnection` arm of `recv`: `none` is an early return, `some affected` goes on
    to the driving. -/
def onNewConnection (now : Nat) (source : SocketAddr) : EndpointM W (Option (Option Nat)) := do
  let s ← get
  let admitted := admitNewConnection s now (if s.isServer then some source else none)
  set admitted.2
  match admitted.1 with
  | .error e =>
    modify (·.setLastError e)
    let refusal : Bytes × SocketAddr ← call env .refuse
    modify fun s => { s with endpointTx := s.endpointTx ++ [refusal] }
    return none
  | .ok slots =>
    let s ← get
    match ← call env (.accept s.registry.handles now) with
    | .error response =>
      modify fun s => releaseSlots (pushTransmit s response) slots
      return some none
    | .ok h => return (← adoptConnection env s h slots now source).map some

def recv (now : Nat) (source : SocketAddr) (data : Bytes) : EndpointM W Unit := do
  match ← call env (.handle (← get).isServer now source data) with
  | some ⟨.newConnection, _⟩ =>
    match ← onNewConnection env now source with
    | none => return
    | some none => driveAll env now
    | some (some h) => drive env h now
  | some ⟨.connectionEvent h, _⟩ =>
    if ((← get).registry.conn h).isSome then do
      discard (call env (.handleEvent h))
      drive env h now
    else driveAll env now
  | some ⟨.response packet dest, _⟩ =>
    modify (pushTransmit · (some (packet, dest)))
    driveAll env now
  | none => driveAll env now

def closeAll (code : Nat) (reason : Bytes) (now : Nat) : EndpointM W Unit := do
  let ids ← call env (.order (← get).registry.idToHandle.keys)
  ids.val.forM fun id => closeConn env id code reason now
  modify fun s => { s with rateLimiter := s.rateLimiter.clear }

/-! ## Datagrams -/

/-- The connection and session a call names, if `resolve_wt_session` finds it. -/
def resolveSession (s : WtEndpoint W) (connId sessionId : Nat) : Except String (Nat × Nat) :=
  match s.registry.idToHandle.get? connId with
  | none => .error "E_SESSION_CLOSED: unknown connection"
  | some h =>
    match (s.registry.session h).bind fun x => x.resolveWtSession sessionId with
    | none => .error "E_SESSION_CLOSED: session not established"
    | some sid => .ok (h, sid)

def maxDatagramSize (connId sessionId : Nat) : EndpointM W (Option Nat) := do
  let s ← get
  match resolveSession s connId sessionId with
  | .error _ => return none
  | .ok (h, _) =>
    match ← call env (.maxDatagramSize h) with
    | none => return none
    | some transport =>
      return some (min s.box.limits.maxDatagramSize.toNat
        (transport - datagramPrefixLen sessionId))

def sendDatagramFramed (connId sessionId : Nat) (payload : Bytes) : EndpointM W Bool := do
  match resolveSession (← get) connId sessionId with
  | .error e =>
    modify (·.setLastError e)
    return false
  | .ok (h, _) =>
    match ← call env (.sendDatagram h (wrapDatagram sessionId payload)) with
    | .ok () => return true
    | .error .tooLarge =>
      modify (·.setLastError "E_LIMIT_EXCEEDED: maxDatagramSize exceeded")
      return false
    | .error .other =>
      modify (·.setLastError "E_QUEUE_FULL: datagram send queue blocked")
      return false

def sendDatagram (connId sessionId : Nat) (payload : Bytes) : EndpointM W Bool := do
  let negotiated ← maxDatagramSize env connId sessionId
  if (← get).box.limits.maxDatagramSize.toNat < payload.length ∨
      negotiated.any (· < payload.length) then do
    modify (·.setLastError "E_LIMIT_EXCEEDED: maxDatagramSize exceeded")
    return false
  else sendDatagramFramed env connId sessionId payload

/-! ## Streams -/

def asI32 (n : Nat) : Int := if n < 2 ^ 31 then n else (n : Int) - 2 ^ 32

def bindSelfStream (s : WtEndpoint W) (h sid connId sessionId : Nat) (bidi : Bool) (slot : Slot) :
    WtEndpoint W :=
  let handle := s.nextStream
  let s := { s.indexInsert handle h sid sessionId with
    nextStream := s.nextStream + 1
    halfDone := s.halfDone.insert handle (if bidi then 0 else halfRecv)
    streamReservations := s.streamReservations.insert handle slot
    box := s.box.note (.bound handle connId sid false) }
  if bidi then s.updSession h fun x => { x with selfBidi := x.selfBidi.insert sid handle } else s

def openStream (connId sessionId : Nat) (bidi : Bool) : EndpointM W Int := do
  let s ← get
  match resolveSession s connId sessionId with
  | .error e =>
    modify (·.setLastError e)
    return -1
  | .ok (h, _) =>
    if 2 ^ 32 ≤ s.nextStream + 1 then do
      modify (·.setLastError "E_LIMIT_EXCEEDED: stream handle space exhausted")
      return -1
    else
      match s.box.reserveStream connId s.nextStream (if bidi then .bidi else .uni) with
      | .error e =>
        modify (·.setLastError e)
        return -1
      | .ok (slot, box) =>
        modify fun s => { s with box }
        match ← openQuicStream env h (if bidi then .bi else .uni) with
        | none =>
          modify fun s => { s with box := s.box.release slot }.setLastError
            "E_LIMIT_EXCEEDED: stream capacity unavailable"
          return -1
        | some sid =>
          let signal := if bidi then FrameType.wtBidi else StreamType.wtUni
          onConn env h (.write h sid (Varint.encode signal ++ Varint.encode sessionId))
          modify (bindSelfStream · h sid connId sessionId bidi slot)
          return asI32 s.nextStream

def streamOf (s : WtEndpoint W) (stream : Nat) : Option (Nat × Nat) := s.streamIndex.get? stream

def streamWrite (stream : Nat) (data : Bytes) : EndpointM W Int := do
  match streamOf (← get) stream with
  | none =>
    modify (·.setLastError "E_STREAM_RESET: unknown stream")
    return -1
  | some (h, sid) =>
    match (← get).registry.conn h with
    | none =>
      modify (·.setLastError "E_SESSION_CLOSED: connection missing")
      return -1
    | some _ =>
      match ← call env (.write h sid data) with
      | .ok n => return n
      | .error .blocked =>
        modify (·.setLastError "E_BACKPRESSURE_TIMEOUT: stream write blocked")
        return 0
      | .error .other =>
        modify (·.setLastError "E_STREAM_RESET: stream write failed")
        return -1

def streamFinish (stream : Nat) : EndpointM W Unit := do
  match streamOf (← get) stream with
  | none => return
  | some (h, sid) =>
    onConn env h (.finish h sid)
    modify (·.markStreamHalfDone stream halfSend)

def streamReset (stream code : Nat) : EndpointM W Unit := do
  match streamOf (← get) stream with
  | none => return
  | some (h, sid) =>
    onConn env h (.reset h sid (remapApplicationError code))
    modify (·.markStreamHalfDone stream halfSend)

def streamStop (stream code : Nat) : EndpointM W Unit := do
  match streamOf (← get) stream with
  | none => return
  | some (h, sid) =>
    stopRecv env h sid (remapApplicationError code)
    modify fun s => (s.unpause stream).markStreamHalfDone stream halfRecv

def streamPause (stream : Nat) : EndpointM W Unit :=
  modify fun s => { s with paused := s.paused.insert stream () }

def streamResume (stream : Nat) : EndpointM W Unit := do
  let s ← get
  if s.paused.contains stream then do
    modify (·.unpause stream)
    match streamOf s stream with
    | none => return
    | some (h, _) =>
      let now ← call env .now
      readStreams env h now
  else return

/-! ## Sessions -/

/-- What `open_wt_session` checks before it opens a stream: the connection's handle. -/
def admitWtSession (s : WtEndpoint W) (connId : Nat) : Except String Nat :=
  match s.registry.idToHandle.get? connId with
  | none => .error "E_SESSION_CLOSED: unknown connection"
  | some h =>
    if s.isServer then .error "E_UNSUPPORTED_ARGUMENT: open_wt_session is client-only"
    else
      match s.registry.session h with
      | none => .error "E_SESSION_CLOSED: session missing"
      | some x =>
        if !x.established then .error "E_SESSION_CLOSED: primary session not established"
        else
          match x.peerSettings with
          | none => .error "E_HANDSHAKE_TIMEOUT: peer SETTINGS not yet received"
          | some peer =>
            let peerMax := if peer.maxSessions = 0 then 1 else peer.maxSessions
            if peerMax ≤ x.activeWtCount then
              .error "E_LIMIT_EXCEEDED: SETTINGS_WT_MAX_SESSIONS exceeded"
            else .ok h

def openWtSession (connId : Nat) : EndpointM W Int := do
  match admitWtSession (← get) connId with
  | .error e =>
    modify (·.setLastError e)
    return -1
  | .ok h =>
    let now : Nat ← call env .now
    match ← openQuicStream env h .bi with
    | none =>
      modify (·.setLastError "E_LIMIT_EXCEEDED: stream capacity unavailable")
      return -1
    | some bidi =>
      sendConnectRequest env h bidi
      modify fun s => s.updSession h fun x => { x with
        pendingClientConnects := x.pendingClientConnects.insert bidi
          { deadline := some (now + s.handshakeTimeoutMs * 1000000) } }
      return bidi

def resolveWt (s : WtEndpoint W) (connId sessionId : Nat) : Except String (Nat × Session) :=
  match s.registry.idToHandle.get? connId with
  | none => .error "E_SESSION_CLOSED: unknown connection"
  | some h =>
    match s.registry.session h with
    | none => .error "E_SESSION_CLOSED: session missing"
    | some x =>
      match x.resolveWtSession sessionId with
      | none => .error "E_SESSION_CLOSED: unknown WebTransport session id"
      | some _ => .ok (h, x)

def closeSession (x : Session) (sid : Nat) : Session :=
  { retireWtSession x sid with pendingClientConnects := x.pendingClientConnects.erase sid }

/-- `close_wt_session`.  An established session gets a CLOSE capsule and a FIN; a CONNECT
    that was not answered, or one that was closed before, is reset. -/
def closeWtSession (connId sessionId code : Nat) (reason : Bytes) : EndpointM W Bool := do
  match resolveWt (← get) connId sessionId with
  | .error e =>
    modify (·.setLastError e)
    return false
  | .ok (h, x) =>
    if wtSessionLive x sessionId then do
      onConn env h (.write h sessionId (closeDataFrame code reason))
      onConn env h (.finish h sessionId)
    else do
      onConn env h (.reset h sessionId code)
      stopRecv env h sessionId code
    modify (·.updSession h (closeSession · sessionId))
    resetSessionStreams env h connId sessionId
    modify (·.pushSessionClosed connId sessionId code "")
    return true

def drainWtSession (connId sessionId : Nat) : EndpointM W Bool := do
  match resolveWt (← get) connId sessionId with
  | .error e =>
    modify (·.setLastError e)
    return false
  | .ok (h, x) =>
    if wtSessionLive x sessionId then do
      onConn env h (.write h sessionId drainDataFrame)
      return true
    else do
      modify (·.setLastError "E_SESSION_CLOSED: session not established")
      return false

/-! ## Time -/

def fireTimer (now h : Nat) : EndpointM W Unit := do
  match (← get).registry.conn h with
  | none => return
  | some _ =>
    match ← call env (.pollTimeout h) with
    | none => return
    | some t => when (t ≤ now) (discard (call env (.handleTimeout h now)))

def connectDeadlineExpired (x : Session) (now : Nat) : Bool :=
  !x.established && !x.connectClosed && x.connectDeadline.any (· ≤ now)

/-- The secondary CONNECTs of a connection whose deadline has passed. -/
def expiredPending (x : Session) (now : Nat) : List Nat :=
  x.pendingClientConnects.keys.filter fun sid =>
    (x.pendingClientConnects.get? sid).any fun p => p.deadline.any (· ≤ now)

/-- A secondary CONNECT that was not answered in time. -/
def expirePendingConnect (h connId sessionId : Nat) : EndpointM W Unit := do
  modify (·.setLastError "E_HANDSHAKE_TIMEOUT: WebTransport CONNECT timed out")
  match ((← get).registry.session h).bind fun x => x.resolveWtSession sessionId with
  | none => return
  | some sid =>
    onConn env h (.reset h sid 0)
    stopRecv env h sid 0
    modify fun s => (s.updSession h fun x => { x with
      pendingClientConnects := x.pendingClientConnects.erase sid
      extraSessions := x.extraSessions.erase sid }).pushSessionClosed connId sessionId 0 ""

/-- The (connection, session) pairs `handle_timeout` collects, in the order of the tables. -/
def collectExpired (now : Nat) : List Nat → EndpointM W (List (Nat × Nat × Nat))
  | [] => return []
  | h :: rest => do
    match (← get).registry.entries.get? h with
    | none => collectExpired now rest
    | some e =>
      let sids ← call env (.order (expiredPending e.session now))
      return sids.val.map (fun sid => (h, e.id, sid)) ++ (← collectExpired now rest)

def handleTimeout (now : Nat) : EndpointM W Unit := do
  let handles ← call env (.order (← get).registry.handles)
  handles.val.forM (fireTimer env now)
  let s ← get
  let expired ← call env (.order (s.registry.handles.filter fun h =>
    (s.registry.session h).any (connectDeadlineExpired · now)))
  expired.val.forM fun h => do
    modify (·.setLastError "E_HANDSHAKE_TIMEOUT: WebTransport CONNECT timed out")
    failSessionBeforeEstablish env h
  let handles ← call env (.order (← get).registry.handles)
  let expired ← collectExpired env now handles.val
  expired.forM fun (h, connId, sid) => expirePendingConnect env h connId sid
  driveAll env now

/-- `sooner_deadline` over the deadlines in a list. -/
def soonest (deadlines : List Nat) : Option Nat := deadlines.min?

/-- `next_timeout_ms`: the time until the soonest deadline, if there is one. -/
def nextTimeout : EndpointM W (Option Nat) := do
  let now : Nat ← call env .now
  let handles ← call env (.order (← get).registry.handles)
  let timers ← handles.val.mapM fun h => call env (.pollTimeout h)
  let s ← get
  let sessions := s.registry.handles.filterMap s.registry.session
  let connects := sessions.map fun x =>
    if !x.established && !x.connectClosed then x.connectDeadline else none
  let pending := (sessions.map fun x => x.pendingClientConnects.values.map (·.deadline)).flatten
  return (soonest (timers ++ connects ++ pending).reduceOption).map (· - now)

def flushTickets (now h : Nat) : EndpointM W Unit := do
  if ((← get).registry.conn h).isSome then do
    drive env h now
    modify fun s => match s.nstFlushRemaining.get? h with
      | none => s
      | some left =>
        { s with nstFlushRemaining :=
            if left - 1 = 0 then s.nstFlushRemaining.erase h
            else s.nstFlushRemaining.insert h (left - 1) }
  else modify fun s => { s with nstFlushRemaining := s.nstFlushRemaining.erase h }

def pollTransmits (now : Nat) : EndpointM W (List (Bytes × SocketAddr)) := do
  let s ← get
  when s.enable0rtt do
    let flush ← call env (.order s.nstFlushRemaining.keys)
    flush.val.forM (flushTickets env now)
  let handles ← call env (.order (← get).registry.handles)
  handles.val.forM fun h => flushConnTransmits env h now
  let out := (← get).endpointTx
  modify fun s => { s with endpointTx := [] }
  return out

/-! ## Polling events -/

def releaseHostToken (token : Nat) : EndpointM W Bool := do
  let released := (← get).box.releaseHostToken token
  modify fun s => { s with box := released.2 }
  if released.1 then do
    resumeWaitingAfterCapacityChange env
    return true
  else return false

def pollEvent : EndpointM W (Option WtEvent) := do
  match (← get).box.poll with
  | none => return none
  | some (ev, box) =>
    modify fun s => { s with box }
    resumeWaitingAfterCapacityChange env
    return some ev

/-- A payload that can no longer reach the host: its connection is closed, or the loss is
    reported if the connection is gone. -/
def failClosed (conn : Nat) (error : String) : EndpointM W Unit := do
  modify (·.setLastError error)
  if (← get).registry.idToHandle.contains conn then do
    let now ← call env .now
    closeConn env conn h3InternalError (strBytes "host reservation token space exhausted") now
  else modify (·.pushEvent (.connectionClosed conn h3InternalError))

def pollEventEncodedRound : EndpointM W (Option (Option Bytes)) := do
  match (← get).box.pollToHost with
  | none => return some none
  | some (ev, token, box) =>
    modify fun s => { s with box }
    match token with
    | .error e =>
      failClosed env ev.conn e
      resumeWaitingAfterCapacityChange env
      return none
    | .ok token =>
      resumeWaitingAfterCapacityChange env
      return some (some (ev.encodeWithHostToken token))

def pollEventEncoded : EndpointM W (Option Bytes) :=
  loop env.fuel (pollEventEncodedRound env)

end Endpoint

/-! ## The endpoint as a machine -/

inductive ApiCall
  | connect (authority : String)
  | recv (now : Nat) (source : SocketAddr) (data : Bytes)
  | closeConn (connId code : Nat) (reason : Bytes) (now : Nat)
  | closeAll (code : Nat) (reason : Bytes) (now : Nat)
  | maxDatagramSize (connId sessionId : Nat)
  | sendDatagram (connId sessionId : Nat) (payload : Bytes)
  | openStream (connId sessionId : Nat) (bidi : Bool)
  | streamWrite (stream : Nat) (data : Bytes)
  | streamFinish (stream : Nat)
  | streamReset (stream code : Nat)
  | streamStop (stream code : Nat)
  | streamPause (stream : Nat)
  | streamResume (stream : Nat)
  | openWtSession (connId : Nat)
  | closeWtSession (connId sessionId code : Nat) (reason : Bytes)
  | drainWtSession (connId sessionId : Nat)
  | handleTimeout (now : Nat)
  | nextTimeout
  | pollTransmits (now : Nat)
  | releaseHostToken (token : Nat)
  | pollEvent
  | pollEventEncoded
  | setWtMaxSessions (maxSessions : Nat)
  | setQpackSettings (settings : QpackLocalSettings)
  | takeLastError

namespace Endpoint

variable {W : Type} (env : Env W)

def perform : ApiCall → EndpointM W Unit
  | .connect authority => discard (connect env authority)
  | .recv now source data => recv env now source data
  | .closeConn connId code reason now => closeConn env connId code reason now
  | .closeAll code reason now => closeAll env code reason now
  | .maxDatagramSize connId sessionId => discard (maxDatagramSize env connId sessionId)
  | .sendDatagram connId sessionId payload => discard (sendDatagram env connId sessionId payload)
  | .openStream connId sessionId bidi => discard (openStream env connId sessionId bidi)
  | .streamWrite stream data => discard (streamWrite env stream data)
  | .streamFinish stream => streamFinish env stream
  | .streamReset stream code => streamReset env stream code
  | .streamStop stream code => streamStop env stream code
  | .streamPause stream => streamPause stream
  | .streamResume stream => streamResume env stream
  | .openWtSession connId => discard (openWtSession env connId)
  | .closeWtSession connId sessionId code reason =>
    discard (closeWtSession env connId sessionId code reason)
  | .drainWtSession connId sessionId => discard (drainWtSession env connId sessionId)
  | .handleTimeout now => handleTimeout env now
  | .nextTimeout => discard (nextTimeout env)
  | .pollTransmits now => discard (pollTransmits env now)
  | .releaseHostToken token => discard (releaseHostToken env token)
  | .pollEvent => discard (pollEvent env)
  | .pollEventEncoded => discard (pollEventEncoded env)
  | .setWtMaxSessions maxSessions =>
    modify fun s => { s with wtMaxSessions := clampWtMaxSessions maxSessions }
  | .setQpackSettings settings => modify fun s => { s with qpackSettings := settings }
  | .takeLastError => modify fun s => { s with lastError := none }

/-- The call returns and leaves the endpoint in `t`. -/
def Step (s : WtEndpoint W) (c : ApiCall) (t : WtEndpoint W) : Prop :=
  perform env c s = some ((), t)

end Endpoint

end WebTransportBun.Wasm
