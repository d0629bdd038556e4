/-
  WebTransportBun.Wasm.Endpoint.Drive

  Driving one connection (`crates/wasm/src/endpoint.rs`): connection events, datagrams,
  teardown, and the wake-up of connections that wait for event capacity.
-/

import WebTransportBun.Wasm.Endpoint.Read

namespace WebTransportBun.Wasm

open Library Library.Prog Qpack

def maxWaitersWokenPerCapacityChange : Nat := 64

namespace Endpoint

variable {W : Type} (env : Env W)

/-! ## Teardown -/

def drainConnTransmits (h now : Nat) : EndpointM W Unit :=
  loop env.fuel do
    match ← call env (.pollTransmit h now) with
    | none => return some ()
    | some t =>
      modify fun s => { s with endpointTx := s.endpointTx ++ [t] }
      return none

def flushConnTransmits (h now : Nat) : EndpointM W Unit := do
  when ((← get).registry.conn h).isSome (drainConnTransmits env h now)

def cleanup (s : WtEndpoint W) (h now : Nat) : WtEndpoint W :=
  let id := s.registry.handleToId h
  let s := { s with registry := s.registry.remove h }
  let s := (s.dropHandshakeReservation h).dropSessionReservation h
  let s := match id with
    | none => s
    | some id => { s with rateLimiter := s.rateLimiter.releaseConnection id now }
  (s.streamHandlesOf h).foldl WtEndpoint.forgetStream s

def cleanupConnection (h now : Nat) : EndpointM W Unit := do
  onConn env h (.drop h)
  modify (cleanup · h now)

def closeConn (connId code : Nat) (reason : Bytes) (now : Nat) : EndpointM W Unit := do
  match (← get).registry.idToHandle.get? connId with
  | none => return
  | some h =>
    onConn env h (.close h now code reason)
    modify (·.pushEvent (.connectionClosed connId code))
    flushConnTransmits env h now
    cleanupConnection env h now

def pushConnectionLost (s : WtEndpoint W) (id : Nat) (reason : ConnectionError) : WtEndpoint W :=
  match connectionLostSignal reason with
  | none => s
  | some (error, code) =>
    let s := match error with
      | none => s
      | some error => s.setLastError error
    s.pushEvent (.connectionClosed id code)

def onConnectionLost (h : Nat) (reason : ConnectionError) (now : Nat) : EndpointM W Unit := do
  match (← get).registry.handleToId h with
  | none => return
  | some id =>
    modify fun s => (s.streamHandlesOf h).foldl WtEndpoint.unpause s
    readStreams env h now
    modify (pushConnectionLost · id reason)
    flushConnTransmits env h now
    cleanupConnection env h now

/-! ## Streams and datagrams -/

/-- A stream accepted from the peer: quinn-proto knows it from now on, and it gets an entry
    unless it has one. -/
def adoptInStream (s : WtEndpoint W) (h id : Nat) (dir : Dir) : WtEndpoint W :=
  ((s.updConn h fun c => { c with streams := id :: c.streams }).updSession h fun x =>
    if x.inStreams.contains id then x
    else { x with inStreams := x.inStreams.insert id { isBidi := dir = .bi } }).noteAt h
      (.adopted · id)

def acceptStreams (h : Nat) (dir : Dir) : EndpointM W Unit :=
  loop env.fuel do
    match (← get).registry.conn h with
    | none => return some ()
    | some conn =>
      match ← call env (.acceptStream h conn dir) with
      | none => return some ()
      | some id =>
        modify (adoptInStream · h id.val dir)
        return none

def datagramPayloadForSession (x : Session) (extras : List Nat) (dg : Bytes) :
    Option (Nat × Bytes) := do
  let (qsid, payload) ← unwrapDatagram dg
  let sid ← x.sessionForQsid extras qsid
  return (sid, payload)

/-- What `drain_datagrams` does with a datagram for a session; `some` leaves the loop. -/
def deliverDatagram (id sessionId : Nat) (payload : Bytes) (now : Nat) :
    EndpointM W (Option Unit) := do
  let s ← get
  let limited : Except String Unit × PeerRateLimiter :=
    if s.isServer then s.rateLimiter.checkConnection now id .datagramIngress
    else (.ok (), s.rateLimiter)
  modify fun s => { s with rateLimiter := limited.2 }
  match limited.1 with
  | .error e =>
    modify (·.setLastError e)
    closeConn env id 0 (strBytes "rate limited") now
    return some ()
  | .ok () =>
    let pushed := (← get).tryPushEvent (.datagram id sessionId payload)
    set pushed.2
    match pushed.1 with
    | .error e =>
      modify (·.setLastError e)
      closeConn env id 0 (strBytes "inbound datagram budget exhausted") now
      return some ()
    | .ok () => return none

def drainDatagramsRound (h id now : Nat) : EndpointM W (Option Unit) := do
  let s ← get
  if !s.hasEventSlotCapacity 1 || s.box.governor.availableEventBytes id none == 0 then do
    modify (·.holdBack h .datagrams)
    return some ()
  else
    match s.registry.session h with
    | none => return some ()
    | some x =>
      match ← call env (.recvDatagram h) with
      | none => return some ()
      | some dg =>
        modify (·.noteAt h (.datagram · dg))
        let extras ← call env (.order x.extraSessions.keys)
        match datagramPayloadForSession x extras.val dg with
        | none => return none
        | some (sessionId, payload) => deliverDatagram env id sessionId payload now

def drainDatagrams (h now : Nat) : EndpointM W Unit := do
  match (← get).registry.handleToId h with
  | none => return
  | some id =>
    modify (·.noteAt h (.reading · none))
    loop env.fuel (drainDatagramsRound env h id now)

/-! ## Connecting -/

def openControlStream (h : Nat) : EndpointM W Unit := do
  let s ← get
  match ← openQuicStream env h .uni with
  | none => return
  | some ctrl =>
    onConn env h (.write h ctrl (encodeControlPreambleWith s.wtMaxSessions s.qpackSettings))
    modify (·.updSession h fun x => { x with controlSendStream := some ctrl })

def openQpackStream (h streamType : Nat) (store : Session → Nat → Session) :
    EndpointM W Unit := do
  match ← openQuicStream env h .uni with
  | none => return
  | some id =>
    onConn env h (.write h id (Varint.encode streamType))
    modify (·.updSession h (store · id))

def sendConnectRequest (h streamId : Nat) : EndpointM W Unit := do
  let authority := (((← get).registry.session h).map Session.authority).getD ""
  let encoded ← encodeForSession h (connectHeaders authority "/")
  writeEncodedHeaders env h streamId encoded

def setPrimaryConnect (s : WtEndpoint W) (h bidi : Nat) : WtEndpoint W :=
  (s.updSession h fun x =>
    { x with connectStream := some bidi, connectSelfOpened := true }).noteAt h (.primary · bidi)

def onConnected (h : Nat) : EndpointM W Unit := do
  openControlStream env h
  openQpackStream env h StreamType.qpackEncoder fun x id => { x with qpackEncoderSend := some id }
  openQpackStream env h StreamType.qpackDecoder fun x id => { x with qpackDecoderSend := some id }
  when (!(← get).isServer) do
    match ← openQuicStream env h .bi with
    | none => return
    | some bidi =>
      sendConnectRequest env h bidi
      modify (setPrimaryConnect · h bidi)

/-! ## Driving a connection -/

/-- One event of the poll loop of `drive`: `some true` leaves the loop, `some false` leaves
    `drive`. -/
def onQuicEvent (h now : Nat) : QuicEvent → EndpointM W (Option Bool)
  | .connected => do
    match (← get).registry.handleToId h with
    | none => return some false
    | some id =>
      modify fun s =>
        (s.updConn h fun c => { c with connected := true }).pushEvent (.connected id)
      onConnected env h
      modify fun s => if s.enable0rtt then
        { s with nstFlushRemaining := s.nstFlushRemaining.insert h 64 } else s
      return none
  | .opened dir => do
    acceptStreams env h dir
    return none
  | .stopped id code => do
    modify (·.onStreamStopped h id (unmapWtAppError code))
    return none
  | .datagramReceived => do
    drainDatagrams env h now
    return none
  | .connectionLost reason => do
    onConnectionLost env h reason now
    return some false
  | .readable | .other => return none

def driveRound (h now : Nat) : EndpointM W (Option Bool) := do
  match (← get).registry.conn h with
  | none => return some false
  | some conn =>
    match ← call env (.poll h conn) with
    | none => return some true
    | some ev => onQuicEvent env h now ev.val

def drive (h now : Nat) : EndpointM W Unit := do
  when (← loop env.fuel (driveRound env h now)) do
    acceptStreams env h .uni
    acceptStreams env h .bi
    drainDatagrams env h now
    readStreams env h now

def driveAll (now : Nat) : EndpointM W Unit := do
  let handles ← call env (.order (← get).registry.handles)
  handles.val.forM fun h => drive env h now

/-! ## Waking held-back connections -/

/-- One round of the loop of `resume_waiting_after_capacity_change`. -/
def resumeWaitingRound (now : Nat) : EndpointM W (Option Unit) := do
  match (← get).capacityWaiters.popFront with
  | none => return some ()
  | some (conn, capacityWaiters) =>
    modify fun s => { s with capacityWaiters }
    match (← get).registry.idToHandle.get? conn with
    | none => return none
    | some h =>
      drainDatagrams env h now
      readStreams env h now
      return if maxPendingEvents ≤ (← get).box.events.length then some () else none

def resumeWaitingAfterCapacityChange : EndpointM W Unit := do
  let waiting := (← get).capacityWaiters.order.length
  modify fun s => { s with box := s.box.note (.resumed waiting) }
  if waiting = 0 then return
  else do
    let now ← call env .now
    rounds maxWaitersWokenPerCapacityChange (resumeWaitingRound env now) (pure ())

end Endpoint

end WebTransportBun.Wasm
