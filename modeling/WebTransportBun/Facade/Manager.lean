/-
  WebTransportBun.Facade.Manager

  `WasmTransportManager` of `packages/webtransport/src/backend.ts`: the session and stream
  objects it registers for the events of the wasm endpoint, and the payload reservations it
  adopts from the Rust governor.

  A reservation object is known by the number of its adoption.  `pump` does not nest
  (`backend-wasm.ts`), so an event handler runs to its end before the next event.  What a
  callback does to streams and reservations, callbacks within it included, is a list of
  acts, performed where the handler calls it; a callback behind which the handler does
  nothing (`onSession`, `incomingCb`) is the act that follows.  Logs, metrics, promises and
  the texts of diagnostics are left out.
-/

import WebTransportBun.Library.Map
import WebTransportBun.Library.Run

namespace WebTransportBun.Facade

open Library

/-- A session id; `none` is `PENDING_SESSION_ID`. -/
abbrev SessionId := Option Nat

structure ManagerLimits where
  maxStreamsPerSessionBidi : Nat := 200
  maxStreamsPerSessionUni : Nat := 200
  maxQueuedBytesGlobal : Nat := 512 * 1024 * 1024
  maxQueuedBytesPerSession : Nat := 2 * 1024 * 1024
  maxQueuedBytesPerStream : Nat := 256 * 1024

/-- `ManagerHostReservation`, until it is released. -/
structure HostReservation where
  conn : Nat
  stream : Option Nat
  token : Nat
  bytes : Nat
  sessionId : Option SessionId
  deriving DecidableEq, Repr

/-- `WasmStream`.  `dataCb` says of a subscriber whether it retains reservations;
    `buffered` holds the reservations of the payloads that wait for one. -/
structure WasmStream where
  conn : Nat
  recvDone : Bool
  sendDone : Bool
  dataCb : Option Bool := none
  buffered : List Nat := []
  bufferedBytes : Nat := 0
  deriving DecidableEq, Repr

/-- The constructor: a peer-opened unidirectional stream has no send half, a self-opened
    one no receive half. -/
def WasmStream.new (conn : Nat) (bidi incoming : Bool) : WasmStream :=
  { conn, recvDone := !bidi && !incoming, sendDone := !bidi && incoming }

/-- `WasmSession`, as far as the manager reads it; `incomingQueue` holds the kinds of the
    streams no one has taken yet. -/
structure WasmSession where
  datagramCb : Option Bool := none
  datagramQueuedBytes : Nat := 0
  incomingCb : Bool := false
  incomingQueue : List Bool := []
  deriving DecidableEq, Repr

/-- The payloads adopted from Rust, and their totals. -/
structure HostBooks where
  hostReservations : Map Nat HostReservation := ∅
  nextReservation : Nat := 0
  hostQueuedBytesGlobal : Nat := 0
  hostQueuedBytesPerSession : Map Nat Nat := ∅
  hostQueuedBytesPerStream : Map Nat Nat := ∅

structure Manager extends HostBooks where
  limits : ManagerLimits := {}
  sessions : Map (Nat × SessionId) WasmSession := ∅
  streamSessionIds : Map Nat SessionId := ∅
  streams : Map Nat WasmStream := ∅
  /-- The calls of `endpoint.releaseHostReservation`, in order: the reservation that makes
      one, unless it is made with the raw token, and the token. -/
  released : List (Option Nat × Nat) := []

namespace Manager

/-! ## Reservations -/

/-- The charge of a payload: a bare FIN is free, anything else counts at least one byte. -/
def accountedBytes (length : Nat) (fin : Bool) : Nat :=
  if fin && length = 0 then 0 else max 1 length

/-- What a buffered payload counts against its stream. -/
def accountedReservationBytes (length bytes : Nat) (fin : Bool) : Nat :=
  if fin && length = 0 then bytes else max 1 bytes

section

variable (m : Manager)

def releaseToken (token : Nat) : Manager :=
  { m with released := m.released ++ [(none, token)] }

/-- `_adoptHostReservation`; a refused payload's token goes back to Rust. -/
def adoptHostReservation (conn : Nat) (stream : Option Nat) (token length : Nat)
    (fin : Bool) (sessionId : Option SessionId) : Option Nat × Manager :=
  let accounted := accountedBytes length fin
  let nextGlobal := m.hostQueuedBytesGlobal + accounted
  let nextSession := m.hostQueuedBytesPerSession.count conn + accounted
  let nextStream := fun hd => m.hostQueuedBytesPerStream.count hd + accounted
  if m.limits.maxQueuedBytesGlobal < nextGlobal ∨
      m.limits.maxQueuedBytesPerSession < nextSession ∨
      ∃ hd ∈ stream, m.limits.maxQueuedBytesPerStream < nextStream hd then
    (none, m.releaseToken token)
  else
    (some m.nextReservation, { m with
      hostReservations := m.hostReservations.insert m.nextReservation
        ⟨conn, stream, token, accounted, sessionId⟩
      nextReservation := m.nextReservation + 1
      hostQueuedBytesGlobal := nextGlobal
      hostQueuedBytesPerSession := m.hostQueuedBytesPerSession.insert conn nextSession
      hostQueuedBytesPerStream :=
        match stream with
        | none => m.hostQueuedBytesPerStream
        | some hd => m.hostQueuedBytesPerStream.insert hd (nextStream hd) })

/-- `ManagerHostReservation.release` with `_releaseHostReservation`: only the first one
    has an effect.  `_decrementHostBytes` is `Map.lower`. -/
def release (id : Nat) : Manager :=
  match m.hostReservations.get? id with
  | none => m
  | some r => { m with
      hostReservations := m.hostReservations.erase id
      hostQueuedBytesGlobal := m.hostQueuedBytesGlobal - r.bytes
      hostQueuedBytesPerSession := m.hostQueuedBytesPerSession.lower r.conn r.bytes
      hostQueuedBytesPerStream :=
        match r.stream with
        | none => m.hostQueuedBytesPerStream
        | some hd => m.hostQueuedBytesPerStream.lower hd r.bytes
      released := m.released ++ [(some id, r.token)] }

def releaseAll (ids : List Nat) : Manager := ids.foldl release m

def reservationsWith (p : HostReservation → Bool) : List Nat :=
  (m.hostReservations.filter fun _ r => p r).keys

def releaseConnectionHostReservations (conn : Nat) : Manager :=
  m.releaseAll (m.reservationsWith fun r => r.conn = conn)

def reservationBelongsTo (r : HostReservation) (conn : Nat) (sid : SessionId) :
    Bool :=
  r.conn = conn && match r.stream with
    | some hd => m.streamSessionIds.get? hd = some sid
    | none =>
      match r.sessionId with
      | some owner => owner = sid
      | none => !m.sessions.keys.any fun key => key.1 = conn && key.2 ≠ sid

def releaseSessionHostReservations (conn : Nat) (sid : SessionId) : Manager :=
  m.releaseAll (m.reservationsWith fun r => m.reservationBelongsTo r conn sid)

end

/-! ## Streams -/

section

variable (m : Manager)

def releaseStream (hd : Nat) : Manager :=
  { m with streams := m.streams.erase hd, streamSessionIds := m.streamSessionIds.erase hd }

def updateStream (hd : Nat) (f : WasmStream → WasmStream) : Manager :=
  { m with streams := m.streams.modify hd f }

def maybeRelease (hd : Nat) : Manager :=
  match m.streams.get? hd with
  | some ws => if ws.recvDone && ws.sendDone then m.releaseStream hd else m
  | none => m

def dropRetained (hd : Nat) : Manager :=
  match m.streams.get? hd with
  | some ws => (m.releaseAll ws.buffered).updateStream hd fun ws =>
    { ws with buffered := [], bufferedBytes := 0 }
  | none => m

/-- The end of a send half: `finish`, `reset` and, from the peer, `_pushStopped`. -/
def endSend (hd : Nat) : Manager :=
  (m.updateStream hd fun ws => { ws with sendDone := true }).maybeRelease hd

/-- The end of a receive half that keeps what is buffered, by a FIN. -/
def endRecv (hd : Nat) : Manager :=
  (m.updateStream hd fun ws => { ws with recvDone := true }).maybeRelease hd

/-- `stop`: what is buffered is dropped. -/
def dropRecv (hd : Nat) : Manager := (m.dropRetained hd).endRecv hd

end

/-! ## Callbacks -/

/-- What user code does to the manager's objects.  A subscription takes what is buffered;
    the deliveries that follow are acts of their own. -/
inductive Act
  | endSend (stream : Nat)
  | stop (stream : Nat)
  | onData (stream : Nat) (retains : Bool)
  | onDatagram (conn sid : Nat) (retains : Bool)
  | onIncomingStream (conn sid : Nat)
  | release (id : Nat)
  deriving DecidableEq, Repr

structure Callback where
  acts : List Act := []
  throws : Bool := false
  deriving DecidableEq, Repr

/-- What a handler may call: the subscriber of the event, the reset callback of a stream, and
    the `onCallbackError` hook. -/
structure App where
  subscriber : Callback := {}
  reset : Callback := {}
  hook : Callback := {}
  deriving DecidableEq, Repr

section

variable (m : Manager)

def updateSession (conn sid : Nat) (f : WasmSession → WasmSession) : Manager :=
  { m with sessions := m.sessions.modify (conn, some sid) f }

def act : Act → Manager
  | .endSend stream => m.endSend stream
  | .stop stream => m.dropRecv stream
  | .onData stream retains => m.updateStream stream fun ws =>
    { ws with dataCb := some retains, buffered := [], bufferedBytes := 0 }
  | .onDatagram conn sid retains => m.updateSession conn sid fun s =>
    { s with datagramCb := some retains, datagramQueuedBytes := 0 }
  | .onIncomingStream conn sid => m.updateSession conn sid fun s =>
    { s with incomingCb := true, incomingQueue := [] }
  | .release id => m.release id

def acts (as : List Act) : Manager := as.foldl act m

/-- `_deliverData` and `_deliverDatagram`, with whether the callback threw: it keeps the
    reservation if it subscribed to retain it and does not throw. -/
def deliver (id : Nat) (retains : Bool) (cb : Callback) : Manager × Bool :=
  let m := m.acts cb.acts
  (if retains && !cb.throws then m else m.release id, cb.throws)

/-- Run a callback and, unless it throws, go on. -/
def thenUnless (cb : Callback) (next : Manager → Manager × Bool) : Manager × Bool :=
  if cb.throws then (m.acts cb.acts, true) else next (m.acts cb.acts)

/-- `_failInboundPressure`, with whether the reset callback threw. -/
def failInboundPressure (hd : Nat) (reset : Callback) : Manager × Bool :=
  match m.streams.get? hd with
  | some ws =>
    if ws.recvDone then (m, false)
    else (m.updateStream hd fun ws => { ws with recvDone := true }).thenUnless reset fun m =>
      (m.maybeRelease hd, false)
  | none => (m, false)

/-- `_pushData`, with the payload's length and reservation. -/
def pushData (hd : Nat) (ws : WasmStream) (length : Nat) (fin : Bool) (id bytes : Nat)
    (app : App) : Manager × Bool :=
  match ws.dataCb with
  | some retains =>
    let (m, threw) := m.deliver id retains app.subscriber
    (if fin then m.endRecv hd else m, threw)
  | none =>
    let nextBytes := ws.bufferedBytes + accountedReservationBytes length bytes fin
    if m.limits.maxQueuedBytesPerStream < nextBytes then
      (m.release id).thenUnless app.hook (·.failInboundPressure hd app.reset)
    else
      let m := m.updateStream hd fun ws =>
        { ws with buffered := ws.buffered ++ [id], bufferedBytes := nextBytes }
      (if fin then m.endRecv hd else m, false)

/-- `_closeFromConnection`, with whether the reset callback of a live receive half threw. -/
def closeFromConnection (hd : Nat) (ws : WasmStream) (reset : Callback) : Manager × Bool :=
  let m := m.dropRetained hd
  if ws.recvDone then (m.releaseStream hd, false)
  else (m.updateStream hd fun ws => { ws with recvDone := true }).thenUnless reset fun m =>
    (m.releaseStream hd, false)

/-- A turn of the loops that close streams, with whether it ends the loop: what the reset
    callback throws goes to the hook, and what the hook throws leaves the loop. -/
def closeStream (hd : Nat) (ws : WasmStream) (app : App) : Manager × Bool :=
  let (m, threw) := m.closeFromConnection hd ws app.reset
  if threw then m.thenUnless app.hook fun m => (m.releaseStream hd, false)
  else (m.releaseStream hd, false)

end

/-- The turns of a loop over stream handles, up to the one that ends it. -/
def closeLoop (turn : Manager → Nat → Manager × Bool) : List Nat → Manager → Manager × Bool
  | [], m => (m, false)
  | hd :: hds, m =>
    match turn m hd with
    | (m, true) => (m, true)
    | (m, false) => closeLoop turn hds m

/-! ## Events -/

/-- The events, with the callbacks that their handlers meet; where a handler goes through
    streams, by the stream. -/
inductive Event
  | established (conn sid : Nat)
  | datagram (conn sid length token : Nat) (app : App := {})
  | closed (conn : Nat) (apps : List (Nat × App) := [])
  | sessionClosed (conn sid : Nat) (apps : List (Nat × App) := [])
  | streamOpened (conn sid stream : Nat) (bidi : Bool)
  | streamData (conn stream length : Nat) (fin : Bool) (token : Nat) (app : App := {})
  | streamReset (stream : Nat) (cb : Callback := {})
  | streamStopped (stream : Nat) (cb : Callback := {})
  deriving DecidableEq, Repr

section

variable (m : Manager)

def ensureSession (conn : Nat) (sid : SessionId) : Manager :=
  if m.sessions.contains (conn, sid) then m
  else { m with sessions := m.sessions.insert (conn, sid) {} }

def deleteSession (conn : Nat) (sid : SessionId) : Manager :=
  { m with sessions := m.sessions.erase (conn, sid) }

def onEstablished (conn sid : Nat) : Manager :=
  match m.sessions.get? (conn, none) with
  | some pending => { m with
      sessions := (m.sessions.erase (conn, none)).insert (conn, some sid) pending }
  | none => m.ensureSession conn (some sid)

/-- `_closeSessionForInboundPressure`; the connection is closed in Rust. -/
def closeSessionForInboundPressure (conn sid : Nat) : Manager :=
  (m.deleteSession conn (some sid)).releaseConnectionHostReservations conn

def onDatagram (conn sid length token : Nat) (app : App) : Manager × Bool :=
  match m.adoptHostReservation conn none token length false (some (some sid)) with
  | (none, m) => m.thenUnless app.hook fun m => (m.closeSessionForInboundPressure conn sid, false)
  | (some id, m) =>
    match m.sessions.get? (conn, some sid) with
    | none => (m.release id, false)
    | some s =>
      match s.datagramCb with
      | some retains => m.deliver id retains app.subscriber
      | none =>
        let nextBytes := s.datagramQueuedBytes +
          accountedReservationBytes length (accountedBytes length false) false
        if m.limits.maxQueuedBytesPerSession < nextBytes then
          (m.release id).thenUnless app.hook fun m =>
            (m.closeSessionForInboundPressure conn sid, false)
        else
          (m.updateSession conn sid fun s => { s with datagramQueuedBytes := nextBytes }, false)

/-- The handles a loop over a map visits. -/
def streamsOf (conn : Nat) : List Nat :=
  (m.streams.filter fun _ ws => ws.conn = conn).keys

end

section

variable (apps : List (Nat × App)) (m : Manager) (hd : Nat)

/-- A turn of the loop of `onClosed`; a stream that a callback has released is not visited. -/
def closeConnStream : Manager × Bool :=
  match m.streams.get? hd with
  | some ws => m.closeStream hd ws ((apps.lookup hd).getD {})
  | none => (m, false)

/-- A turn of the loop of `onSessionClosed` over `streamSessionIds`: the entry goes whether
    or not the stream is one of the connection. -/
def closeSessionStream (conn : Nat) : Manager × Bool :=
  let unmapped := ({ m with streamSessionIds := m.streamSessionIds.erase hd }, false)
  match m.streams.get? hd with
  | some ws => if ws.conn = conn then m.closeStream hd ws ((apps.lookup hd).getD {}) else unmapped
  | none => unmapped

end

section

variable (m : Manager)

def onClosed (conn : Nat) (apps : List (Nat × App)) : Manager × Bool :=
  let m := { m with sessions := m.sessions.filter fun key _ => key.1 ≠ conn }
  let m := m.releaseConnectionHostReservations conn
  closeLoop (closeConnStream apps) (m.streamsOf conn) m

def onSessionClosed (conn sid : Nat) (apps : List (Nat × App)) : Manager × Bool :=
  let m := (m.deleteSession conn (some sid)).releaseSessionHostReservations conn (some sid)
  closeLoop (closeSessionStream apps · · conn)
    (m.streamSessionIds.filter fun _ owner => owner = some sid).keys m

/-- `_pushIncomingStream`: with no subscriber and a full queue the stream is turned away. -/
def pushIncomingStream (conn sid hd : Nat) (bidi : Bool) : Manager :=
  match m.sessions.get? (conn, some sid) with
  | none => m
  | some s =>
    let limit := if bidi then m.limits.maxStreamsPerSessionBidi
      else m.limits.maxStreamsPerSessionUni
    if s.incomingCb then m
    else if limit ≤ (s.incomingQueue.filter (· == bidi)).length then
      let m := m.dropRecv hd
      if bidi then m.endSend hd else m
    else m.updateSession conn sid fun s => { s with incomingQueue := s.incomingQueue ++ [bidi] }

def register (conn : Nat) (sid : SessionId) (hd : Nat) (bidi incoming : Bool) :
    Manager :=
  { m with
    streams := m.streams.insert hd (.new conn bidi incoming)
    streamSessionIds := m.streamSessionIds.insert hd sid }

def onStreamOpened (conn sid hd : Nat) (bidi : Bool) : Manager :=
  ((m.ensureSession conn (some sid)).register conn (some sid) hd bidi true).pushIncomingStream
    conn sid hd bidi

def onStreamData (conn hd length : Nat) (fin : Bool) (token : Nat) (app : App) :
    Manager × Bool :=
  match m.adoptHostReservation conn (some hd) token length fin none with
  | (none, m) => m.thenUnless app.hook (·.failInboundPressure hd app.reset)
  | (some id, m) =>
    match m.streams.get? hd with
    | some ws => m.pushData hd ws length fin id (accountedBytes length fin) app
    | none => (m.release id, false)

/-- `_pushReset` and `_pushStopped`: a callback that throws skips the end of the half. -/
def onStreamReset (hd : Nat) (cb : Callback) : Manager × Bool :=
  (m.dropRetained hd).thenUnless cb fun m => (m.endRecv hd, false)

def onStreamStopped (hd : Nat) (cb : Callback) : Manager × Bool :=
  m.thenUnless cb fun m => (m.endSend hd, false)

/-- The handlers of the manager, with whether one threw. -/
def handle : Event → Manager × Bool
  | .established conn sid => (m.onEstablished conn sid, false)
  | .datagram conn sid length token app => m.onDatagram conn sid length token app
  | .closed conn apps => m.onClosed conn apps
  | .sessionClosed conn sid apps => m.onSessionClosed conn sid apps
  | .streamOpened conn sid stream bidi => (m.onStreamOpened conn sid stream bidi, false)
  | .streamData conn stream length fin token app => m.onStreamData conn stream length fin token app
  | .streamReset stream cb => m.onStreamReset stream cb
  | .streamStopped stream cb => m.onStreamStopped stream cb

end

def Event.hostToken : Event → Option Nat
  | .datagram _ _ _ token _ | .streamData _ _ _ _ token _ => some token
  | _ => none

/-- `dispatchDecodedWasmEvent`: its catch blocks release the raw token. -/
def dispatch (m : Manager) (ev : Event) : Manager :=
  let (m, threw) := m.handle ev
  match threw, ev.hostToken with
  | true, some token => m.releaseToken token
  | _, _ => m

/-! ## Calls -/

/-- What happens to a manager.  `openStream` and `connectClient` list the events that the
    pump inside the endpoint call dispatches before the object is registered. -/
inductive Call
  | event (ev : Event)
  | openStream (conn : Nat) (sid : SessionId) (stream : Nat) (bidi : Bool)
      (dispatched : List Event)
  | connectClient (conn : Nat) (dispatched : List Event)
  | act (a : Act)
  deriving DecidableEq, Repr

def dispatchAll (m : Manager) (evs : List Event) : Manager := evs.foldl dispatch m

def perform (m : Manager) : Call → Manager
  | .event ev => m.dispatch ev
  | .openStream conn sid stream bidi dispatched =>
    (m.dispatchAll dispatched).register conn sid stream bidi false
  | .connectClient conn dispatched => (m.dispatchAll dispatched).ensureSession conn none
  | .act a => m.act a

end Manager

end WebTransportBun.Facade
