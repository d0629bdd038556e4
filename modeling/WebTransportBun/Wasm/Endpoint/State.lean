/-
  WebTransportBun.Wasm.Endpoint.State

  The state of `WtEndpoint` (`crates/wasm/src/endpoint.rs`) and its pure updates.

  `conns`, `sessions` and `handle_to_id` are keyed by the connection handle, filled
  together when a connection is registered and emptied together in
  `cleanup_connection`, so they are one table here; `Registry` holds it with
  `id_to_handle` and carries that the two directions are inverse.  The state of a
  quinn-proto `Connection` is the environment's; `Connection` is what binds its answers.

  Left out: the TLS and ticket-store fields, `peer_addr` and `idle_timeout_ms`, which no
  modelled function reads, and `stateless_resp`, a scratch buffer.
-/

import WebTransportBun.Library.Prog
import WebTransportBun.Wasm.Endpoint.Outbox
import WebTransportBun.Wasm.Endpoint.Quinn
import WebTransportBun.Wasm.Qpack.Streams

namespace WebTransportBun.Wasm

open Library Qpack

/-! ## Sessions -/

structure InStream where
  kind : Option Nat := none
  isBidi : Bool
  sidRead : Bool := false
  wtSessionId : Option Nat := none
  handle : Option Nat := none
  connectAdmitted : Bool := false
  buf : Bytes := []
  deriving DecidableEq, Repr

/-- Client secondary CONNECT awaiting a 200 response. -/
structure PendingClientConnect where
  rx : Bytes := []
  deadline : Option Nat
  deriving DecidableEq, Repr

structure Session where
  authority : String := ""
  peerSettings : Option PeerSettings := none
  controlSendStream : Option Nat := none
  connectStream : Option Nat := none
  extraSessions : KeySet Nat := ∅
  pendingClientConnects : Map Nat PendingClientConnect := ∅
  connectSelfOpened : Bool := false
  established : Bool := false
  connectClosed : Bool := false
  connectDeadline : Option Nat
  connectRx : Bytes := []
  controlRx : Bytes := []
  qpackEncoderRx : Bytes := []
  qpackDecoderRx : Bytes := []
  qpackDecoderSend : Option Nat := none
  qpackEncoderSend : Option Nat := none
  qpackDecoder : QpackDecoder
  qpackEncoder : QpackEncoder
  qpackBlockedStreams : KeySet Nat := ∅
  pendingSectionRic : Map Nat Nat := ∅
  inStreams : Map Nat InStream := ∅
  /-- The buffered bytes of each `CapsuleAssembler`. -/
  capsules : Map Nat Bytes := ∅
  extraRx : Map Nat Bytes := ∅
  selfBidi : Map Nat Nat := ∅

namespace Session

/-- A session as `connect` and `recv` create it. -/
def new (authority : String) (settings : QpackLocalSettings) (deadline : Nat) : Session :=
  { authority
    connectDeadline := some deadline
    qpackDecoder := .new settings
    qpackEncoder := .new (encoderCapacity settings) }

section

variable (s : Session)

def primaryLive : Bool :=
  s.established && !s.connectClosed && s.connectStream.isSome

def activeWtCount : Nat :=
  (if s.primaryLive then 1 else 0) + s.extraSessions.size + s.pendingClientConnects.size

def isWtConnect (id : Nat) : Bool :=
  s.connectStream == some id || s.extraSessions.contains id

/-- `all_connect_streams`, with the set walked in the order of `extras`. -/
def allConnectStreams (extras : List Nat) : List Nat :=
  s.connectStream.toList ++ extras

/-- Whether `live_connect_streams` yields the id: a closed primary drops out. -/
def isLiveConnect (id : Nat) : Bool :=
  (!s.connectClosed && s.connectStream == some id) || s.extraSessions.contains id

/-- `resolve_wt_session`: the stream with this id among the CONNECT streams, established or
    pending. -/
def resolveWtSession (sessionId : Nat) : Option Nat :=
  if s.isWtConnect sessionId || s.pendingClientConnects.contains sessionId then some sessionId
  else none

/-- `session_for_qsid`: the first CONNECT stream of the quarter-session-id. -/
def sessionForQsid (extras : List Nat) (qsid : Nat) : Option Nat :=
  (s.allConnectStreams extras).find? fun sid => sid / 4 == qsid

def countUnlatchedConnectStreams : Nat :=
  (s.inStreams.keys.filter fun id => (s.inStreams.get? id).any fun st =>
    st.connectAdmitted && st.isBidi && st.kind == some FrameType.headers &&
      !s.isWtConnect id).length

end

end Session

/-! ## Connections -/

structure Entry where
  id : Nat
  conn : Connection
  session : Session

structure Registry where
  entries : Map Nat Entry
  idToHandle : Map Nat Nat
  nextId : Nat
  inverse : ∀ h id, (entries.get? h).map Entry.id = some id ↔ idToHandle.get? id = some h
  below : ∀ id h, idToHandle.get? id = some h → id < nextId

namespace Registry

def empty : Registry :=
  { entries := ∅, idToHandle := ∅, nextId := 1, inverse := by simp, below := by simp }

section

variable (r : Registry)

def handleToId (h : Nat) : Option Nat := (r.entries.get? h).map Entry.id

def conn (h : Nat) : Option Connection := (r.entries.get? h).map Entry.conn

def session (h : Nat) : Option Session := (r.entries.get? h).map Entry.session

def handles : List Nat := r.entries.keys

/-- Rewrite the entry of a handle, except for its id. -/
def update (h : Nat) (f : Connection → Connection) (g : Session → Session) :
    Registry :=
  { r with
    entries := r.entries.modify h fun e => { e with conn := f e.conn, session := g e.session }
    inverse := by
      intro h' id
      rw [← r.inverse h' id, Map.get?_modify]
      split
      · cases r.entries.get? h' <;> simp
      · rfl }

/-- `register`, with the connection and the session that are stored right after it. -/
def register (h : Nat) (hfresh : h ∉ r.handles) (conn : Connection)
    (session : Session) : Except String (Nat × Registry) :=
  if 2 ^ 32 ≤ r.nextId + 1 then .error "E_LIMIT_EXCEEDED: connection id space exhausted"
  else .ok (r.nextId,
    { entries := r.entries.insert h ⟨r.nextId, conn, session⟩
      idToHandle := r.idToHandle.insert r.nextId h
      nextId := r.nextId + 1
      inverse := by
        intro h' id
        have hnone : r.entries.get? h = none := by
          cases hget : r.entries.get? h with
          | none => rfl
          | some e => exact absurd (Map.mem_keys.mpr ⟨e, hget⟩) hfresh
        have hold := r.inverse h' id
        have hbelow := r.below id h'
        have hself := r.inverse h id
        rw [hnone] at hself
        simp only [Map.get?_insert]
        grind
      below := by
        intro id h'
        have hbelow := r.below id h'
        simp only [Map.get?_insert]
        split <;> grind })

/-- The removal of a handle from all tables in `cleanup_connection`. -/
def remove (h : Nat) : Registry :=
  match hget : r.entries.get? h with
  | none => r
  | some e =>
    { r with
      entries := r.entries.erase h
      idToHandle := r.idToHandle.erase e.id
      inverse := by
        intro h' id
        have hold := r.inverse h' id
        have he := r.inverse h e.id
        rw [hget] at he
        simp only [Map.get?_erase]
        grind
      below := by
        intro id h'
        have hbelow := r.below id h'
        simp only [Map.get?_erase]
        split <;> simp_all }

end

theorem register_eq_ok {r registry : Registry} {h id : Nat} {hfresh : h ∉ r.handles}
    {conn : Connection} {session : Session}
    (hregister : r.register h hfresh conn session = .ok (id, registry)) :
    id = r.nextId ∧ registry.entries = r.entries.insert h ⟨r.nextId, conn, session⟩ ∧
      registry.idToHandle = r.idToHandle.insert r.nextId h ∧ registry.nextId = r.nextId + 1 := by
  unfold register at hregister
  split at hregister
  · cases hregister
  · cases hregister
    exact ⟨rfl, rfl, rfl, rfl⟩

theorem remove_eq (r : Registry) (h : Nat) : (r.remove h).nextId = r.nextId ∧
    ∀ h', (r.remove h).entries.get? h' = if h' = h then none else r.entries.get? h' := by
  unfold remove
  split
  · next hnone =>
    refine ⟨rfl, fun h' => ?_⟩
    split
    · next heq => rw [heq, hnone]
    · rfl
  · exact ⟨rfl, fun h' => Map.get?_erase ..⟩

end Registry

/-- `CapacityWaitQueue`.  The set `present` of the source mirrors `order`; membership in
    `order` is asked instead. -/
structure CapacityWaitQueue where
  order : List Nat := []
  nodup : order.Nodup := by simp

namespace CapacityWaitQueue

def enqueue (q : CapacityWaitQueue) (conn : Nat) : CapacityWaitQueue :=
  if h : conn ∈ q.order then q
  else
    { order := q.order ++ [conn]
      nodup := List.nodup_append.mpr ⟨q.nodup, by simp, by grind⟩ }

def popFront (q : CapacityWaitQueue) : Option (Nat × CapacityWaitQueue) :=
  match h : q.order with
  | [] => none
  | conn :: rest => some (conn, ⟨rest, by
      have := q.nodup
      rw [h] at this
      exact this.of_cons⟩)

end CapacityWaitQueue

/-! ## The endpoint -/

structure WtEndpoint (W : Type) where
  world : W
  isServer : Bool
  registry : Registry
  box : Outbox
  streamIndex : Map Nat (Nat × Nat)
  revIndex : Map (Nat × Nat) Nat
  streamSessions : Map Nat Nat
  paused : KeySet Nat
  halfDone : Map Nat Nat
  nextStream : Nat
  endpointTx : List (Bytes × SocketAddr)
  rateLimiter : PeerRateLimiter
  handshakeReservations : Map Nat Slot
  sessionReservations : Map Nat Slot
  streamReservations : Map Nat Slot
  capacityWaiters : CapacityWaitQueue
  handshakeTimeoutMs : Nat
  wtMaxSessions : Nat
  enable0rtt : Bool
  nstFlushRemaining : Map Nat Nat
  sessionClosedCount : Nat
  qpackSettings : QpackLocalSettings
  lastError : Option String

def halfRecv : Nat := 1

def halfSend : Nat := 2

def wtMaxSessionsDefault : Nat := 2

def clampWtMaxSessions (value : Nat) : Nat := min (max value 1) 256

namespace WtEndpoint

variable {W : Type}

/-- The state `build` sets up. -/
def new (world : W) (isServer enable0rtt : Bool) (limits : WasmLimits)
    (rateLimits : WasmRateLimits) : Except String (WtEndpoint W) := do
  let box ← Outbox.new limits
  let rateLimiter ← PeerRateLimiter.new rateLimits limits
  return {
    world, isServer, box, rateLimiter, enable0rtt
    registry := .empty
    streamIndex := ∅
    revIndex := ∅
    streamSessions := ∅
    paused := ∅
    halfDone := ∅
    nextStream := 1
    endpointTx := []
    handshakeReservations := ∅
    sessionReservations := ∅
    streamReservations := ∅
    capacityWaiters := {}
    handshakeTimeoutMs := limits.handshakeTimeoutMs.toNat
    wtMaxSessions := wtMaxSessionsDefault
    nstFlushRemaining := ∅
    sessionClosedCount := 0
    qpackSettings := .disabled
    lastError := none }

section

variable (s : WtEndpoint W)

def setLastError (error : String) : WtEndpoint W :=
  { s with lastError := some error }

/-- Rewrite what quinn-proto is known to have done on a connection. -/
def updConn (h : Nat) (f : Connection → Connection) : WtEndpoint W :=
  { s with registry := s.registry.update h f id }

def updSession (h : Nat) (f : Session → Session) : WtEndpoint W :=
  { s with registry := s.registry.update h id f }

def updInStream (h id : Nat) (f : InStream → InStream) : WtEndpoint W :=
  s.updSession h fun x => { x with inStreams := x.inStreams.modify id f }

def inStream (h id : Nat) : Option InStream :=
  (s.registry.session h).bind fun x => x.inStreams.get? id

def noteAt (h : Nat) (n : Nat → Note) : WtEndpoint W :=
  match s.registry.handleToId h with
  | none => s
  | some conn => { s with box := s.box.note (n conn) }

end

/-! ## Events -/

section

variable (s : WtEndpoint W)

def tryPushEvent (ev : WtEvent) : Except String Unit × WtEndpoint W :=
  ((s.box.tryPush ev).1, { s with box := (s.box.tryPush ev).2 })

def pushEvent (ev : WtEvent) : WtEndpoint W :=
  match s.tryPushEvent ev with
  | (.ok (), s) => s
  | (.error e, s) => s.setLastError e

def pushSessionClosed (conn sessionId code : Nat) (reason : String) :
    WtEndpoint W :=
  { s with sessionClosedCount := min (s.sessionClosedCount + 1) (2 ^ 64 - 1) }.pushEvent
    (.sessionClosed conn sessionId code reason)

def hasEventSlotCapacity (slots : Nat) : Bool :=
  s.box.events.length + slots ≤ maxPendingEvents

end

/-! ## Capacity -/

section

variable (s : WtEndpoint W)

def releaseSlot : Option Slot → WtEndpoint W
  | none => s
  | some slot => { s with box := s.box.release slot }

def dropHandshakeReservation (h : Nat) : WtEndpoint W :=
  { s with handshakeReservations := s.handshakeReservations.erase h }.releaseSlot
    (s.handshakeReservations.get? h)

def dropSessionReservation (h : Nat) : WtEndpoint W :=
  { s with sessionReservations := s.sessionReservations.erase h }.releaseSlot
    (s.sessionReservations.get? h)

def dropStreamReservation (stream : Nat) : WtEndpoint W :=
  { s with streamReservations := s.streamReservations.erase stream }.releaseSlot
    (s.streamReservations.get? stream)

def enqueueCapacityWaiter (h : Nat) : WtEndpoint W :=
  match s.registry.handleToId h with
  | none => s
  | some conn => { s with capacityWaiters := s.capacityWaiters.enqueue conn }

/-- A read of the source is given up until capacity is freed. -/
def holdBack (h : Nat) (src : Source) : WtEndpoint W :=
  (s.enqueueCapacityWaiter h).noteAt h (.held · src)

/-- The handles of the connection's streams, as `stream_index.iter().filter(..)` finds them
    before the table's order is applied. -/
def streamHandlesOf (h : Nat) : List Nat :=
  s.streamIndex.keys.filter fun handle => (s.streamIndex.get? handle).any (·.1 == h)

def releaseConnectionBudget (h : Nat) : WtEndpoint W :=
  (s.streamHandlesOf h).foldl dropStreamReservation
    ((s.dropHandshakeReservation h).dropSessionReservation h)

end

/-! ## Stream tables -/

section

variable (s : WtEndpoint W)

def indexInsert (handle h sid sessionId : Nat) : WtEndpoint W :=
  { s with
    streamIndex := s.streamIndex.insert handle (h, sid)
    revIndex := s.revIndex.insert (h, sid) handle
    streamSessions := s.streamSessions.insert handle sessionId }

def indexRemove (handle : Nat) : WtEndpoint W :=
  match s.streamIndex.get? handle with
  | none => { s with streamSessions := s.streamSessions.erase handle }
  | some (h, sid) =>
    { s with
      streamIndex := s.streamIndex.erase handle
      revIndex := s.revIndex.erase (h, sid)
      streamSessions := s.streamSessions.erase handle }

def unpause (handle : Nat) : WtEndpoint W :=
  { s with paused := s.paused.erase handle }

def markStreamHalfDone (handle bit : Nat) : WtEndpoint W :=
  let bits := (s.halfDone.get? handle).getD 0 ||| bit
  if bits = halfRecv ||| halfSend then
    (({ s with halfDone := s.halfDone.erase handle }.indexRemove handle).unpause
      handle).dropStreamReservation handle
  else { s with halfDone := s.halfDone.insert handle bits }

def retireInStream (h id : Nat) : WtEndpoint W :=
  match s.inStream h id with
  | none => s
  | some st =>
    let s := s.updSession h fun x => { x with inStreams := x.inStreams.erase id }
    match st.handle with
    | none => s
    | some handle => (s.unpause handle).markStreamHalfDone handle halfRecv

def streamHandleFor (h id : Nat) : Option Nat :=
  ((s.inStream h id).bind InStream.handle <|>
    (s.registry.session h).bind fun x => x.selfBidi.get? id) <|> s.revIndex.get? (h, id)

def emitStreamReset (h id code : Nat) : WtEndpoint W :=
  match s.streamHandleFor h id, s.registry.handleToId h with
  | some stream, some conn => s.pushEvent (.streamReset conn stream code)
  | _, _ => s

def onStreamStopped (h id code : Nat) : WtEndpoint W :=
  match s.streamHandleFor h id, s.registry.handleToId h with
  | some stream, some conn =>
    (s.pushEvent (.streamStopped conn stream code)).markStreamHalfDone stream halfSend
  | _, _ => s

/-- The stream tables of one handle of a lost connection.  `stream_sessions` keeps its
    entry. -/
def forgetStream (handle : Nat) : WtEndpoint W :=
  match s.streamIndex.get? handle with
  | none => s
  | some (h, sid) =>
    { s.unpause handle with
      halfDone := s.halfDone.erase handle
      revIndex := s.revIndex.erase (h, sid)
      streamIndex := s.streamIndex.erase handle }.dropStreamReservation handle

end

end WtEndpoint

/-! ## The tables keyed by stream handles -/

structure StreamTables where
  index : Map Nat (Nat × Nat)
  rev : Map (Nat × Nat) Nat
  sessions : Map Nat Nat
  half : Map Nat Nat
  paused : KeySet Nat
  reservations : Map Nat Slot
  next : Nat

def streamTables {W : Type} (s : WtEndpoint W) : StreamTables where
  index := s.streamIndex
  rev := s.revIndex
  sessions := s.streamSessions
  half := s.halfDone
  paused := s.paused
  reservations := s.streamReservations
  next := s.nextStream

def StreamTables.empty : StreamTables :=
  { index := ∅, rev := ∅, sessions := ∅, half := ∅, paused := ∅, reservations := ∅, next := 1 }

end WebTransportBun.Wasm
