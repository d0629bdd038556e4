/-
  WebTransportBun.Wasm.Governor

  The admission governor of the wasm endpoint (`crates/wasm/src/governor.rs`): count
  and byte limits on handshakes, sessions, streams and queued event bytes, handed out
  as reservations that give their share back when they are dropped.

  A `Reservation` of the source is its `ReservationKind` here.  `Reservation::new`
  is the only constructor outside the tests, it fills both options, and both are
  emptied only while the value is consumed, so the kind is all a live reservation
  carries; dropping one is `releaseKind`.
-/

import WebTransportBun.Library.Map
import WebTransportBun.Wasm.Limits

namespace WebTransportBun.Wasm

open Library

inductive StreamKind
  | bidi
  | uni
  deriving DecidableEq, Repr

inductive ReservationKind
  | handshake
  | session (conn : Nat)
  | stream (conn : Nat) (kind : StreamKind)
  | queuedBytes (conn : Nat) (stream : Option Nat) (bytes : Nat)
  deriving DecidableEq, Repr

/-- A payload reservation owned by the host; the token itself is the map key. -/
structure HostToken where
  kind : ReservationKind
  deriving DecidableEq, Repr

structure GovernorInner where
  limits : WasmLimits
  sessionsActive : Nat := 0
  handshakesInFlight : Nat := 0
  streamsActiveGlobal : Nat := 0
  streamsBidiPerSession : Map Nat Nat := ∅
  streamsUniPerSession : Map Nat Nat := ∅
  queuedBytesGlobal : Nat := 0
  queuedBytesPerSession : Map Nat Nat := ∅
  queuedBytesPerStream : Map (Nat × Nat) Nat := ∅
  nextHostToken : Nat := 1
  hostTokenCeiling : Nat := 2 ^ 32 - 1
  hostTokens : Map Nat HostToken := ∅

def checkedAdd (a b : Nat) : Option Nat :=
  if a + b ≤ usizeMax then some (a + b) else none

namespace GovernorInner

def new (limits : WasmLimits) : Except String GovernorInner := do
  limits.validate
  return { limits }

theorem eq_of_new {limits : WasmLimits} {gov : GovernorInner} (h : new limits = .ok gov) :
    limits.validate = .ok () ∧ gov = { limits } := by
  obtain ⟨_, hvalid, h⟩ := bind_eq_ok h
  cases h
  exact ⟨hvalid, rfl⟩

/-! ## Reserving

Each operation returns the reservation with the new state.  A refused reservation
changes nothing, so the error carries no state. -/

section

variable (g : GovernorInner)

def reserveHandshake : Except String (ReservationKind × GovernorInner) :=
  if g.limits.maxHandshakesInFlight.toNat ≤ g.handshakesInFlight then
    .error "E_LIMIT_EXCEEDED: maxHandshakesInFlight reached"
  else
    .ok (.handshake, { g with handshakesInFlight := g.handshakesInFlight + 1 })

def reserveSession (conn : Nat) :
    Except String (ReservationKind × GovernorInner) :=
  if g.limits.maxSessions.toNat ≤ g.sessionsActive then
    .error "E_LIMIT_EXCEEDED: maxSessions reached"
  else
    .ok (.session conn, { g with sessionsActive := g.sessionsActive + 1 })

def streamsPerSession : StreamKind → Map Nat Nat
  | .bidi => g.streamsBidiPerSession
  | .uni => g.streamsUniPerSession

def setStreamsPerSession (kind : StreamKind) (m : Map Nat Nat) :
    GovernorInner :=
  match kind with
  | .bidi => { g with streamsBidiPerSession := m }
  | .uni => { g with streamsUniPerSession := m }

end

def perSessionLimit (l : WasmLimits) : StreamKind → Nat
  | .bidi => l.maxStreamsPerSessionBidi.toNat
  | .uni => l.maxStreamsPerSessionUni.toNat

def perSessionLimitName : StreamKind → String
  | .bidi => "maxStreamsPerSessionBidi"
  | .uni => "maxStreamsPerSessionUni"

def reserveStream (g : GovernorInner) (conn _stream : Nat) (kind : StreamKind) :
    Except String (ReservationKind × GovernorInner) :=
  if g.limits.maxStreamsGlobal.toNat ≤ g.streamsActiveGlobal then
    .error "E_LIMIT_EXCEEDED: maxStreamsGlobal reached"
  else
    let map := g.streamsPerSession kind
    let perSession := map.count conn
    if perSessionLimit g.limits kind ≤ perSession then
      .error s!"E_LIMIT_EXCEEDED: {perSessionLimitName kind} reached"
    else
      let g := g.setStreamsPerSession kind (map.insert conn (perSession + 1))
      .ok (.stream conn kind, { g with streamsActiveGlobal := g.streamsActiveGlobal + 1 })

/-- Admit `bytes` more against one byte counter, or name the limit that refuses. -/
def admitBytes (current bytes limit : Nat) (overflow reached : String) : Except String Nat :=
  match checkedAdd current bytes with
  | none => .error overflow
  | some next => if limit < next then .error reached else .ok next

/-- `Governor::reserve_event_bytes`: the global, the connection's and the stream's
    byte counter must all admit the bytes before any of them is changed. -/
def reserveEventBytes (g : GovernorInner) (conn : Nat) (stream : Option Nat) (bytes : Nat) :
    Except String (ReservationKind × GovernorInner) := do
  let nextGlobal ← admitBytes g.queuedBytesGlobal bytes g.limits.maxQueuedBytesGlobal.toNat
    "E_QUEUE_FULL: queued byte counter overflow"
    "E_QUEUE_FULL: maxQueuedBytesGlobal reached"
  let nextSession ← admitBytes (g.queuedBytesPerSession.count conn) bytes
    g.limits.maxQueuedBytesPerSession.toNat
    "E_QUEUE_FULL: session queued byte counter overflow"
    "E_QUEUE_FULL: maxQueuedBytesPerSession reached"
  let perStream ← match stream with
    | none => pure g.queuedBytesPerStream
    | some streamId => do
      let nextStream ← admitBytes (g.queuedBytesPerStream.count (conn, streamId)) bytes
        g.limits.maxQueuedBytesPerStream.toNat
        "E_QUEUE_FULL: stream queued byte counter overflow"
        "E_QUEUE_FULL: maxQueuedBytesPerStream reached"
      pure (g.queuedBytesPerStream.insert (conn, streamId) nextStream)
  return (.queuedBytes conn stream bytes,
    { g with
      queuedBytesPerStream := perStream
      queuedBytesGlobal := nextGlobal
      queuedBytesPerSession := g.queuedBytesPerSession.insert conn nextSession })

/-- `Governor::available_event_bytes`: what the three byte counters still admit. -/
def availableEventBytes (g : GovernorInner) (conn : Nat) (stream : Option Nat) : Nat :=
  let global := g.limits.maxQueuedBytesGlobal.toNat - g.queuedBytesGlobal
  let session := g.limits.maxQueuedBytesPerSession.toNat - g.queuedBytesPerSession.count conn
  let stream := match stream with
    | none => usizeMax
    | some s => g.limits.maxQueuedBytesPerStream.toNat - g.queuedBytesPerStream.count (conn, s)
  min (min global session) stream

/-! ## Releasing -/

/-- `GovernorInner::release_kind`.  Natural subtraction is `saturating_sub`;
    `decrement_map` and `decrement_bytes_map` are `Map.lower`. -/
def releaseKind (g : GovernorInner) : ReservationKind → GovernorInner
  | .handshake => { g with handshakesInFlight := g.handshakesInFlight - 1 }
  | .session _ => { g with sessionsActive := g.sessionsActive - 1 }
  | .stream conn kind =>
    let g := { g with streamsActiveGlobal := g.streamsActiveGlobal - 1 }
    g.setStreamsPerSession kind ((g.streamsPerSession kind).lower conn 1)
  | .queuedBytes conn stream bytes => { g with
      queuedBytesGlobal := g.queuedBytesGlobal - bytes
      queuedBytesPerSession := g.queuedBytesPerSession.lower conn bytes
      queuedBytesPerStream :=
        match stream with
        | none => g.queuedBytesPerStream
        | some streamId => g.queuedBytesPerStream.lower (conn, streamId) bytes }

def releaseKinds (g : GovernorInner) (kinds : List ReservationKind) : GovernorInner :=
  kinds.foldl releaseKind g

/-! ## Host tokens -/

/-- The candidate after `candidate` in the cycle `1 … ceiling`. -/
def nextCandidate (ceiling candidate : Nat) : Nat :=
  if ceiling ≤ candidate then 1 else candidate + 1

/-- The search loop of `allocate_host_token`.  Each round tries one candidate of the
    cycle, so `ceiling` rounds come back to `start`. -/
def allocateLoop (tokens : Map Nat HostToken) (ceiling start : Nat) :
    Nat → Nat → Except String Nat
  | 0, _ => .error "E_LIMIT_EXCEEDED: host reservation token space exhausted"
  | fuel + 1, candidate =>
    if tokens.contains candidate then
      let candidate := nextCandidate ceiling candidate
      if candidate = start then
        .error "E_LIMIT_EXCEEDED: host reservation token space exhausted"
      else allocateLoop tokens ceiling start fuel candidate
    else .ok candidate

section

variable (g : GovernorInner)

/-- `Governor::allocate_host_token`: the token, and the state with the search
    position moved behind it. -/
def allocateHostToken : Except String (Nat × GovernorInner) := do
  let ceiling := max g.hostTokenCeiling 1
  let start := min (max g.nextHostToken 1) ceiling
  let candidate ← allocateLoop g.hostTokens ceiling start ceiling start
  return (candidate, { g with nextHostToken := nextCandidate ceiling candidate })

/-- `Governor::transfer_to_host`: the reservation is consumed in every case.  A byte
    reservation moves under a host token; anything else, and a byte reservation
    for which no token is left, is released. -/
def transferToHost (reservation : ReservationKind) :
    Except String Nat × GovernorInner :=
  match reservation with
  | .queuedBytes .. =>
    match g.allocateHostToken with
    | .ok (token, g) =>
      (.ok token, { g with hostTokens := g.hostTokens.insert token ⟨reservation⟩ })
    | .error e => (.error e, g.releaseKind reservation)
  | other =>
    (.error "E_INTERNAL: only queued-byte reservations can transfer to host",
      g.releaseKind other)

/-- `Governor::release_host_token_with_context`: the queue the token freed. -/
def releaseHostTokenWithContext (token : Nat) :
    Option (Nat × Option Nat) × GovernorInner :=
  match g.hostTokens.get? token with
  | none => (none, g)
  | some host =>
    let context := match host.kind with
      | .queuedBytes conn stream _ => some (conn, stream)
      | _ => none
    (context, { g with hostTokens := g.hostTokens.erase token }.releaseKind host.kind)

def releaseHostToken (token : Nat) : Bool × GovernorInner :=
  let (context, g) := g.releaseHostTokenWithContext token
  (context.isSome, g)

/-- `Governor::release_all_host_tokens`, with the tokens taken in the order `order`
    in which the hash map happens to iterate. -/
def releaseAllHostTokens (order : List HostToken) : Nat × GovernorInner :=
  (g.hostTokens.size, { g with hostTokens := ∅ }.releaseKinds (order.map HostToken.kind))

end

end GovernorInner

end WebTransportBun.Wasm
