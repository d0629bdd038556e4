/-
  WebTransportBun.Wasm.Endpoint.Outbox

  The event queue of the endpoint with the governor that bounds it: the fields `events`,
  `event_reservations` and `governor` of `WtEndpoint` (`crates/wasm/src/endpoint.rs`).
  The three always change together, so they are one structure that carries what holds
  between them: one reservation slot per event, byte counters that are the exact total of
  the queued and the host-held reservations, and a queue that is what was accepted minus
  what was handed out.

  The structure also keeps the history the theorems speak about (`log`).  No function of
  the model reads it.
-/

import Mathlib.Data.List.ReduceOption
import WebTransportBun.Wasm.Capsule
import WebTransportBun.Wasm.Event
import WebTransportBun.Wasm.GovernorExact

namespace WebTransportBun.Wasm

open Library List GovernorInner Counter

/-! ## History -/

/-- What a connection can be held back from reading: its datagram queue, a stream accepted
    from the peer, or the peer's half of a stream opened here. -/
inductive Source
  | datagrams
  | accepted (sid : Nat)
  | opened (sid : Nat)
  deriving DecidableEq, Repr

/-- Things that happen besides queue traffic. -/
inductive Note
  /-- A WebTransport CONNECT was decoded on a request stream of the peer. -/
  | request (conn sid : Nat)
  /-- The stream became the connection's primary CONNECT stream. -/
  | primary (conn sid : Nat)
  /-- A capsule was popped from a CONNECT stream. -/
  | capsule (conn sid : Nat) (capsule : Capsule)
  /-- A QUIC datagram was received. -/
  | datagram (conn : Nat) (data : Bytes)
  /-- Bytes were consumed from a receive stream. -/
  | took (conn sid : Nat) (data : Bytes)
  /-- A stream handle was given to a QUIC stream, accepted from the peer or opened here. -/
  | bound (stream conn sid : Nat) (accepted : Bool)
  /-- The connection was closed while it stays registered. -/
  | fault (conn : Nat)
  /-- quinn-proto handed over a stream of the peer. -/
  | adopted (conn sid : Nat)
  /-- A read of the datagram queue (`none`) or of a stream begins. -/
  | reading (conn : Nat) (sid : Option Nat)
  /-- A read of the source was given up for want of event slots or queue bytes. -/
  | held (conn : Nat) (src : Source)
  /-- The receive half of a stream was stopped. -/
  | stopped (conn sid : Nat)
  /-- Capacity was freed while so many connections were waiting for it. -/
  | resumed (waiting : Nat)
  deriving DecidableEq, Repr

inductive Obs
  /-- An event was offered to the queue, which held `pending` events, and taken or not. -/
  | pushed (ev : WtEvent) (pending : Nat) (ok : Bool)
  /-- An event was handed to the host. -/
  | polled (ev : WtEvent)
  /-- An event left the queue and could not be handed to the host. -/
  | lost (ev : WtEvent)
  | note (n : Note)
  deriving DecidableEq, Repr

def accepted (log : List Obs) : List WtEvent :=
  log.filterMap fun
    | .pushed ev _ true => some ev
    | _ => none

def taken (log : List Obs) : List WtEvent :=
  log.filterMap fun
    | .polled ev => some ev
    | .lost ev => some ev
    | _ => none

/-! ## Byte counters -/

/-- The counters that event payloads are charged to. -/
def Counter.ofBytes : Counter → Prop
  | .queuedBytesGlobal | .queuedBytesPerSession _ | .queuedBytesPerStream _ _ => True
  | _ => False

/-- A reservation that is not for queued bytes. -/
structure Slot where
  kind : ReservationKind
  free : ∀ c : Counter, c.ofBytes → c.charge kind = 0

namespace Slot

def handshake : Slot := ⟨.handshake, fun c hc => by cases c <;> first | rfl | exact hc.elim⟩

def session (conn : Nat) : Slot :=
  ⟨.session conn, fun c hc => by cases c <;> first | rfl | exact hc.elim⟩

def stream (conn : Nat) (kind : StreamKind) : Slot :=
  ⟨.stream conn kind, fun c hc => by cases c <;> first | rfl | exact hc.elim⟩

end Slot

theorem Ledger.ExactOn.frame {limits : WasmLimits} {gov gov' : GovernorInner}
    {held : List ReservationKind} (h : ExactOn ofBytes limits ⟨gov, held⟩)
    (hlimits : gov'.limits = gov.limits) (htokens : gov'.hostTokens = gov.hostTokens)
    (hvalue : ∀ c : Counter, c.ofBytes → gov'.value c = gov.value c) :
    ExactOn ofBytes limits ⟨gov', held⟩ where
  limits_eq := hlimits.trans h.limits_eq
  value_eq c hc := by
    rw [hvalue c hc, h.value_eq c hc]
    simp only [outstanding, htokens]
  le_limit c hc := by
    rw [hvalue c hc]
    exact h.le_limit c hc

/-! ## The queue -/

def maxPendingEvents : Nat := 65536

structure Outbox where
  limits : WasmLimits
  governor : GovernorInner
  events : List WtEvent
  eventReservations : List (Option ReservationKind)
  log : List Obs
  valid : limits.validate = .ok ()
  exact : Ledger.ExactOn ofBytes limits ⟨governor, eventReservations.reduceOption⟩
  aligned : eventReservations.length = events.length
  fifo : accepted log = taken log ++ events

namespace Outbox

def new (limits : WasmLimits) : Except String Outbox :=
  match hnew : GovernorInner.new limits with
  | .error e => .error e
  | .ok governor =>
    .ok {
      limits, governor, events := [], eventReservations := [], log := []
      valid := (GovernorInner.eq_of_new hnew).1
      exact :=
        let h := Ledger.exact_new hnew
        ⟨h.limits_eq, fun c _ => h.value_eq c trivial, fun c _ => h.le_limit c trivial⟩
      aligned := rfl
      fifo := rfl }

section

variable (b : Outbox)

def note (n : Note) : Outbox :=
  { b with log := b.log ++ [.note n], fifo := by simpa [accepted, taken] using b.fifo }

def refuse (ev : WtEvent) : Outbox :=
  { b with
    log := b.log ++ [.pushed ev b.events.length false]
    fifo := by simpa [accepted, taken] using b.fifo }

/-- An event that the queue takes, with the reservation made for it. -/
def enqueue (ev : WtEvent) (governor : GovernorInner)
    (reservation : Option ReservationKind) (hexact : Ledger.ExactOn ofBytes b.limits
      ⟨governor, (b.eventReservations ++ [reservation]).reduceOption⟩) : Outbox :=
  { b with
    governor
    events := b.events ++ [ev]
    eventReservations := b.eventReservations ++ [reservation]
    log := b.log ++ [.pushed ev b.events.length true]
    exact := hexact
    aligned := by simp [b.aligned]
    fifo := by
      have hfifo := b.fifo
      simp only [accepted, taken] at hfifo
      simp [accepted, taken, hfifo] }

end

variable {r : ReservationKind}

/-- A byte reservation granted by the governor can stand at the end of the queue. -/
theorem exact_reserve (b : Outbox) {conn bytes : Nat} {stream : Option Nat} {g : GovernorInner}
    (h : b.governor.reserveEventBytes conn stream bytes = .ok (r, g)) :
    Ledger.ExactOn ofBytes b.limits ⟨g, (b.eventReservations ++ [some r]).reduceOption⟩ := by
  have hgrants : ∀ r' g', (Except.ok (r, g) : Except String _) = .ok (r', g') →
      b.governor.Grants r' g' := by
    rintro r' g' ⟨⟩
    exact reserveEventBytes_grants h
  have hkeep := b.exact.keep hgrants
  refine ⟨hkeep.limits_eq, fun c hc => ?_, hkeep.le_limit⟩
  refine (hkeep.value_eq c hc).trans (c.due_perm ?_)
  simp only [reduceOption_append]
  have hswap : ([r] ++ b.eventReservations.reduceOption).Perm
      (b.eventReservations.reduceOption ++ [r]) := perm_append_comm
  exact hswap.append_right _

def tryPush (b : Outbox) (ev : WtEvent) : Except String Unit × Outbox :=
  if maxPendingEvents ≤ b.events.length then
    (.error "E_QUEUE_FULL: event queue item cap reached", b.refuse ev)
  else
    match ev.charge with
    | none => (.ok (), b.enqueue ev b.governor none (by
        simpa [List.reduceOption_append] using b.exact))
    | some (conn, stream, bytes) =>
      match hres : b.governor.reserveEventBytes conn stream bytes with
      | .error e => (.error e, b.refuse ev)
      | .ok (r, g) => (.ok (), b.enqueue ev g (some r) (b.exact_reserve hres))

/-! ## Handing events out -/

def frontReservation (b : Outbox) : Option ReservationKind := b.eventReservations.head?.join

theorem reduceOption_of_front_none {b : Outbox} (h : b.frontReservation = none) :
    b.eventReservations.tail.reduceOption = b.eventReservations.reduceOption := by
  rcases hr : b.eventReservations with _ | ⟨_ | r, rest⟩
  · rfl
  · rfl
  · simp [frontReservation, hr] at h

theorem reduceOption_of_front_some {b : Outbox} (h : b.frontReservation = some r) :
    b.eventReservations.reduceOption = r :: b.eventReservations.tail.reduceOption := by
  rcases hr : b.eventReservations with _ | ⟨_ | r', rest⟩
  · simp [frontReservation, hr] at h
  · simp [frontReservation, hr] at h
  · have hrr : r' = r := by simpa [frontReservation, hr] using h
    subst hrr
    rfl

section

variable (b : Outbox)

theorem exact_consume {g : GovernorInner} (h : b.frontReservation = some r)
    (hg : g = b.governor.releaseKind r ∨ g = (b.governor.transferToHost r).2) :
    Ledger.ExactOn ofBytes b.limits ⟨g, b.eventReservations.tail.reduceOption⟩ := by
  have hmem : r ∈ b.eventReservations.reduceOption := by simp [reduceOption_of_front_some h]
  have herase : b.eventReservations.reduceOption.erase r =
      b.eventReservations.tail.reduceOption := by
    rw [reduceOption_of_front_some h, erase_cons_head]
  rcases hg with rfl | rfl
  · have := b.exact.step (.drop _ r hmem)
    rwa [herase] at this
  · have := b.exact.step (.transferToHost _ r hmem)
    rwa [herase] at this

/-- The front event leaves the queue, with the governor its reservation leaves behind. -/
def dequeue (ev : WtEvent) (rest : List WtEvent) (hev : b.events = ev :: rest)
    (governor : GovernorInner) (o : Obs) (ho : o = .polled ev ∨ o = .lost ev)
    (hexact : Ledger.ExactOn ofBytes b.limits
      ⟨governor, b.eventReservations.tail.reduceOption⟩) : Outbox :=
  { b with
    governor
    events := rest
    eventReservations := b.eventReservations.tail
    log := b.log ++ [o]
    exact := hexact
    aligned := by simp [b.aligned, hev]
    fifo := by
      have hfifo := b.fifo
      simp only [accepted, taken] at hfifo
      rcases ho with rfl | rfl <;> simp [accepted, taken, hfifo, hev] }

/-- The queue part of `poll_event`: the reservation is dropped. -/
def poll : Option (WtEvent × Outbox) :=
  match hev : b.events with
  | [] => none
  | ev :: rest =>
    match hr : b.frontReservation with
    | none =>
      some (ev, b.dequeue ev rest hev b.governor (.polled ev) (.inl rfl) (by
        rw [reduceOption_of_front_none hr]
        exact b.exact))
    | some r =>
      some (ev, b.dequeue ev rest hev (b.governor.releaseKind r) (.polled ev) (.inl rfl)
        (b.exact_consume hr (.inl rfl)))

/-- The queue part of one round of `poll_event_encoded`: the reservation moves to the host,
    or the event is lost. -/
def pollToHost : Option (WtEvent × Except String (Option Nat) × Outbox) :=
  match hev : b.events with
  | [] => none
  | ev :: rest =>
    match hr : b.frontReservation with
    | none =>
      some (ev, .ok none, b.dequeue ev rest hev b.governor (.polled ev) (.inl rfl) (by
        rw [reduceOption_of_front_none hr]
        exact b.exact))
    | some r =>
      match (b.governor.transferToHost r).1 with
      | .ok token =>
        some (ev, .ok (some token),
          b.dequeue ev rest hev (b.governor.transferToHost r).2 (.polled ev) (.inl rfl)
            (b.exact_consume hr (.inr rfl)))
      | .error e =>
        some (ev, .error e,
          b.dequeue ev rest hev (b.governor.transferToHost r).2 (.lost ev) (.inr rfl)
            (b.exact_consume hr (.inr rfl)))

def releaseHostToken (token : Nat) : Bool × Outbox :=
  ((b.governor.releaseHostToken token).1,
    { b with
      governor := (b.governor.releaseHostToken token).2
      exact := b.exact.step (.releaseHostToken _ token) })

end

/-! ## Slots -/

section

variable (b : Outbox)

/-- A governor change that leaves the byte counters and the host tokens alone. -/
def setGovernor (governor : GovernorInner)
    (hlimits : governor.limits = b.governor.limits)
    (htokens : governor.hostTokens = b.governor.hostTokens)
    (hvalue : ∀ c : Counter, c.ofBytes → governor.value c = b.governor.value c) : Outbox :=
  { b with governor, exact := b.exact.frame hlimits htokens hvalue }

/-- Hold what a reserve operation granted, as the slot it is. -/
def keepSlot (slot : Slot) (governor : GovernorInner)
    (h : b.governor.Grants slot.kind governor) : Outbox :=
  b.setGovernor governor h.limits h.hostTokens fun c hc => by
    rw [h.value c, slot.free c hc, add_zero]

def reserveHandshake : Except String (Slot × Outbox) :=
  match h : b.governor.reserveHandshake with
  | .error e => .error e
  | .ok (r, g) => .ok (.handshake, b.keepSlot .handshake g (by
      have hr : r = .handshake := by
        simp only [GovernorInner.reserveHandshake] at h
        split at h <;> cases h
        rfl
      subst hr
      exact reserveHandshake_grants h))

def reserveSession (conn : Nat) : Except String (Slot × Outbox) :=
  match h : b.governor.reserveSession conn with
  | .error e => .error e
  | .ok (r, g) => .ok (.session conn, b.keepSlot (.session conn) g (by
      have hr : r = .session conn := by
        simp only [GovernorInner.reserveSession] at h
        split at h <;> cases h
        rfl
      subst hr
      exact reserveSession_grants h))

def reserveStream (conn stream : Nat) (kind : StreamKind) :
    Except String (Slot × Outbox) :=
  match h : b.governor.reserveStream conn stream kind with
  | .error e => .error e
  | .ok (r, g) => .ok (.stream conn kind, b.keepSlot (.stream conn kind) g (by
      have hr : r = .stream conn kind := by
        simp only [GovernorInner.reserveStream] at h
        split at h
        · cases h
        · split at h <;> cases h
          rfl
      subst hr
      exact reserveStream_grants h))

def release (slot : Slot) : Outbox :=
  b.setGovernor (b.governor.releaseKind slot.kind) (by simp) (by simp) fun c hc => by
    rw [value_releaseKind, slot.free c hc, Nat.sub_zero]

end

end Outbox

end WebTransportBun.Wasm
