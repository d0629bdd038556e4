/-
  Sink.Reader

  The consumer half of the ring, `SinkReader` of `sink-reader.ts`, and the system of
  one producer and one reader on a shared buffer.

  `next()` and the async iterator run the same steps: reclaim the record on loan
  (`advancePending`), load TAIL, parse the record at the head, and for a WRAP record
  store HEAD and load TAIL again.  Parking and retrying an empty ring is a new call.
-/

import WebTransportBun.Library.Run
import WebTransportBun.Sink.Ring

namespace WebTransportBun.Sink

open Library Option System RecordType

/-! ## Reading the data region -/

section

variable (sh : Shared)

/-- `DataView.getUint32(.., true)`; out of range it throws, `none`. -/
def Shared.getUint32 (pos : Nat) : Option Nat :=
  if pos + 4 ≤ sh.dataLen then some (leValue (slice sh.bytes pos 4)) else none

def Shared.getBigUint64 (pos : Nat) : Option Nat :=
  if pos + 8 ≤ sh.dataLen then some (leValue (slice sh.bytes pos 8)) else none

def Shared.getByte (pos : Nat) : UInt8 :=
  if pos < sh.dataLen then sh.bytes pos else 0

/-- `u8.subarray(pos, pos + len)`, which stops at the end of the buffer. -/
def Shared.subarray (pos len : Nat) : Bytes :=
  slice sh.bytes pos (min (pos + len) sh.dataLen - pos)

end

/-- What stands at the head. -/
inductive Parsed
  | wrap (recLen : Nat)
  | record (recLen : Nat) (r : Record)
  deriving DecidableEq, Repr

/-- The reads of `#tryNext` at a position; `none` when one of them throws. -/
def Shared.parseAt (sh : Shared) (pos : Nat) : Option Parsed := do
  let recLen ← sh.getUint32 pos
  let kind := sh.getByte (pos + 4)
  if kind = wrap.toByte then
    return .wrap recLen
  let payloadLen ← sh.getUint32 (pos + 24)
  let aux ← sh.getUint32 (pos + 28)
  let raw := sh.subarray (pos + recordHeaderBytes) payloadLen
  let timestampNs ← sh.getBigUint64 (pos + 8)
  let streamOffset ← sh.getBigUint64 (pos + 16)
  return .record recLen
    ⟨kind, UInt64.ofNat timestampNs, UInt64.ofNat streamOffset, raw, UInt32.ofNat aux⟩

/-! ## The system -/

inductive Phase
  /-- Between two calls. -/
  | idle
  /-- Before a load of TAIL. -/
  | polling
  /-- TAIL was ahead of the head. -/
  | seen
  /-- A WRAP record was read; its length is to be added to HEAD. -/
  | skipping (recLen : Nat)
  /-- A read was out of range. -/
  | threw
  deriving DecidableEq, Repr

structure SinkReader where
  head : Nat
  pendingAdvance : Nat
  ended : Bool
  phase : Phase
  deriving DecidableEq, Repr

/-- Producer, reader, shared buffer, the actions the running producer call has left, and
    the logs of what was published and of what was handed out. -/
structure System where
  ring : SinkRing
  reader : SinkReader
  shared : Shared
  actions : List Action
  committed : List Record
  yielded : List Record

/-- Both cursors and the reader at `cursor`, on a region of `dataLen` bytes. -/
def System.start (cap : DataCapacity) (mode : OverflowMode) (flags dataLen cursor : Nat)
    (old : Nat → UInt8) : System where
  ring := ⟨cap, mode, 0, 0, 0⟩
  reader := ⟨cursor, 0, false, .idle⟩
  shared :=
    { magic, version := layoutVersion, capacity := cap.value, flags, dataOffset
      tail := cursor, head := cursor, state := stateActive, droppedRecords := 0
      droppedBytes := 0, highWater := 0, heartbeat := 0, dataLen, bytes := old }
  actions := []
  committed := []
  yielded := []

section

variable (s : System)

/-- `#advancePending`: give the bytes of the record on loan back to the producer. -/
def System.reclaim : System :=
  if s.reader.pendingAdvance = 0 then s
  else
    let head := (s.reader.head + s.reader.pendingAdvance) % cursorModulus
    { s with
      reader := { s.reader with head, pendingAdvance := 0 }
      shared := { s.shared with head } }

/-- The beginning of `next()`: reclaim and, unless the reader has ended, the heartbeat of
    the first iteration. -/
def System.advancePending : System :=
  let s := s.reclaim
  if s.reader.ended then s
  else
    { s with
      reader := { s.reader with phase := .polling }
      shared := { s.shared with heartbeat := (s.shared.heartbeat + 1) % cursorModulus } }

def System.loadTail : System :=
  { s with reader := { s.reader with
      phase := if s.reader.head = s.shared.tail then .idle else .seen } }

/-- The reads at the head; a record is handed out on loan. -/
def System.parse : System :=
  match s.shared.parseAt (s.ring.dataCapacity.position s.reader.head) with
  | none => { s with reader := { s.reader with phase := .threw } }
  | some (.wrap recLen) => { s with reader := { s.reader with phase := .skipping recLen } }
  | some (.record recLen r) =>
    { s with
      reader := { s.reader with
        pendingAdvance := recLen
        ended := s.reader.ended || r.isTerminal
        phase := .idle }
      yielded := s.yielded ++ [r] }

def System.skipWrap (recLen : Nat) : System :=
  let head := (s.reader.head + recLen) % cursorModulus
  { s with
    reader := { s.reader with head, phase := .polling }
    shared := { s.shared with head } }

def System.called (c : Called) : System :=
  { s with ring := c.ring, shared := c.shared, actions := c.actions }

end

inductive Op
  | push (kind : RecordType) (timestampNs streamOffset : UInt64) (payload : Bytes)
  | pushTerminal (kind : RecordType) (timestampNs streamOffset : UInt64) (payload : Bytes)
      (aux : UInt32)
  | produce
  | advancePending
  | loadTail
  | parse
  | skipWrap
  deriving DecidableEq, Repr

def Action.published : Action → List Record
  | .publish _ r => [r]
  | _ => []

/-- One step of either side.  A call is made when the previous one has returned and with
    the kinds and lengths its assertions ask for; an oversized push is refused. -/
def System.exec (s : System) : Op → Option System
  | .push kind timestampNs streamOffset payload =>
    if s.actions = [] ∧ (kind = .data ∨ kind = .message) then
      match s.ring.push s.shared kind timestampNs streamOffset payload with
      | .ok (_, c) => some (s.called c)
      | .error _ => some s
    else none
  | .pushTerminal kind timestampNs streamOffset payload aux =>
    if s.actions = [] ∧ kind.isTerminal = true ∧ payload.length ≤ maxTerminalPayloadBytes then
      some (s.called (s.ring.pushTerminal s.shared kind timestampNs streamOffset payload aux).2)
    else none
  | .produce =>
    match s.actions with
    | [] => none
    | a :: rest =>
      match a.perform s.ring s.shared with
      | none => none
      | some (ring, shared) =>
        some { s with
          ring, shared, actions := rest, committed := s.committed ++ a.published }
  | .advancePending => if s.reader.phase = .idle then some s.advancePending else none
  | .loadTail => if s.reader.phase = .polling then some s.loadTail else none
  | .parse => if s.reader.phase = .seen then some s.parse else none
  | .skipWrap =>
    match s.reader.phase with
    | .skipping recLen => some (s.skipWrap recLen)
    | _ => none

def System.Step (s : System) (op : Op) (t : System) : Prop := s.exec op = some t

/-! ## What a step does -/

/-- A step of the reader leaves the producer and its counters alone. -/
structure Reads (s t : System) : Prop where
  ring : t.ring = s.ring
  actions : t.actions = s.actions
  committed : t.committed = s.committed
  shared : t.shared.state = s.shared.state ∧ t.shared.droppedRecords = s.shared.droppedRecords ∧
    t.shared.droppedBytes = s.shared.droppedBytes

inductive Effect (s : System) : Op → System → Prop
  | pushed {kind : RecordType} {timestampNs streamOffset : UInt64} {payload : Bytes}
      {outcome : PushOutcome} {c : Called} (hidle : s.actions = [])
      (hkind : kind = .data ∨ kind = .message)
      (hcall : s.ring.push s.shared kind timestampNs streamOffset payload = .ok (outcome, c)) :
      Effect s (.push kind timestampNs streamOffset payload) (s.called c)
  | refused {kind : RecordType} {timestampNs streamOffset : UInt64} {payload : Bytes}
      {error : String}
      (hcall : s.ring.push s.shared kind timestampNs streamOffset payload = .error error) :
      Effect s (.push kind timestampNs streamOffset payload) s
  | ended {kind : RecordType} {timestampNs streamOffset : UInt64} {payload : Bytes}
      {aux : UInt32} (hidle : s.actions = []) (hkind : kind.isTerminal = true)
      (hlen : payload.length ≤ maxTerminalPayloadBytes) :
      Effect s (.pushTerminal kind timestampNs streamOffset payload aux)
        (s.called (s.ring.pushTerminal s.shared kind timestampNs streamOffset payload aux).2)
  | produced {a : Action} {rest : List Action} {ring : SinkRing} {shared : Shared}
      (hactions : s.actions = a :: rest) (hdone : a.perform s.ring s.shared = some (ring, shared)) :
      Effect s .produce { s with
        ring, shared, actions := rest, committed := s.committed ++ a.published }
  | advanced (hidle : s.reader.phase = .idle) (hread : Reads s s.advancePending) :
      Effect s .advancePending s.advancePending
  | loaded (hpolling : s.reader.phase = .polling) (hread : Reads s s.loadTail) :
      Effect s .loadTail s.loadTail
  | parsed (hseen : s.reader.phase = .seen) (hread : Reads s s.parse) : Effect s .parse s.parse
  | skipped {recLen : Nat} (hskip : s.reader.phase = .skipping recLen)
      (hread : Reads s (s.skipWrap recLen)) : Effect s .skipWrap (s.skipWrap recLen)

theorem System.Step.effect {s t : System} {op : Op} (hstep : System.Step s op t) :
    Effect s op t := by
  cases op with
  | push =>
    simp only [System.Step, exec, ite_none_right_eq_some] at hstep
    obtain ⟨⟨hidle, hkind⟩, hstep⟩ := hstep
    split at hstep <;> cases hstep
    · next hcall => exact .pushed hidle hkind hcall
    · next hcall => exact .refused hcall
  | pushTerminal =>
    simp only [System.Step, exec, ite_none_right_eq_some] at hstep
    obtain ⟨⟨hidle, hkind, hlen⟩, hstep⟩ := hstep
    cases hstep
    exact .ended hidle hkind hlen
  | produce =>
    simp only [System.Step, exec] at hstep
    split at hstep
    · cases hstep
    next hactions =>
    split at hstep <;> cases hstep
    next hdone => exact .produced hactions hdone
  | advancePending =>
    simp only [System.Step, exec, ite_none_right_eq_some] at hstep
    obtain ⟨hidle, hstep⟩ := hstep
    cases hstep
    refine .advanced hidle ?_
    simp only [advancePending, reclaim]
    split_ifs <;> exact ⟨rfl, rfl, rfl, rfl, rfl, rfl⟩
  | loadTail =>
    simp only [System.Step, exec, ite_none_right_eq_some] at hstep
    obtain ⟨hpolling, hstep⟩ := hstep
    cases hstep
    exact .loaded hpolling ⟨rfl, rfl, rfl, rfl, rfl, rfl⟩
  | parse =>
    simp only [System.Step, exec, ite_none_right_eq_some] at hstep
    obtain ⟨hseen, hstep⟩ := hstep
    cases hstep
    refine .parsed hseen ?_
    rw [parse]
    split <;> exact ⟨rfl, rfl, rfl, rfl, rfl, rfl⟩
  | skipWrap =>
    simp only [System.Step, exec] at hstep
    split at hstep <;> cases hstep
    next hskip => exact .skipped hskip ⟨rfl, rfl, rfl, rfl, rfl, rfl⟩

end WebTransportBun.Sink
