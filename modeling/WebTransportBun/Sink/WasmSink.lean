/-
  Sink.WasmSink

  `openWasmReadSink` of `wasm-sink.ts` with the `RingWriter` of `sink-ring-writer.ts`: chunks of
  a stream, captured before the sink was opened or delivered by `onData`, are queued, cut, and
  pushed into the ring by one asynchronous task, `drain`.

  A step of the task is what JavaScript runs without giving way, or a part of it: the steps of
  the stream, of the consumer and of whoever closes the sink come in between.  The consumer
  moves HEAD past what it has read, in any portions, and gives heartbeats.  A record is
  committed as a whole; how it is laid out in the data region is the subject of `Sink.Fifo`.

  `push` throws on a payload that is too large for the ring.  Nothing catches that: `drain`
  rejects, and the chunk is gone without a record.  The options are not checked against the
  size of the ring, and neither are the chunks.
-/

import WebTransportBun.Sink.FrameCutter

namespace WebTransportBun.Sink.Wasm

open Library

/-! ## The ring -/

def ringMaxPayloadBytes (dataCapacity : Nat) : Nat := dataCapacity / 4 - recordHeaderBytes

/-- The `RingWriter`, the words it shares with the consumer, and the records it has
    committed. -/
structure Ring where
  capacity : DataCapacity
  dropNewest : Bool
  tail : UInt32 := 0
  head : UInt32 := 0
  heartbeat : UInt32 := 0
  state : Nat := stateActive
  pendingGapRecords : Nat := 0
  pendingGapStartOffset : Nat := 0
  droppedRecords : Nat := 0
  droppedBytes : Nat := 0
  records : List Record := []

namespace Ring

/-- The constructor.  The buffer is allocated for the capacity, so that the check of its size
    passes. -/
def new (dataCapacity : Nat) (dropNewest : Bool) : Except String Ring :=
  if h : dataCapacity.isPowerOfTwo ∧ minDataCapacity ≤ dataCapacity ∧
      dataCapacity ≤ maxDataCapacity then
    let capacity : DataCapacity := h.elim fun powerOfTwo h => h.elim fun lower upper =>
      { value := dataCapacity, powerOfTwo, lower, upper }
    .ok { capacity, dropNewest }
  else .error (bad "ring capacity must be a power of two in [1024, 2^30]")

variable (r : Ring)

def fill : Nat := (r.tail - r.head).toNat

/-- `#costAt` behind `skip` more bytes. -/
def costAt (skip recLen : Nat) : Nat :=
  r.capacity.costAt (r.tail + UInt32.ofNat skip).toNat recLen

def commit (cost : Nat) (record : Record) : Ring :=
  { r with tail := r.tail + UInt32.ofNat cost, records := r.records ++ [record] }

def gapCost : Nat := if 0 < r.pendingGapRecords then r.costAt 0 recordHeaderBytes else 0

def flushPendingGap : Ring :=
  if r.pendingGapRecords = 0 then r
  else
    let count := min r.pendingGapRecords 0xffffffff
    { r.commit (r.costAt 0 recordHeaderBytes)
        ⟨RecordType.dropGap.toByte, 0, UInt64.ofNat r.pendingGapStartOffset, [],
          UInt32.ofNat count⟩ with
      pendingGapRecords := 0 }

def push (kind : RecordType) (timestampNs : UInt64) (streamOffset : Nat) (payload : Bytes) :
    Except String (PushOutcome × Ring) :=
  if ringMaxPayloadBytes r.capacity.value < payload.length then
    .error (s!"E_SINK_OVERSIZED: {payload.length} byte payload exceeds the " ++
      s!"{ringMaxPayloadBytes r.capacity.value} byte cap for this ring")
  else
    let recLen := align8 (recordHeaderBytes + payload.length)
    let usable := r.capacity.value - reservedTailBytes
    let recordCost := r.costAt r.gapCost recLen
    if usable < r.fill + r.gapCost + recordCost then
      if ¬ r.dropNewest then .ok (.wouldBlock, r)
      else
        .ok (.dropped, { r with
          pendingGapStartOffset :=
            if r.pendingGapRecords = 0 then streamOffset else r.pendingGapStartOffset
          pendingGapRecords := r.pendingGapRecords + 1
          droppedRecords := r.droppedRecords + 1
          droppedBytes := r.droppedBytes + payload.length })
    else
      .ok (.written, r.flushPendingGap.commit recordCost
        ⟨kind.toByte, timestampNs, UInt64.ofNat streamOffset, payload, 0⟩)

/-- `pushTerminal`; its callers pass terminal kinds and payloads within the cap. -/
def pushTerminal (kind : RecordType) (timestampNs : UInt64) (streamOffset : Nat) (payload : Bytes)
    (aux : UInt32) : Ring :=
  if r.state ≠ stateActive then r
  else
    let recLen := align8 (recordHeaderBytes + payload.length)
    -- The reserve guarantees the terminal, not the gap.
    let discloses := 0 < r.pendingGapRecords ∧
      r.fill + r.gapCost + r.costAt r.gapCost recLen ≤ r.capacity.value
    let r := if discloses then r.flushPendingGap else r
    { r.commit (r.costAt 0 recLen)
        ⟨kind.toByte, timestampNs, UInt64.ofNat streamOffset, payload, aux⟩ with
      state := stateTerminalCommitted }

def reclaim (n : Nat) : Ring := { r with head := r.head + UInt32.ofNat n }

end Ring

/-! ## The sink -/

/-- A chunk of the stream.  Its reservation is left out. -/
structure Chunk where
  data : Bytes
  fin : Bool
  deriving DecidableEq, Repr

structure Config where
  framing : Option FramingConfig
  dropNewest : Bool
  backpressureTimeoutMs : Nat
  idleTimeoutMs : Nat

def Config.kind (config : Config) : RecordType :=
  if config.framing.isSome then .message else .data

/-- A call of `pushRecord`, with what `processChunk` does behind it. -/
structure PushCall where
  timestampNs : UInt64
  payload : Bytes
  /-- The frames behind this one. -/
  rest : List Bytes
  fin : Bool
  stallStarted : Option ℚ := none
  heartbeatSeen : UInt32

/-- Since when the consumer has not moved, found out in a round with the ring full. -/
def PushCall.stallSince (p : PushCall) (heartbeat : UInt32) (now : ℚ) : ℚ :=
  if heartbeat = p.heartbeatSeen then p.stallStarted.getD now else now

inductive Task
  /-- `drain` is not running. -/
  | idle
  /-- At the head of the loop of `drain`. -/
  | looping
  /-- At the head of the loop of `pushRecord`. -/
  | pushing (p : PushCall)
  /-- `pushRecord` has returned. -/
  | returned (p : PushCall) (ok : Bool)

/-- `drain` is called; it returns at once if it is running. -/
def Task.drain : Task → Task
  | idle => looping
  | task => task

structure State where
  config : Config
  ring : Ring
  ended : Bool := false
  offset : Nat := 0
  /-- What the cutter has staged. -/
  staging : Bytes := []
  idleWatch : Option (UInt32 × ℚ) := none
  backlog : List Chunk
  task : Task
  /-- The chunks that the stream has not delivered yet. -/
  live : List Chunk
  paused : Bool
  /-- The sender was told to stop. -/
  stopped : Bool := false

namespace State

variable (s : State)

def finish (clock : UInt64) (kind : RecordType) (code : String) (aux : UInt32) (stopWire : Bool) :
    State :=
  if s.ended then s
  else
    let payload := if kind = .error then code.toUTF8.data.toList else []
    { s with
      ended := true
      backlog := []
      ring := { s.ring.pushTerminal kind clock s.offset payload aux with state := stateExited }
      stopped := stopWire }

/-- The liveness check of drop-newest, behind the records of a chunk. -/
def checkIdle (clock : UInt64) (now : ℚ) : State :=
  if s.config.dropNewest ∧ 0 < s.config.idleTimeoutMs then
    match s.idleWatch with
    | some (heartbeat, since) =>
      if heartbeat = s.ring.heartbeat then
        if s.config.idleTimeoutMs ≤ now - since then
          s.finish clock .error "E_SINK_STALLED" 0 true
        else s
      else { s with idleWatch := some (s.ring.heartbeat, now) }
    | none => { s with idleWatch := some (s.ring.heartbeat, now) }
  else s

def endChunk (clock : UInt64) (fin : Bool) : State :=
  { if fin then s.finish clock .eof "" 0 false else s with task := .looping }

/-- `processChunk` goes on with its next payload, or behind the last. -/
def pushNext (timestampNs clock : UInt64) (now : ℚ) (fin : Bool) : List Bytes → State
  | payload :: rest =>
    { s with task :=
      .pushing { timestampNs, payload, rest, fin, heartbeatSeen := s.ring.heartbeat } }
  | [] => (s.checkIdle clock now).endChunk clock fin

def processChunk (clock : UInt64) (now : ℚ) (chunk : Chunk) : Option State :=
  if chunk.data = [] then some (s.endChunk clock chunk.fin)
  else
    match s.config.framing with
    | none => some (s.pushNext clock clock now chunk.fin [chunk.data])
    | some c =>
      match FrameCutter.push c s.staging chunk.data with
      | none => none
      | some (staging, .ok frames) =>
        some ({ s with staging }.pushNext clock clock now chunk.fin frames)
      | some (staging, .error _) =>
        some { { s with staging }.finish clock .error "E_SINK_FRAME_FAULT" 0 true with
          task := .looping }

/-- A round of `pushRecord` that found the ring full. -/
def blocked (p : PushCall) (clock : UInt64) (now : ℚ) : State :=
  let heartbeat := s.ring.heartbeat
  let stallStarted := p.stallSince heartbeat now
  if s.config.backpressureTimeoutMs ≤ now - stallStarted then
    { s.finish clock .error "E_SINK_STALLED" 0 true with task := .returned p false }
  else
    let p := { p with heartbeatSeen := heartbeat, stallStarted := some stallStarted }
    { s with task := .pushing p }

def turn (clock : UInt64) (now : ℚ) : Option State :=
  match s.task with
  | .idle => none
  | .looping =>
    if s.ended then some { s with task := .idle }
    else
      match s.backlog with
      | [] => some { s with task := .idle, paused := false }
      | chunk :: backlog => { s with backlog }.processChunk clock now chunk
  | .pushing p =>
    if s.ended then some { s with task := .returned p false }
    else
      match s.ring.push s.config.kind p.timestampNs s.offset p.payload with
      -- `drain` rejects; its `finally` is all that still runs
      | .error _ => some { s with task := .idle }
      | .ok (.wouldBlock, _) => some (s.blocked p clock now)
      | .ok (_, ring) => some { s with ring, task := .returned p true }
  | .returned p ok =>
    let s := { s with offset := s.offset + p.payload.length }
    if ok then some (s.pushNext p.timestampNs clock now p.fin p.rest)
    else some { s with task := .looping }

def onData : Option State :=
  match s.live with
  | [] => none
  | chunk :: live =>
    if s.ended then some { s with live }
    else
      some { s with
        live
        backlog := s.backlog ++ [chunk]
        paused := true
        task := s.task.drain }

end State

inductive Op
  /-- The stream delivers a chunk. -/
  | deliver
  /-- A chunk was on its way when the stream was paused. -/
  | deliverLate
  | turn (clock : UInt64) (now : ℚ)
  /-- The callback of `onReset`. -/
  | reset (clock : UInt64) (code : UInt32)
  | close (clock : UInt64)
  /-- A heartbeat of the consumer. -/
  | beat
  | reclaim (n : Nat)

def exec (s : State) : Op → Option State
  | .deliver => if s.paused then none else s.onData
  | .deliverLate => if s.paused then s.onData else none
  | .turn clock now => s.turn clock now
  | .reset clock code => some (s.finish clock .reset "" code false)
  | .close clock => some (s.finish clock .error "E_SINK_CLOSED" 0 true)
  | .beat => some { s with ring := { s.ring with heartbeat := s.ring.heartbeat + 1 } }
  | .reclaim n =>
    if 0 < n ∧ n ≤ s.ring.fill then some { s with ring := s.ring.reclaim n } else none

def Step (s : State) (op : Op) (t : State) : Prop := exec s op = some t

def defaultBackpressureTimeoutMs : Nat := 5000

def openCutter (framing : Js) : Except String (Option FramingConfig) :=
  if framing.isUndefined then .ok none else do return some (← FrameCutter.new (readFraming framing))

/-- `openWasmReadSink`, on a stream that is to deliver `live`.  The adapter that captured
    chunks has paused the stream if there are data in them. -/
def openWasmReadSink (text : Js → String) (opts : Js) (captured live : List Chunk) :
    Except String State := do
  validateStreamSinkOptions text opts
  let ringBytes ← normalizeRingBytes (opts.get "ringBytes")
  let dropNewest := (opts.get "overflow").isString "drop-newest"
  let framing ← openCutter (opts.get "framing")
  let ring ← Ring.new ringBytes dropNewest
  return {
    config := {
      framing
      dropNewest
      backpressureTimeoutMs :=
        timeoutMs opts "backpressureTimeoutMs" defaultBackpressureTimeoutMs
      idleTimeoutMs := timeoutMs opts "idleTimeoutMs" 0 }
    ring
    backlog := captured
    task := if captured = [] then .idle else .looping
    live
    paused := captured.any fun chunk => chunk.data ≠ [] }

end WebTransportBun.Sink.Wasm
