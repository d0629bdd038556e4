/-
  Sink.Ring

  The producer half of the stream sink ring: `SinkRing` of `stream_sink.rs`.

  A call decides on admission with the HEAD it loads and turns into the list of its
  memory actions (`Action`): the byte stores of a WRAP header, of the record header
  and of the payload, the high-water update with its second load of HEAD, and the
  store of TAIL that publishes the record.  The actions are performed one by one, so
  that a reader can run between any two of them.
-/

import Mathlib.Data.Nat.Log
import WebTransportBun.Sink.Layout

namespace WebTransportBun.Sink

open Library

inductive OverflowMode
  | block
  | dropNewest
  deriving DecidableEq, Repr

inductive PushOutcome
  | written
  | wouldBlock
  | dropped
  deriving DecidableEq, Repr

/-- A data capacity that `init` accepts. -/
structure DataCapacity where
  value : Nat
  powerOfTwo : value.isPowerOfTwo
  lower : minDataCapacity ≤ value
  upper : value ≤ maxDataCapacity

/-- The words and the data region both sides see. -/
structure Shared where
  magic : Nat
  version : Nat
  capacity : Nat
  flags : Nat
  dataOffset : Nat
  tail : Nat
  head : Nat
  state : Nat
  droppedRecords : Nat
  droppedBytes : Nat
  highWater : Nat
  heartbeat : Nat
  /-- Bytes of the buffer behind the header lines; at least the data capacity. -/
  dataLen : Nat
  bytes : Nat → UInt8

structure SinkRing where
  dataCapacity : DataCapacity
  mode : OverflowMode
  pendingGapRecords : Nat
  pendingGapStartOffset : UInt64
  highWater : Nat

inductive Action
  | write (addr : Nat) (byte : UInt8)
  | noteHighWater (newTail : Nat)
  | publish (newTail : Nat) (record : Record)
  deriving DecidableEq, Repr

/-- `SinkRing::init` on a buffer of `len` bytes at address `base`.  The data region keeps
    what was in it. -/
def SinkRing.init (base len dataCapacity flags : Nat) (mode : OverflowMode)
    (old : Nat → UInt8) : Except String (SinkRing × Shared) :=
  if base = 0 ∨ base % 8 ≠ 0 then
    .error "E_SINK_BAD_BUFFER: backing store is not 8-aligned"
  else if h : dataCapacity.isPowerOfTwo ∧ minDataCapacity ≤ dataCapacity ∧
      dataCapacity ≤ maxDataCapacity then
    if len < dataOffset + dataCapacity then
      .error
        s!"E_SINK_BAD_BUFFER: buffer holds {len} bytes, layout needs {dataOffset + dataCapacity}"
    else
      .ok ({ dataCapacity := ⟨dataCapacity, h.1, h.2.1, h.2.2⟩
             mode
             pendingGapRecords := 0
             pendingGapStartOffset := 0
             highWater := 0 },
           { magic
             version := layoutVersion
             capacity := dataCapacity
             flags
             dataOffset
             tail := 0
             head := 0
             state := stateActive
             droppedRecords := 0
             droppedBytes := 0
             highWater := 0
             heartbeat := 0
             dataLen := len - dataOffset
             bytes := old })
  else
    .error (s!"E_SINK_BAD_OPTIONS: data capacity {dataCapacity} must be a power of two in " ++
      s!"[{minDataCapacity}, {maxDataCapacity}]")

/-! ## Geometry -/

def align8 (len : Nat) : Nat := (len + 7) / 8 * 8

def maxPayloadBytes (dataCapacity : Nat) : Nat := dataCapacity / 4 - recordHeaderBytes

def DataCapacity.position (cap : DataCapacity) (cursor : Nat) : Nat := cursor &&& (cap.value - 1)

def wrappingSub (a b : Nat) : Nat := (a + cursorModulus - b) % cursorModulus

def Shared.fill (sh : Shared) : Nat := wrappingSub sh.tail sh.head

def DataCapacity.costAt (cap : DataCapacity) (tail recLen : Nat) : Nat :=
  let remainder := cap.value - cap.position tail
  if recLen + recordHeaderBytes ≤ remainder then recLen
  else if recLen ≤ remainder then remainder
  else remainder + recLen

/-- The stores of a header and a payload at a position of the data region. -/
def recordWrites (pos storedLen : Nat) (r : Record) : List (Nat × UInt8) :=
  placeAt pos (headerBytes storedLen r.kind r.timestampNs r.streamOffset r.payload.length r.aux) ++
    placeAt (pos + recordHeaderBytes) r.payload

def wrapWrites (pos remainder : Nat) : List (Nat × UInt8) :=
  placeAt pos (headerBytes remainder RecordType.wrap.toByte 0 0 0 0)

/-- The stores `commit` makes with the tail at `tail`: one of the three geometry rules. -/
def DataCapacity.commitWrites (cap : DataCapacity) (tail recLen : Nat) (r : Record) :
    List (Nat × UInt8) :=
  let pos := cap.position tail
  let remainder := cap.value - pos
  if recLen + recordHeaderBytes ≤ remainder then recordWrites pos recLen r
  else if recLen ≤ remainder then recordWrites pos remainder r
  else wrapWrites pos remainder ++ recordWrites 0 recLen r

def DataCapacity.commit (cap : DataCapacity) (tail recLen cost : Nat) (r : Record) :
    List Action :=
  let newTail := (tail + cost) % cursorModulus
  (cap.commitWrites tail recLen r).map (fun w => .write w.1 w.2) ++
    [.noteHighWater newTail, .publish newTail r]

/-! ## Calls -/

/-- What a producer call leaves behind. -/
structure Called where
  ring : SinkRing
  shared : Shared
  actions : List Action

section

variable (ring : SinkRing)

def SinkRing.gapRecord : Record where
  kind := RecordType.dropGap.toByte
  timestampNs := 0
  streamOffset := ring.pendingGapStartOffset
  payload := []
  -- `u32::try_from(..).unwrap_or(u32::MAX)`
  aux := UInt32.ofNat (min ring.pendingGapRecords (cursorModulus - 1))

/-- The cost of the gap record with the tail at `tail`, zero without a pending gap. -/
def SinkRing.gapCost (tail : Nat) : Nat :=
  if 0 < ring.pendingGapRecords then ring.dataCapacity.costAt tail recordHeaderBytes else 0

def SinkRing.flushPendingGap (tail : Nat) : SinkRing × List Action :=
  if ring.pendingGapRecords = 0 then (ring, [])
  else
    ({ ring with pendingGapRecords := 0 },
      ring.dataCapacity.commit tail recordHeaderBytes
        (ring.dataCapacity.costAt tail recordHeaderBytes) ring.gapRecord)

section

variable (sh : Shared)

/-- `note_drop`, on both sides of the boundary. -/
def SinkRing.noteDrop (streamOffset : UInt64) :
    SinkRing × Shared :=
  ({ ring with
    pendingGapStartOffset :=
       if ring.pendingGapRecords = 0 then streamOffset else ring.pendingGapStartOffset
    pendingGapRecords := ring.pendingGapRecords + 1 },
   { sh with droppedRecords := (sh.droppedRecords + 1) % 2 ^ 64 })

def SinkRing.push (kind : RecordType)
    (timestampNs streamOffset : UInt64) (payload : Bytes) :
    Except String (PushOutcome × Called) :=
  let cap := ring.dataCapacity
  if maxPayloadBytes cap.value < payload.length then
    .error (s!"E_SINK_OVERSIZED: {payload.length} byte payload exceeds the " ++
      s!"{maxPayloadBytes cap.value} byte cap for this ring")
  else
    let recLen := align8 (recordHeaderBytes + payload.length)
    let usable := cap.value - reservedTailBytes
    let gapCost := ring.gapCost sh.tail
    let tail' := (sh.tail + gapCost) % cursorModulus
    let recordCost := cap.costAt tail' recLen
    if usable < sh.fill + gapCost + recordCost then
      match ring.mode with
      | .block => .ok (.wouldBlock, ⟨ring, sh, []⟩)
      | .dropNewest =>
        let (ring', sh') := ring.noteDrop sh streamOffset
        .ok (.dropped, ⟨ring',
          { sh' with droppedBytes := (sh'.droppedBytes + payload.length) % 2 ^ 64 }, []⟩)
    else
      let (ring', gapActions) := ring.flushPendingGap sh.tail
      .ok (.written, ⟨ring', sh, gapActions ++ cap.commit tail' recLen recordCost
        ⟨kind.toByte, timestampNs, streamOffset, payload, 0⟩⟩)

/-- `push_terminal`; the caller's `assert!`s are hypotheses of the step that calls it.
    Nobody else stores to the state word, so the exchange and the load of HEAD that
    follows it are one step. -/
def SinkRing.pushTerminal (kind : RecordType)
    (timestampNs streamOffset : UInt64) (payload : Bytes) (aux : UInt32) : Bool × Called :=
  if sh.state ≠ stateActive then (false, ⟨ring, sh, []⟩)
  else
    let cap := ring.dataCapacity
    let recLen := align8 (recordHeaderBytes + payload.length)
    let gapCost := ring.gapCost sh.tail
    let terminalAfter := cap.costAt ((sh.tail + gapCost) % cursorModulus) recLen
    -- The reserve guarantees the terminal, not the gap.
    let discloses := 0 < ring.pendingGapRecords ∧ sh.fill + gapCost + terminalAfter ≤ cap.value
    let (ring', gapActions) := if discloses then ring.flushPendingGap sh.tail else (ring, [])
    let tail' := if discloses then (sh.tail + gapCost) % cursorModulus else sh.tail
    (true, ⟨ring', { sh with state := stateTerminalCommitted },
      gapActions ++ cap.commit tail' recLen (cap.costAt tail' recLen)
        ⟨kind.toByte, timestampNs, streamOffset, payload, aux⟩⟩)

/-- Perform one action.  A store outside the buffer is undefined behaviour: `none`. -/
def Action.perform : Action → Option (SinkRing × Shared)
  | .write addr byte =>
    if addr < sh.dataLen then some (ring, { sh with bytes := store sh.bytes addr byte })
    else none
  | .noteHighWater newTail =>
    let fill := wrappingSub newTail sh.head
    if ring.highWater < fill then
      some ({ ring with highWater := fill }, { sh with highWater := fill })
    else some (ring, sh)
  | .publish newTail _ => some (ring, { sh with tail := newTail })

end

end

end WebTransportBun.Sink
