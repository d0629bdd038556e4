/-
  Sink.RingWriter

  The `RingWriter` of `sink-ring-writer.ts` is a port of the `SinkRing` of `stream_sink.rs`.  The
  model of the wasm sink (`Sink.WasmSink`) keeps its words and the records that it commits, and
  leaves out the bytes of the data region.  What it leaves out is the native ring's: a call of
  the writer ends as the same call of the ring does, commits the records that the ring's actions
  publish, and moves the tail to where they move it (`push_ok`, `pushTerminal_is`).
-/

import WebTransportBun.Sink.Gaps
import WebTransportBun.Sink.WasmSink

namespace WebTransportBun.Sink

open Library List Sink.Action

/-- The tail behind the actions of a call. -/
def tailAfter : Nat → List Action → Nat
  | tail, [] => tail
  | _, .publish newTail _ :: actions => tailAfter newTail actions
  | tail, _ :: actions => tailAfter tail actions

/-- The shared words when the actions of a call have been performed. -/
def Called.done (c : Called) : Shared :=
  { c.shared with tail := tailAfter c.shared.tail c.actions }

theorem tailAfter_append (tail : Nat) (as bs : List Action) :
    tailAfter tail (as ++ bs) = tailAfter (tailAfter tail as) bs := by
  induction as generalizing tail with
  | nil => rfl
  | cons a as ih => cases a <;> exact ih _

theorem tailAfter_commit (cap : DataCapacity) (tail start recLen cost : Nat) (r : Record) :
    tailAfter tail (cap.commit start recLen cost r) = (start + cost) % cursorModulus := by
  have hwrites : ∀ ws : List (Nat × UInt8),
      tailAfter tail (ws.map fun w => write w.1 w.2) = tail := by
    intro ws
    induction ws with
    | nil => rfl
    | cons w ws ih => exact ih
  rw [DataCapacity.commit, tailAfter_append]
  rfl

namespace Wasm

/-- The writer has the words of this ring. -/
structure Ring.Is (r : Ring) (ring : SinkRing) (sh : Shared) : Prop where
  capacity : ring.dataCapacity = r.capacity
  mode : ring.mode = if r.dropNewest then .dropNewest else .block
  tail : sh.tail = r.tail.toNat
  head : sh.head = r.head.toNat
  state : sh.state = r.state
  gapRecords : ring.pendingGapRecords = r.pendingGapRecords
  gapStart : ring.pendingGapStartOffset = UInt64.ofNat r.pendingGapStartOffset

namespace Ring.Is

variable {r : Ring} {ring : SinkRing} {sh : Shared} {kind : RecordType} {timestampNs : UInt64}
  {streamOffset : Nat} {payload : Bytes} {aux : UInt32}

section

variable (h : r.Is ring sh)

include h

theorem fill : sh.fill = r.fill := by
  have hhead := r.head.toNat_lt
  rw [Shared.fill, Ring.fill, wrappingSub, h.tail, h.head, UInt32.toNat_sub]
  simp only [cursorModulus]
  omega

theorem tail_add (n : Nat) : (sh.tail + n) % cursorModulus = (r.tail + UInt32.ofNat n).toNat := by
  rw [UInt32.toNat_add, UInt32.toNat_ofNat', h.tail, cursorModulus]
  omega

theorem gapCost : ring.gapCost sh.tail = r.gapCost := by
  rw [SinkRing.gapCost, Ring.gapCost, h.gapRecords, h.capacity, Ring.costAt]
  simp [h.tail]

/-- The record behind the pending gap. -/
theorem costAt (recLen : Nat) :
    r.capacity.costAt ((sh.tail + r.gapCost) % cursorModulus) recLen =
      r.costAt r.gapCost recLen := by
  rw [h.tail_add]
  rfl

theorem commit (recLen cost : Nat) (record : Record) {start : Nat}
    (hstart : start = r.tail.toNat) :
    (r.commit cost record).records =
        r.records ++ (ring.dataCapacity.commit start recLen cost record).flatMap published ∧
      (r.commit cost record).Is ring
        (Called.done ⟨ring, sh, ring.dataCapacity.commit start recLen cost record⟩) := by
  rw [commit_published]
  refine ⟨rfl, ⟨h.capacity, h.mode, ?_, h.head, h.state, h.gapRecords, h.gapStart⟩⟩
  show tailAfter _ _ = _
  rw [tailAfter_commit, hstart, ← h.tail, h.tail_add]
  rfl

/-- The gap, if there is one, is committed. -/
theorem flushPendingGap :
    r.flushPendingGap.records = r.records ++ (ring.flushPendingGap sh.tail).2.flatMap published ∧
      r.flushPendingGap.tail.toNat = (sh.tail + ring.gapCost sh.tail) % cursorModulus ∧
      r.flushPendingGap.Is (ring.flushPendingGap sh.tail).1
        (Called.done ⟨ring, sh, (ring.flushPendingGap sh.tail).2⟩) := by
  by_cases hgap : r.pendingGapRecords = 0
  · rw [SinkRing.flushPendingGap, Ring.flushPendingGap, SinkRing.gapCost, h.gapRecords,
    hgap, h.tail]
    exact ⟨(append_nil _).symm, (Nat.mod_eq_of_lt r.tail.toNat_lt).symm, h⟩
  · have hcost : ring.dataCapacity.costAt sh.tail recordHeaderBytes =
        r.costAt 0 recordHeaderBytes := by
      rw [h.capacity, h.tail, Ring.costAt]
      simp
    have hrecord : ring.gapRecord = ⟨RecordType.dropGap.toByte, 0,
        UInt64.ofNat r.pendingGapStartOffset, [],
        UInt32.ofNat (min r.pendingGapRecords 0xffffffff)⟩ := by
      rw [SinkRing.gapRecord, h.gapRecords, h.gapStart]
      rfl
    obtain ⟨hrecords, his⟩ := h.commit recordHeaderBytes (r.costAt 0 recordHeaderBytes)
      ring.gapRecord h.tail
    have hflush : r.flushPendingGap = { r.commit (r.costAt 0 recordHeaderBytes) ring.gapRecord with
        pendingGapRecords := 0 } := by
      rw [Ring.flushPendingGap, if_neg hgap, hrecord]
    rw [SinkRing.flushPendingGap, if_neg (h.gapRecords.trans_ne hgap), hflush, hcost]
    refine ⟨hrecords, ?_, { his with gapRecords := rfl }⟩
    rw [SinkRing.gapCost, if_pos (by rw [h.gapRecords]; omega), hcost, h.tail_add]
    rfl

/-- A record that is committed behind the gap. -/
theorem commit_behind (recLen cost : Nat) (record : Record) :
    (r.flushPendingGap.commit cost record).records = r.records ++
        ((ring.flushPendingGap sh.tail).2 ++ ring.dataCapacity.commit
          ((sh.tail + ring.gapCost sh.tail) % cursorModulus) recLen cost record).flatMap published ∧
      (r.flushPendingGap.commit cost record).Is (ring.flushPendingGap sh.tail).1
        (Called.done ⟨(ring.flushPendingGap sh.tail).1, sh, (ring.flushPendingGap sh.tail).2 ++
          ring.dataCapacity.commit ((sh.tail + ring.gapCost sh.tail) % cursorModulus) recLen cost
            record⟩) := by
  obtain ⟨hrecords, htail, his⟩ := h.flushPendingGap
  obtain ⟨hrecords', his'⟩ := his.commit recLen cost record htail.symm
  rw [flushPendingGap_dataCapacity] at hrecords' his'
  rw [hrecords', hrecords, flatMap_append, append_assoc]
  refine ⟨rfl, ?_⟩
  rw [Called.done, tailAfter_append]
  exact his'

/-- A push of the writer is a push of the ring. -/
theorem push_ok {outcome : PushOutcome} {r' : Ring}
    (hpush : r.push kind timestampNs streamOffset payload = .ok (outcome, r')) :
    ∃ c, ring.push sh kind timestampNs (.ofNat streamOffset) payload = .ok (outcome, c) ∧
      r'.records = r.records ++ c.actions.flatMap published ∧ r'.Is c.ring c.done := by
  simp only [Ring.push] at hpush
  simp only [SinkRing.push, h.gapCost, h.capacity, h.costAt, h.fill]
  split at hpush
  · cases hpush
  next hlong =>
  rw [if_neg (show ¬ maxPayloadBytes r.capacity.value < payload.length from hlong)]
  split at hpush
  · next hfull =>
    rw [if_pos hfull, h.mode]
    split at hpush
    · next hblock =>
      cases hpush
      rw [if_neg hblock]
      exact ⟨_, rfl, (append_nil _).symm, h⟩
    · next hdrop =>
      cases hpush
      rw [if_pos (not_not.mp hdrop)]
      refine ⟨_, rfl, (append_nil _).symm, ⟨h.capacity, h.mode, h.tail, h.head, h.state, ?_, ?_⟩⟩
      · exact congrArg (· + 1) h.gapRecords
      · simp only [SinkRing.noteDrop, h.gapRecords, h.gapStart]
        split <;> rfl
  · next hroom =>
    cases hpush
    rw [if_neg hroom]
    obtain ⟨hrecords, his⟩ := h.commit_behind
      (align8 (recordHeaderBytes + payload.length))
      (r.costAt r.gapCost (align8 (recordHeaderBytes + payload.length)))
      ⟨kind.toByte, timestampNs, .ofNat streamOffset, payload, 0⟩
    rw [h.gapCost, h.capacity] at hrecords his
    exact ⟨_, rfl, hrecords, his⟩

theorem push_error {message : String}
    (hpush : r.push kind timestampNs streamOffset payload = .error message) :
    ring.push sh kind timestampNs (.ofNat streamOffset) payload = .error message := by
  simp only [Ring.push] at hpush
  split at hpush
  · next hlong =>
    cases hpush
    rw [SinkRing.push, h.capacity]
    exact if_pos hlong
  · split at hpush
    · split at hpush <;> cases hpush
    · cases hpush

/-- So is a terminal record. -/
theorem pushTerminal_is :
    let c := (ring.pushTerminal sh kind timestampNs (.ofNat streamOffset) payload aux).2
    (r.pushTerminal kind timestampNs streamOffset payload aux).records =
        r.records ++ c.actions.flatMap published ∧
      (r.pushTerminal kind timestampNs streamOffset payload aux).Is c.ring c.done := by
  simp only [Ring.pushTerminal, SinkRing.pushTerminal, h.gapCost, h.state, h.gapRecords, h.capacity,
    h.costAt, h.fill]
  by_cases hactive : r.state ≠ stateActive
  · simp only [if_pos hactive]
    exact ⟨(append_nil _).symm, h⟩
  simp only [if_neg hactive]
  by_cases hdisclose : 0 < r.pendingGapRecords ∧ r.fill + r.gapCost + r.costAt r.gapCost
      (align8 (recordHeaderBytes + payload.length)) ≤ r.capacity.value
  · have htail := h.flushPendingGap.2.1
    have hcap : r.flushPendingGap.capacity = r.capacity := by
      rw [Ring.flushPendingGap]
      split <;> rfl
    have hcost : r.capacity.costAt ((sh.tail + r.gapCost) % cursorModulus)
        (align8 (recordHeaderBytes + payload.length)) =
          r.flushPendingGap.costAt 0 (align8 (recordHeaderBytes + payload.length)) := by
      rw [Ring.costAt, hcap, ← h.gapCost, ← htail]
      simp
    obtain ⟨hrecords, his⟩ := h.commit_behind
      (align8 (recordHeaderBytes + payload.length))
      (r.flushPendingGap.costAt 0 (align8 (recordHeaderBytes + payload.length)))
      ⟨kind.toByte, timestampNs, .ofNat streamOffset, payload, aux⟩
    rw [h.gapCost, h.capacity] at hrecords his
    simp only [if_pos hdisclose, hcost]
    exact ⟨hrecords, { his with state := rfl }⟩
  · obtain ⟨hrecords, his⟩ := h.commit (align8 (recordHeaderBytes + payload.length))
      (r.costAt 0 (align8 (recordHeaderBytes + payload.length)))
      ⟨kind.toByte, timestampNs, .ofNat streamOffset, payload, aux⟩ h.tail
    have hcost : r.capacity.costAt sh.tail (align8 (recordHeaderBytes + payload.length)) =
        r.costAt 0 (align8 (recordHeaderBytes + payload.length)) := by
      rw [Ring.costAt, h.tail]
      simp
    rw [h.capacity] at hrecords his
    simp only [if_neg hdisclose, hcost]
    exact ⟨hrecords, { his with state := rfl }⟩

end

end Ring.Is

end Wasm

end WebTransportBun.Sink
