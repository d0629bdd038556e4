/-
  Sink.Layout

  The byte layout of the stream sink ring, as `stream_sink.rs` defines it and
  `sink-layout.ts` mirrors it: record types, the 32-byte record header and how a
  record is read back from the data region.
-/

import WebTransportBun.Library.Memory

namespace WebTransportBun.Sink

open Library

abbrev Bytes := List UInt8

def magic : Nat := 0x5754534B
def layoutVersion : Nat := 1
def dataOffset : Nat := 192
def recordHeaderBytes : Nat := 32
def reservedTailBytes : Nat := 128
def maxTerminalPayloadBytes : Nat := 32
def minDataCapacity : Nat := 1024
def maxDataCapacity : Nat := 2 ^ 30

/-- The ring cursors are `u32` words. -/
def cursorModulus : Nat := 2 ^ 32

def stateActive : Nat := 0
def stateTerminalCommitted : Nat := 1
def stateExited : Nat := 2

inductive RecordType
  | data
  | message
  | eof
  | error
  | reset
  | wrap
  | dropGap
  deriving DecidableEq, Repr

def RecordType.toByte : RecordType → UInt8
  | .data => 1
  | .message => 2
  | .eof => 3
  | .error => 4
  | .reset => 5
  | .wrap => 6
  | .dropGap => 7

def RecordType.isTerminal : RecordType → Bool
  | .eof | .error | .reset => true
  | _ => false

/-- What a record carries besides its length in the ring. -/
structure Record where
  kind : UInt8
  timestampNs : UInt64
  streamOffset : UInt64
  payload : Bytes
  aux : UInt32
  deriving DecidableEq, Repr

def Record.isTerminal (r : Record) : Bool :=
  r.kind == RecordType.eof.toByte || r.kind == RecordType.error.toByte ||
    r.kind == RecordType.reset.toByte

/-! ## Headers -/

def headerBytes (recLen : Nat) (kind : UInt8) (timestampNs streamOffset : UInt64)
    (payloadLen : Nat) (aux : UInt32) : Bytes :=
  leBytes 4 recLen ++ [kind, 0] ++ leBytes 2 0 ++ leBytes 8 timestampNs.toNat ++
    leBytes 8 streamOffset.toNat ++ leBytes 4 payloadLen ++ leBytes 4 aux.toNat

@[simp] theorem length_headerBytes (recLen : Nat) (kind : UInt8) (timestampNs streamOffset : UInt64)
    (payloadLen : Nat) (aux : UInt32) :
    (headerBytes recLen kind timestampNs streamOffset payloadLen aux).length =
      recordHeaderBytes := by
  simp [headerBytes, recordHeaderBytes]

def field (header : Bytes) (offset width : Nat) : Nat :=
  leValue ((header.drop offset).take width)

section

variable {recLen payloadLen : Nat} (kind : UInt8) (timestampNs streamOffset : UInt64) (aux : UInt32)

theorem field_recLen (h : recLen < cursorModulus) :
    field (headerBytes recLen kind timestampNs streamOffset payloadLen aux) 0 4 = recLen := by
  have hvalue : leValue (leBytes 4 recLen) = recLen := leValue_leBytes h
  simpa [field, headerBytes] using hvalue

theorem field_timestampNs :
    field (headerBytes recLen kind timestampNs streamOffset payloadLen aux) 8 8 =
      timestampNs.toNat := by
  have hvalue := leValue_leBytes (w := 8) timestampNs.toNat_lt
  simpa [field, headerBytes, leBytes] using hvalue

theorem field_streamOffset :
    field (headerBytes recLen kind timestampNs streamOffset payloadLen aux) 16 8 =
      streamOffset.toNat := by
  have hvalue := leValue_leBytes (w := 8) streamOffset.toNat_lt
  simpa [field, headerBytes, leBytes] using hvalue

theorem field_payloadLen (h : payloadLen < cursorModulus) :
    field (headerBytes recLen kind timestampNs streamOffset payloadLen aux) 24 4 = payloadLen := by
  have hvalue : leValue (leBytes 4 payloadLen) = payloadLen := leValue_leBytes h
  simpa [field, headerBytes, leBytes] using hvalue

theorem field_aux : field (headerBytes recLen kind timestampNs streamOffset payloadLen aux) 28 4 =
      aux.toNat := by
  have hvalue := leValue_leBytes (w := 4) aux.toNat_lt
  simpa [field, headerBytes, leBytes] using hvalue

end

end WebTransportBun.Sink
