/-
  WebTransportBun.Wasm.Capsule

  Session capsules on a CONNECT stream (`crates/wasm/src/capsule.rs`): the two capsules
  of the WebTransport session, their encoding, and the assembler that pops them from the
  payloads of DATA frames.
-/

import WebTransportBun.Wasm.Qpack.Prim

namespace WebTransportBun.Wasm

open Qpack

def capsuleCloseWtSession : Nat := 0x2843

def capsuleDrainWtSession : Nat := 0x78ae

def maxReasonLen : Nat := 1024

def maxCapsuleValueLen : Nat := 4 + maxReasonLen

inductive Capsule
  | close (code : Nat) (reason : String)
  | drain
  deriving DecidableEq, Repr

inductive CapsuleError
  | closeLength
  | closeUtf8
  | tooLarge
  deriving DecidableEq, Repr

/-! ## Encoding -/

/-- The back-up loop of `truncate_reason`: continuation bytes are `10xxxxxx`. -/
def charBoundary (reason : Bytes) : Nat → Nat
  | 0 => 0
  | n + 1 => if reason.getD (n + 1) 0 &&& 0xC0 = 0x80 then charBoundary reason n else n + 1

def truncateReason (reason : Bytes) : Bytes :=
  if reason.length ≤ maxReasonLen then reason else reason.take (charBoundary reason maxReasonLen)

/-- `encode_capsule`; the frame of `into_data_frame` has the same shape. -/
def encodeCapsule (kind : Nat) (value : Bytes) : Bytes := frameWrap kind value

def encodeClose (code : Nat) (reason : Bytes) : Bytes :=
  encodeCapsule capsuleCloseWtSession (Varint.toBeBytes 4 code ++ truncateReason reason)

def encodeDrain : Bytes := encodeCapsule capsuleDrainWtSession []

def intoDataFrame (capsule : Bytes) : Bytes := frameWrap 0x00 capsule

def closeDataFrame (code : Nat) (reason : Bytes) : Bytes := intoDataFrame (encodeClose code reason)

def drainDataFrame : Bytes := intoDataFrame encodeDrain

/-! ## Parsing -/

inductive CapsuleParse
  | parsed (capsule : Capsule) (consumed : Nat)
  | skipped (consumed : Nat)
  | incomplete
  | error (e : CapsuleError)
  deriving DecidableEq, Repr

/-- Big-endian value of the bytes (`from_be_bytes`). -/
def beValue (bytes : Bytes) : Nat := bytes.foldl (fun v b => v * 256 + b.toNat) 0

def parseCloseValue (value : Bytes) : Except CapsuleError Capsule :=
  if value.length < 4 ∨ 4 + maxReasonLen < value.length then .error .closeLength
  else
    match fromUtf8 (value.drop 4) with
    | none => .error .closeUtf8
    | some reason => .ok (.close (beValue (value.take 4)) reason)

/-- `parse_capsule`: the capsule at the front of `buf`, which is not consumed. -/
def parseCapsule (buf : Bytes) : CapsuleParse :=
  match frameHeader buf with
  | none => .incomplete
  | some (kind, len, header) =>
    if maxCapsuleValueLen < len then .error .tooLarge
    else
      let total := header + len
      if buf.length < total then .incomplete
      else
        let value := (buf.take total).drop header
        if kind = capsuleCloseWtSession then
          match parseCloseValue value with
          | .ok capsule => .parsed capsule total
          | .error e => .error e
        else if kind = capsuleDrainWtSession then .parsed .drain total
        else .skipped total

/-- The loop of `CapsuleAssembler::next` over the buffered bytes.  A skipped capsule takes
    at least two bytes, so the length of the buffer bounds the rounds. -/
def nextCapsuleLoop : Nat → Bytes → Except CapsuleError (Option Capsule) × Bytes
  | 0, buf => (.ok none, buf)
  | fuel + 1, buf =>
    match parseCapsule buf with
    | .parsed capsule consumed => (.ok (some capsule), buf.drop consumed)
    | .skipped consumed => nextCapsuleLoop fuel (buf.drop consumed)
    | .incomplete => (.ok none, buf)
    | .error e => (.error e, buf)

/-- `CapsuleAssembler::next`: the capsule popped and the bytes left in the assembler. -/
def nextCapsule (buf : Bytes) : Except CapsuleError (Option Capsule) × Bytes :=
  nextCapsuleLoop (buf.length + 1) buf

end WebTransportBun.Wasm
