/-
  WebTransportBun.Wasm.Event

  The events that the wasm endpoint surfaces to its host (`crates/wasm/src/event.rs`)
  and their wire form.  Connection and stream handles are `u32` in the source and
  session ids `u64`; both are numbers here.
-/

import WebTransportBun.Wasm.Qpack.Prim

namespace WebTransportBun.Wasm

open Qpack Varint

inductive WtEvent
  | connected (conn : Nat)
  | sessionEstablished (conn sessionId : Nat)
  | datagram (conn sessionId : Nat) (data : Bytes)
  | connectionClosed (conn code : Nat)
  | streamOpened (conn sessionId stream : Nat) (bidi : Bool)
  | streamData (conn stream : Nat) (fin : Bool) (data : Bytes)
  | streamReset (conn stream code : Nat)
  | streamStopped (conn stream code : Nat)
  | sessionClosed (conn sessionId code : Nat) (reason : String)
  | sessionDraining (conn sessionId : Nat)
  deriving DecidableEq, Repr

namespace WtEvent

def conn : WtEvent → Nat
  | connected conn | sessionEstablished conn _ | datagram conn _ _ | connectionClosed conn _
  | streamOpened conn _ _ _ | streamData conn _ _ _ | streamReset conn _ _
  | streamStopped conn _ _ | sessionClosed conn _ _ _ | sessionDraining conn _ => conn

def tag : WtEvent → UInt8
  | connected .. => 1
  | sessionEstablished .. => 2
  | datagram .. => 3
  | connectionClosed .. => 4
  | streamOpened .. => 5
  | streamData .. => 6
  | streamReset .. => 7
  | streamStopped .. => 8
  | sessionClosed .. => 9
  | sessionDraining .. => 10

def lengthPrefixed (data : Bytes) : Bytes := encode data.length ++ data

/-- What follows the tag and the connection id.  A payload event ends with the token the
    host gives back; zero stands for none. -/
def fields (hostToken : Option Nat) : WtEvent → Bytes
  | connected _ => []
  | sessionEstablished _ sessionId => encode sessionId
  | datagram _ sessionId data =>
    encode sessionId ++ lengthPrefixed data ++ encode (hostToken.getD 0)
  | connectionClosed _ code => encode code
  | streamOpened _ sessionId stream bidi =>
    encode sessionId ++ encode stream ++ [if bidi then 1 else 0]
  | streamData _ stream fin data =>
    encode stream ++ [if fin then 1 else 0] ++ lengthPrefixed data ++
      encode (hostToken.getD 0)
  | streamReset _ stream code => encode stream ++ encode code
  | streamStopped _ stream code => encode stream ++ encode code
  | sessionClosed _ sessionId code reason =>
    encode sessionId ++ encode code ++ lengthPrefixed (strBytes reason)
  | sessionDraining _ sessionId => encode sessionId

def encodeWithHostToken (ev : WtEvent) (hostToken : Option Nat) : Bytes :=
  ev.tag :: (encode ev.conn ++ ev.fields hostToken)

/-- The queue that a payload event is charged to: its connection, its stream if it has
    one, and the bytes.  An empty FIN is free; any other payload costs at least one byte
    (`datagram_event_charge`, `stream_event_charge`). -/
def charge : WtEvent → Option (Nat × Option Nat × Nat)
  | datagram conn _ data => some (conn, none, max data.length 1)
  | streamData conn stream fin data =>
    some (conn, some stream, if data.isEmpty && fin then 0 else max data.length 1)
  | _ => none

end WtEvent

end WebTransportBun.Wasm
