/-
  WebTransportBun.Wasm.Endpoint.Quinn

  quinn-proto as the endpoint sees it.  The library is outside this repository, so its
  answers are left open: an `Env` fixes some function from calls to answers, with a
  state of its own, and every theorem about the endpoint holds for all of them.

  What quinn-proto promises is part of the type of an answer:

  - an endpoint without a server configuration takes no new connections;
  - a new connection handle is not one of a connection that is still in use;
  - a stream id is opened or accepted at most once per connection;
  - a client accepts streams only after the handshake, and `Connected` is reported at
    most once;
  - a chunk is no longer than the caller asked for.

  The hash tables of the endpoint are walked in an order the program does not fix; that
  order is one more answer of the environment (`order`), a permutation of the keys.
-/

import WebTransportBun.Wasm.H3
import WebTransportBun.Wasm.RateLimiter

namespace WebTransportBun.Wasm

inductive Side
  | client
  | server
  deriving DecidableEq, Repr

inductive Dir
  | bi
  | uni
  deriving DecidableEq, Repr

def streamInitiator (id : Nat) : Side := if id % 2 = 0 then .client else .server

def streamDir (id : Nat) : Dir := if id / 2 % 2 = 0 then .bi else .uni

/-- What quinn-proto's answers about a connection depend on: its side, the streams opened
    or accepted so far, and whether the handshake was reported. -/
structure Connection where
  side : Side
  streams : List Nat := []
  connected : Bool := false
  deriving DecidableEq, Repr

/-- `quinn_proto::ConnectionError`, as far as the endpoint tells its cases apart. -/
inductive ConnectionError
  | locallyClosed
  | applicationClosed (code : Nat)
  | timedOut
  | transportError (code : Nat)
  | connectionClosed (code : Nat)
  | other
  deriving DecidableEq, Repr

inductive QuicEvent
  | connected
  | opened (dir : Dir)
  | readable
  | stopped (id code : Nat)
  | datagramReceived
  | connectionLost (reason : ConnectionError)
  | other
  deriving DecidableEq, Repr

inductive DatagramEvent
  | newConnection
  | connectionEvent (h : Nat)
  | response (packet : Bytes) (destination : SocketAddr)
  deriving DecidableEq, Repr

inductive Readable
  | ok
  | closedStream
  | error
  deriving DecidableEq, Repr

inductive Chunk (maxLength : Nat)
  | data (bytes : { b : Bytes // b.length ≤ maxLength })
  | finished
  | reset (code : Nat)
  | error

inductive WriteError
  | blocked
  | other
  deriving DecidableEq, Repr

inductive SendDatagramError
  | tooLarge
  | other
  deriving DecidableEq, Repr

/-- The calls the endpoint makes, with the part of quinn-proto's state that binds the
    answer. -/
inductive QuicCall
  | now
  | order (keys : List Nat)
  | connect (live : List Nat) (serverName : String)
  | handle (isServer : Bool) (now : Nat) (source : SocketAddr) (packet : Bytes)
  | refuse
  | accept (live : List Nat) (now : Nat)
  | handleEvent (h : Nat)
  | poll (h : Nat) (conn : Connection)
  | openStream (h : Nat) (conn : Connection) (dir : Dir)
  | acceptStream (h : Nat) (conn : Connection) (dir : Dir)
  | write (h sid : Nat) (data : Bytes)
  | finish (h sid : Nat)
  | reset (h sid code : Nat)
  | stop (h sid code : Nat)
  | read (h sid : Nat)
  | nextChunk (h sid maxLength : Nat)
  | finalize (h sid : Nat)
  | recvDatagram (h : Nat)
  | sendDatagram (h : Nat) (data : Bytes)
  | maxDatagramSize (h : Nat)
  | close (h now code : Nat) (reason : Bytes)
  | pollTransmit (h now : Nat)
  | pollTimeout (h : Nat)
  | handleTimeout (h now : Nat)
  | drop (h : Nat)

def QuicCall.Reply : QuicCall → Type
  | now => Nat
  | order keys => { l : List Nat // l.Perm keys }
  | connect live _ => Option { h : Nat // h ∉ live }
  | handle isServer _ _ _ => Option { e : DatagramEvent // e = .newConnection → isServer = true }
  | refuse => Bytes × SocketAddr
  | accept live _ => Except (Option (Bytes × SocketAddr)) { h : Nat // h ∉ live }
  | poll _ conn => Option { e : QuicEvent // e = .connected → conn.connected = false }
  | openStream _ conn _ => Option { id : Nat // id ∉ conn.streams }
  | acceptStream _ conn _ =>
    Option { id : Nat // id ∉ conn.streams ∧ (conn.side = .client → conn.connected = true) }
  | write _ _ _ => Except WriteError Nat
  | read _ _ => Readable
  | nextChunk _ _ maxLength => Chunk maxLength
  | recvDatagram _ => Option Bytes
  | sendDatagram _ _ => Except SendDatagramError Unit
  | maxDatagramSize _ => Option Nat
  | pollTransmit _ _ => Option (Bytes × SocketAddr)
  | pollTimeout _ => Option Nat
  | handleEvent _ | finish _ _ | reset _ _ _ | stop _ _ _ | finalize _ _ | close _ _ _ _
  | handleTimeout _ _ | drop _ => Unit

/-- What the endpoint runs in: quinn-proto over a state `W`, the Huffman decoder of the
    `httlib-huffman` crate, and a bound for the loops that have none of their own. -/
structure Env (W : Type) where
  quinn : (c : QuicCall) → W → c.Reply × W
  huffman : Bytes → Option Bytes
  fuel : Nat

/-! ## Reports of a lost connection -/

/-- `tls_alert_error`: QUIC wraps a TLS alert as `0x100 + alert`. -/
def tlsAlertError (reason : ConnectionError) : Option String :=
  let code : Option Nat := match reason with
    | .transportError code => some code
    | .connectionClosed code => some code
    | _ => none
  match code with
  | none => none
  | some code =>
    if 0x100 ≤ code ∧ code < 0x200 then
      let alert := code - 0x100
      some s!"E_TLS: handshake failed with TLS alert {alert}"
    else none

/-- `connection_lost_signal`: the error to report and the close code; `none` when the
    close was local and has been reported. -/
def connectionLostSignal : ConnectionError → Option (Option String × Nat)
  | .locallyClosed => none
  | .applicationClosed code => some (none, min code (2 ^ 32 - 1))
  | .timedOut => some (some "E_SESSION_IDLE_TIMEOUT: connection idle timeout", 0)
  | reason => some (tlsAlertError reason, 0)

end WebTransportBun.Wasm
