/-
  WebTransportBun.Native.Config

  What several parts of the native crate read: the limits of a server or client
  (`crates/native/src/limits.rs`) with the JSON they come from, and addresses.  Numbers are
  `u64` in the source; where one is compared with a counter it is taken modulo `2 ^ 64`.
-/

import Mathlib.Init

namespace WebTransportBun.Native

inductive IpAddr
  | v4 (a b c d : UInt8)
  | v6 (s0 s1 s2 s3 s4 s5 s6 s7 : UInt16)
  deriving DecidableEq, Repr

/-- The address a peer has: an IPv4-mapped IPv6 address is that of an IPv4 peer. -/
def IpAddr.canonical : IpAddr → IpAddr
  | .v4 a b c d => .v4 a b c d
  | .v6 s0 s1 s2 s3 s4 s5 s6 s7 =>
    if s0 = 0 ∧ s1 = 0 ∧ s2 = 0 ∧ s3 = 0 ∧ s4 = 0 ∧ s5 = 0xffff then
      .v4 (s6 >>> 8).toUInt8 s6.toUInt8 (s7 >>> 8).toUInt8 s7.toUInt8
    else .v6 s0 s1 s2 s3 s4 s5 s6 s7

/-- An address that is reported as an IPv4-mapped IPv6 address. -/
def IpAddr.Mapped (ip : IpAddr) : Prop := ip.canonical ≠ ip

instance (ip : IpAddr) : Decidable ip.Mapped := inferInstanceAs (Decidable (_ ≠ _))

/-! ## JSON -/

/-- `serde_json::Value`; of the numbers, those that are a `u64` are told from the others. -/
inductive Json
  | null
  | bool (b : Bool)
  | number (n : Nat)
  | otherNumber (text : String)
  | string (s : String)
  | array (items : List Json)
  | object (fields : List (String × Json))

namespace Json

def get (key : String) : Json → Option Json
  | .object fields => fields.lookup key
  | _ => none

def asBool : Json → Option Bool
  | .bool b => some b
  | _ => none

def asU64 : Json → Option Nat
  | .number n => some n
  | _ => none

def asStr : Json → Option String
  | .string s => some s
  | _ => none

def asArray : Json → Option (List Json)
  | .array items => some items
  | _ => none

def flag (key : String) (opts : Json) : Bool := ((opts.get key).bind asBool).getD false

def u64 (key : String) (opts : Json) : Option Nat := (opts.get key).bind asU64

end Json

/-! ## Limits -/

structure Limits where
  maxSessions : Nat := 2000
  maxHandshakesInFlight : Nat := 200
  maxStreamsPerSessionBidi : Nat := 200
  maxStreamsPerSessionUni : Nat := 200
  maxStreamsGlobal : Nat := 50000
  maxDatagramSize : Nat := 1200
  maxQueuedBytesGlobal : Nat := 512 * 1024 * 1024
  maxQueuedBytesPerSession : Nat := 2 * 1024 * 1024
  maxQueuedBytesPerStream : Nat := 256 * 1024
  streamReceiveWindow : Option Nat := none
  receiveWindow : Option Nat := none
  sendWindow : Option Nat := none
  backpressureTimeoutMs : Nat := 5000
  handshakeTimeoutMs : Nat := 10000
  idleTimeoutMs : Nat := 60000
  keepAliveIntervalMs : Option Nat := none
  deriving DecidableEq, Repr

def positiveU64 (key : String) (v : Json) : Option Nat := (v.u64 key).filter (0 < ·)

def Limits.fromJson (v : Json) : Limits :=
  let lim : Limits := {}
  { maxSessions := ((v.u64 "maxSessions").map (max · 1)).getD lim.maxSessions
    maxHandshakesInFlight :=
      ((v.u64 "maxHandshakesInFlight").map (max · 1)).getD lim.maxHandshakesInFlight
    maxStreamsPerSessionBidi :=
      (v.u64 "maxStreamsPerSessionBidi").getD lim.maxStreamsPerSessionBidi
    maxStreamsPerSessionUni := (v.u64 "maxStreamsPerSessionUni").getD lim.maxStreamsPerSessionUni
    maxStreamsGlobal := (v.u64 "maxStreamsGlobal").getD lim.maxStreamsGlobal
    maxDatagramSize := ((v.u64 "maxDatagramSize").map (max · 1)).getD lim.maxDatagramSize
    maxQueuedBytesGlobal := (v.u64 "maxQueuedBytesGlobal").getD lim.maxQueuedBytesGlobal
    maxQueuedBytesPerSession :=
      (v.u64 "maxQueuedBytesPerSession").getD lim.maxQueuedBytesPerSession
    maxQueuedBytesPerStream := (v.u64 "maxQueuedBytesPerStream").getD lim.maxQueuedBytesPerStream
    streamReceiveWindow := positiveU64 "streamReceiveWindow" v
    receiveWindow := positiveU64 "receiveWindow" v
    sendWindow := positiveU64 "sendWindow" v
    backpressureTimeoutMs :=
      ((v.u64 "backpressureTimeoutMs").map (max · 100)).getD lim.backpressureTimeoutMs
    handshakeTimeoutMs :=
      ((v.u64 "handshakeTimeoutMs").map (max · 100)).getD lim.handshakeTimeoutMs
    idleTimeoutMs := ((v.u64 "idleTimeoutMs").map (max · 1000)).getD lim.idleTimeoutMs
    keepAliveIntervalMs :=
      ((v.u64 "keepAliveIntervalMs").map fun n => if 0 < n then some n else none).getD
        lim.keepAliveIntervalMs }

end WebTransportBun.Native
