/-
  WebTransportBun.Wasm.Limits

  The resource limits of the wasm endpoint (`crates/wasm/src/governor.rs`,
  `WasmLimits` and `WasmRateLimits`) with their defaults and validators.

  The crate is compiled for wasm32, so a `usize` field is a 32-bit word here; the
  millisecond fields are `u64` as in the source.  A validator runs its checks in the
  order of the source and reports the first one that fails.
-/

import Mathlib.Data.UInt
import WebTransportBun.Library.Checks

namespace WebTransportBun.Wasm

def usizeMax : Nat := 2 ^ 32 - 1

/-- `i32::MAX as u64`: the longest delay a host timer takes. -/
def hostTimerMaxMs : Nat := 2 ^ 31 - 1

structure WasmLimits where
  maxSessions : UInt32 := 2000
  maxHandshakesInFlight : UInt32 := 200
  maxStreamsPerSessionBidi : UInt32 := 200
  maxStreamsPerSessionUni : UInt32 := 200
  maxStreamsGlobal : UInt32 := 50000
  maxDatagramSize : UInt32 := 1200
  maxQueuedBytesGlobal : UInt32 := 512 * 1024 * 1024
  maxQueuedBytesPerSession : UInt32 := 2 * 1024 * 1024
  maxQueuedBytesPerStream : UInt32 := 256 * 1024
  backpressureTimeoutMs : UInt64 := 5000
  handshakeTimeoutMs : UInt64 := 10000
  idleTimeoutMs : UInt64 := 60000
  deriving DecidableEq, Repr

def ensureNot (bad : Bool) (msg : String) : Except String Unit :=
  if bad then .error msg else .ok ()


/-- Every named value must be positive; the first zero is reported by its name. -/
def positiveFields : List (String × Nat) → Except String Unit
  | [] => .ok ()
  | (name, value) :: rest =>
    if value = 0 then .error s!"E_INTERNAL: {name} must be a positive integer"
    else positiveFields rest

/-- Every named timeout must be positive and fit the host timer. -/
def timerFields : List (String × Nat) → Except String Unit
  | [] => .ok ()
  | (name, value) :: rest =>
    if value = 0 then .error s!"E_INTERNAL: {name} must be a positive integer"
    else if hostTimerMaxMs < value then
      .error s!"E_INTERNAL: {name} exceeds the supported host timer range"
    else timerFields rest

namespace WasmLimits

def validate (l : WasmLimits) : Except String Unit := do
  positiveFields [ ("maxSessions", l.maxSessions.toNat),
      ("maxHandshakesInFlight", l.maxHandshakesInFlight.toNat),
      ("maxStreamsPerSessionBidi", l.maxStreamsPerSessionBidi.toNat),
      ("maxStreamsPerSessionUni", l.maxStreamsPerSessionUni.toNat),
      ("maxStreamsGlobal", l.maxStreamsGlobal.toNat),
      ("maxDatagramSize", l.maxDatagramSize.toNat),
      ("maxQueuedBytesGlobal", l.maxQueuedBytesGlobal.toNat),
      ("maxQueuedBytesPerSession", l.maxQueuedBytesPerSession.toNat),
      ("maxQueuedBytesPerStream", l.maxQueuedBytesPerStream.toNat) ]
  timerFields [ ("backpressureTimeoutMs", l.backpressureTimeoutMs.toNat),
      ("handshakeTimeoutMs", l.handshakeTimeoutMs.toNat),
      ("idleTimeoutMs", l.idleTimeoutMs.toNat) ]
  ensureNot (l.maxQueuedBytesPerStream > l.maxQueuedBytesPerSession)
    "E_INTERNAL: maxQueuedBytesPerStream must be <= maxQueuedBytesPerSession"
  ensureNot (l.maxQueuedBytesPerSession > l.maxQueuedBytesGlobal)
    "E_INTERNAL: maxQueuedBytesPerSession must be <= maxQueuedBytesGlobal"
  ensureNot (l.maxStreamsPerSessionBidi > l.maxStreamsGlobal)
    "E_INTERNAL: maxStreamsPerSessionBidi must be <= maxStreamsGlobal"
  ensureNot (l.maxStreamsPerSessionUni > l.maxStreamsGlobal)
    "E_INTERNAL: maxStreamsPerSessionUni must be <= maxStreamsGlobal"
  ensureNot (l.handshakeTimeoutMs > l.idleTimeoutMs)
    "E_INTERNAL: handshakeTimeoutMs must be <= idleTimeoutMs"

/-- The defaults pass their own validator. -/
example : validate {} = .ok () := by decide

end WasmLimits

structure WasmRateLimits where
  handshakesPerSec : UInt32 := 20
  handshakesBurst : UInt32 := 40
  streamOpensPerSec : UInt32 := 200
  streamOpensBurst : UInt32 := 400
  datagramsIngressPerSec : UInt32 := 2000
  datagramsIngressBurst : UInt32 := 5000
  deriving DecidableEq, Repr

namespace WasmRateLimits

def validate (l : WasmRateLimits) : Except String Unit := do
  positiveFields [ ("rateLimits.handshakesPerSec", l.handshakesPerSec.toNat),
      ("rateLimits.handshakesBurst", l.handshakesBurst.toNat),
      ("rateLimits.streamOpensPerSec", l.streamOpensPerSec.toNat),
      ("rateLimits.streamOpensBurst", l.streamOpensBurst.toNat),
      ("rateLimits.datagramsIngressPerSec", l.datagramsIngressPerSec.toNat),
      ("rateLimits.datagramsIngressBurst", l.datagramsIngressBurst.toNat) ]
  ensureNot (l.handshakesBurst < l.handshakesPerSec)
    "E_INTERNAL: rateLimits.handshakesBurst must be >= rateLimits.handshakesPerSec"
  ensureNot (l.streamOpensBurst < l.streamOpensPerSec)
    "E_INTERNAL: rateLimits.streamOpensBurst must be >= rateLimits.streamOpensPerSec"
  ensureNot (l.datagramsIngressBurst < l.datagramsIngressPerSec)
    "E_INTERNAL: rateLimits.datagramsIngressBurst must be >= rateLimits.datagramsIngressPerSec"

/-- The defaults pass their own validator. -/
example : validate {} = .ok () := by decide

theorem rate_le_burst {l : WasmRateLimits} (h : l.validate = .ok ()) :
    l.handshakesPerSec.toNat ≤ l.handshakesBurst.toNat ∧
      l.streamOpensPerSec.toNat ≤ l.streamOpensBurst.toNat ∧
      l.datagramsIngressPerSec.toNat ≤ l.datagramsIngressBurst.toNat := by
  obtain ⟨_, -, h⟩ := Library.bind_eq_ok h
  obtain ⟨_, hhandshakes, h⟩ := Library.bind_eq_ok h
  obtain ⟨_, hstreams, h⟩ := Library.bind_eq_ok h
  have hle : ∀ {a b : UInt32} {msg : String} {u : Unit}, ensureNot (b < a) msg = .ok u →
      a.toNat ≤ b.toNat := by
    intro a b msg u hok
    rw [ensureNot] at hok
    split at hok
    · cases hok
    · next hlt => exact UInt32.not_lt.mp (by simpa using hlt)
  exact ⟨hle hhandshakes, hle hstreams, hle h⟩

end WasmRateLimits

end WebTransportBun.Wasm
