/-
  WebTransportBun.Wasm.RateLimiter

  The per-peer token buckets of the wasm endpoint (`PeerRateLimiter` in
  `crates/wasm/src/governor.rs`).

  Times are nanoseconds on the host's monotonic clock.  Token counts are `u128` fixed
  point in the source; no sum or product here comes near `2 ^ 128` for a 32-bit rate and
  any clock that fits `u64` nanoseconds, so the saturating operations are plain ones.
-/

import WebTransportBun.Library.Map
import WebTransportBun.Wasm.Limits

namespace WebTransportBun.Wasm

open Library

/-! ## Peers -/

inductive IpAddr
  | v4 (ip : BitVec 32)
  | v6 (ip : BitVec 128)
  deriving DecidableEq, Repr

structure SocketAddr where
  ip : IpAddr
  port : Nat
  deriving DecidableEq, Repr

/-- The bucket key of a peer: an IPv4-mapped IPv6 address is its IPv4 address. -/
structure PeerKey where
  ip : IpAddr
  deriving DecidableEq, Repr

/-- The /24 or /64 an address falls in. -/
structure PrefixKey where
  ip : IpAddr
  deriving DecidableEq, Repr

namespace PeerKey

def fromSocketAddr (addr : SocketAddr) : PeerKey :=
  match addr.ip with
  | .v4 ip => ⟨.v4 ip⟩
  | .v6 ip =>
    -- `to_ipv4_mapped`: `::ffff:a.b.c.d`
    if ip >>> 32 = 0xffff#128 then ⟨.v4 (ip.truncate 32)⟩ else ⟨.v6 ip⟩

def aggregate (peer : PeerKey) : PrefixKey :=
  match peer.ip with
  | .v4 ip => ⟨.v4 (ip &&& (BitVec.allOnes 32 <<< 8))⟩
  | .v6 ip => ⟨.v6 (ip &&& (BitVec.allOnes 128 <<< 64))⟩

end PeerKey

/-! ## Token buckets -/

def rateLimitFpScale : Nat := 1000000

def minRateLimitBucketCap : Nat := 64

def aggregateRateMultiplier : Nat := 8

structure TokenBucketConfig where
  ratePerSec : Nat
  burst : Nat
  deriving DecidableEq, Repr

inductive RateLimitDimension
  | handshake
  | streamOpen
  | datagramIngress
  deriving DecidableEq, Repr

namespace RateLimitDimension

def errorLabel : RateLimitDimension → String
  | handshake => "handshakes"
  | streamOpen => "streamOpens"
  | datagramIngress => "datagramsIngress"

def bucketConfig (limits : WasmRateLimits) : RateLimitDimension → TokenBucketConfig
  | handshake => ⟨limits.handshakesPerSec.toNat, limits.handshakesBurst.toNat⟩
  | streamOpen => ⟨limits.streamOpensPerSec.toNat, limits.streamOpensBurst.toNat⟩
  | datagramIngress => ⟨limits.datagramsIngressPerSec.toNat, limits.datagramsIngressBurst.toNat⟩

/-- `u32::saturating_mul` with the aggregate multiplier. -/
def scaled (n : Nat) : Nat := min (n * aggregateRateMultiplier) (2 ^ 32 - 1)

def aggregateBucketConfig (limits : WasmRateLimits) (d : RateLimitDimension) :
    TokenBucketConfig :=
  ⟨scaled (d.bucketConfig limits).ratePerSec, scaled (d.bucketConfig limits).burst⟩

end RateLimitDimension

structure TokenBucketState where
  tokensFp : Nat
  lastRefill : Nat
  deriving DecidableEq, Repr

namespace TokenBucketState

def new (now : Nat) (config : TokenBucketConfig) : TokenBucketState :=
  ⟨config.burst * rateLimitFpScale, now⟩

section

variable (b : TokenBucketState)

/-- `refill`.  A clock that went backwards counts as no time passed. -/
def refill (now : Nat) (config : TokenBucketConfig) : TokenBucketState :=
  let elapsed := now - b.lastRefill
  let refillFp := elapsed * config.ratePerSec * rateLimitFpScale / 1000000000
  if elapsed = 0 ∨ refillFp = 0 then b
  else ⟨min (b.tokensFp + refillFp) (config.burst * rateLimitFpScale), now⟩

def peek (now : Nat) (config : TokenBucketConfig) :
    Bool × TokenBucketState :=
  let b := b.refill now config
  (rateLimitFpScale ≤ b.tokensFp, b)

def spend : TokenBucketState :=
  { b with tokensFp := b.tokensFp - rateLimitFpScale }

end

end TokenBucketState

/-- One bucket per dimension, and the connections that keep it alive. -/
structure PeerBucket where
  bucket : RateLimitDimension → TokenBucketState
  ownerCount : Nat
  lastTouched : Nat

namespace PeerBucket

def withConfig (now : Nat) (config : RateLimitDimension → TokenBucketConfig) : PeerBucket :=
  { bucket := fun d => .new now (config d), ownerCount := 0, lastTouched := now }

def mapBucket (b : PeerBucket) (d : RateLimitDimension)
    (f : TokenBucketState → TokenBucketState) : PeerBucket :=
  { b with bucket := fun d' => if d' = d then f (b.bucket d) else b.bucket d' }

/-- Whether the bucket survives `evict_idle_zero_owner`. -/
def live (b : PeerBucket) (now idleTtl : Nat) : Bool :=
  0 < b.ownerCount || now - b.lastTouched < idleTtl

/-- One owner more or less, seen at `now`. -/
def setOwners (b : PeerBucket) (ownerCount now : Nat) : PeerBucket :=
  { b with ownerCount, lastTouched := now }

end PeerBucket

/-! ## The limiter -/

structure PeerRateLimiter where
  rateLimits : WasmRateLimits
  idleTtl : Nat
  maxBuckets : Nat
  buckets : Map PeerKey PeerBucket := ∅
  prefixBuckets : Map PrefixKey PeerBucket := ∅
  connectionOwners : Map Nat PeerKey := ∅
  rateLimitedCount : RateLimitDimension → Nat := fun _ => 0
  rateLimitedByPrefixCount : Nat := 0

namespace PeerRateLimiter

def bucketCap (limits : WasmLimits) : Nat :=
  max (max (min (limits.maxSessions.toNat * 2) usizeMax)
    (min (limits.maxHandshakesInFlight.toNat * 2) usizeMax)) minRateLimitBucketCap

def new (rateLimits : WasmRateLimits) (limits : WasmLimits) : Except String PeerRateLimiter := do
  limits.validate
  rateLimits.validate
  return {
    rateLimits
    idleTtl := limits.idleTimeoutMs.toNat * 1000000
    maxBuckets := bucketCap limits }

section

variable (l : PeerRateLimiter)

def clear : PeerRateLimiter :=
  { l with buckets := ∅, prefixBuckets := ∅, connectionOwners := ∅ }

def evictIdleZeroOwner (now : Nat) : PeerRateLimiter :=
  { l with
    buckets := l.buckets.filter fun _ b => b.live now l.idleTtl
    prefixBuckets := l.prefixBuckets.filter fun _ b => b.live now l.idleTtl }

def bumpCounter (d : RateLimitDimension) : PeerRateLimiter :=
  { l with rateLimitedCount := fun d' =>
      if d' = d then l.rateLimitedCount d + 1 else l.rateLimitedCount d' }

def ensureBucket (now : Nat) (peer : PeerKey) (d : RateLimitDimension) :
    Except String Unit × PeerRateLimiter :=
  let l := l.evictIdleZeroOwner now
  if l.buckets.contains peer then (.ok (), l)
  else if l.maxBuckets ≤ l.buckets.size then
    (.error "E_RATE_LIMITED: peer rate limit bucket capacity reached", l.bumpCounter d)
  else
    let fresh := PeerBucket.withConfig now fun d => d.bucketConfig l.rateLimits
    (.ok (), { l with buckets := l.buckets.insert peer fresh })

/-- `ensure_prefix_bucket`; unlike `ensure_bucket` it evicts nothing itself. -/
def ensurePrefixBucket (now : Nat) (pre : PrefixKey)
    (d : RateLimitDimension) : Except String Unit × PeerRateLimiter :=
  if l.prefixBuckets.contains pre then (.ok (), l)
  else if l.maxBuckets ≤ l.prefixBuckets.size then
    (.error "E_RATE_LIMITED: peer prefix rate limit bucket capacity reached",
      { l.bumpCounter d with rateLimitedByPrefixCount := l.rateLimitedByPrefixCount + 1 })
  else
    let fresh := PeerBucket.withConfig now fun d => d.aggregateBucketConfig l.rateLimits
    (.ok (), { l with prefixBuckets := l.prefixBuckets.insert pre fresh })

end

/-- Touch a bucket at `now`, and whether it has a token of dimension `d`. -/
def peekIn {K : Type} [DecidableEq K] (buckets : Map K PeerBucket) (key : K) (now : Nat)
    (d : RateLimitDimension) (config : TokenBucketConfig) : Bool × Map K PeerBucket :=
  match buckets.get? key with
  | none => (false, buckets)
  | some b =>
    let (ready, token) := (b.bucket d).peek now config
    (ready, buckets.insert key { b.mapBucket d fun _ => token with lastTouched := now })

section

variable (l : PeerRateLimiter)

/-- `check_peer`: both buckets are peeked before either is charged. -/
def checkPeer (now : Nat) (peer : PeerKey) (d : RateLimitDimension) :
    Except String Unit × PeerRateLimiter :=
  match l.ensureBucket now peer d with
  | (.error e, l) => (.error e, l)
  | (.ok (), l) =>
    match l.ensurePrefixBucket now peer.aggregate d with
    | (.error e, l) => (.error e, l)
    | (.ok (), l) =>
      let (peerReady, buckets) := peekIn l.buckets peer now d (d.bucketConfig l.rateLimits)
      let (prefixReady, prefixBuckets) :=
        peekIn l.prefixBuckets peer.aggregate now d (d.aggregateBucketConfig l.rateLimits)
      let l := { l with buckets, prefixBuckets }
      if peerReady ∧ prefixReady then
        (.ok (), { l with
          buckets := l.buckets.modify peer fun b => b.mapBucket d .spend
          prefixBuckets := l.prefixBuckets.modify peer.aggregate fun b =>
            b.mapBucket d .spend })
      else
        let l := l.bumpCounter d
        if !prefixReady then
          (.error (s!"E_RATE_LIMITED: {d.errorLabel} rate limit reached" ++
              " for the peer's network prefix"),
            { l with rateLimitedByPrefixCount := l.rateLimitedByPrefixCount + 1 })
        else (.error s!"E_RATE_LIMITED: {d.errorLabel} rate limit reached", l)

def check (now : Nat) (source : SocketAddr) (d : RateLimitDimension) :
    Except String Unit × PeerRateLimiter :=
  l.checkPeer now (.fromSocketAddr source) d

def checkConnection (now conn : Nat) (d : RateLimitDimension) :
    Except String Unit × PeerRateLimiter :=
  match l.connectionOwners.get? conn with
  | none =>
    (.error s!"E_INTERNAL: missing peer ownership for {d.errorLabel} rate limiting", l)
  | some peer => l.checkPeer now peer d

def decrementOwner (peer : PeerKey) (now : Nat) : PeerRateLimiter :=
  { l with
    buckets := l.buckets.modify peer fun b => b.setOwners (b.ownerCount - 1) now
    prefixBuckets := l.prefixBuckets.modify peer.aggregate fun b =>
      b.setOwners (b.ownerCount - 1) now }.evictIdleZeroOwner now

def releaseConnection (conn now : Nat) : PeerRateLimiter :=
  match l.connectionOwners.get? conn with
  | none => l
  | some peer =>
    { l with connectionOwners := l.connectionOwners.erase conn }.decrementOwner peer now

/-- `attach_connection`.  When the prefix map is full the peer bucket has already been
    counted up. -/
def attachConnection (conn : Nat) (source : SocketAddr) (now : Nat) :
    Except String Unit × PeerRateLimiter :=
  let l := l.releaseConnection conn now
  let peer := PeerKey.fromSocketAddr source
  match l.ensureBucket now peer .handshake with
  | (.error e, l) => (.error e, l)
  | (.ok (), l) =>
    let l := { l with
      buckets := l.buckets.modify peer fun b => b.setOwners (b.ownerCount + 1) now }
    match l.ensurePrefixBucket now peer.aggregate .handshake with
    | (.error e, l) => (.error e, l)
    | (.ok (), l) =>
      (.ok (), { l with
        prefixBuckets := l.prefixBuckets.modify peer.aggregate fun b =>
          b.setOwners (b.ownerCount + 1) now
        connectionOwners := l.connectionOwners.insert conn peer })

end

end PeerRateLimiter

end WebTransportBun.Wasm
