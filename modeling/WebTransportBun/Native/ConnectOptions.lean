/-
  WebTransportBun.Native.ConnectOptions

  How a native connect gets from its options to a client endpoint: `run_connect` in
  `crates/native/src/client.rs` with the configuration it builds, `limits.rs`,
  `transport_memory.rs`, and the key under which a pooled endpoint is found.

  What the crates do is a parameter (`Env`): URLs, IP addresses, SHA-256, PEM files and the
  platform's roots.  An endpoint stands for the configuration it is built from; a
  configuration records what was set, and what was not keeps its default.  Numbers of the
  options are `u64` in the source and never overflow here.  The 0-RTT path is left out.
-/

import WebTransportBun.Library.Checks
import WebTransportBun.Native.ClientPool
import WebTransportBun.Native.Config

namespace WebTransportBun.Native.ConnectOptions

open Library

/-! ## Options -/

/-- `parse_client_limits`; `opts` is what `serde_json` makes of the options' text. -/
def parseClientLimits (opts : Except String Json) : Except String Limits :=
  match opts with
  | .error e => .error ("E_INTERNAL: invalid client options JSON: " ++ e)
  | .ok parsed =>
    match parsed.get "limits" with
    | some limits => .ok (.fromJson limits)
    | none => .ok {}

inductive CongestionControlMode
  | default
  | throughput
  | lowLatency
  deriving DecidableEq, Repr

def congestionText (opts : Json) : String :=
  ((opts.get "congestionControl").bind Json.asStr).getD "default"

/-- `parse_congestion_control`, from the option's text. -/
def parseCongestionControl (text : String) : Except String CongestionControlMode :=
  if text = "default" then .ok .default
  else if text = "throughput" then .ok .throughput
  else if text = "low-latency" then .ok .lowLatency
  else .error ("E_INTERNAL: congestionControl must be \"default\", \"throughput\", or " ++
    "\"low-latency\", got \"" ++ text ++ "\"")

def maxQpackTableCapacity : Nat := 65536

def qpackDynamicPresetCapacity : Nat := 4096

def parseQpackMaxTableCapacity (opts : Json) : Except String Nat :=
  match opts.get "qpackMaxTableCapacity" with
  | some .null | none =>
    .ok (if opts.flag "enableDynamicQpack" then qpackDynamicPresetCapacity else 0)
  | some value =>
    match value.asU64 with
    | some n => .ok (min n maxQpackTableCapacity)
    | none =>
      .error "E_INVALID_ARGUMENT: qpackMaxTableCapacity must be a non-negative integer"

abbrev Digest := List UInt8

def parsePin : List Json → Except String Digest
  | [] => .ok []
  | entry :: rest =>
    match entry.asU64.filter (· < 256) with
    | some byte => (UInt8.ofNat byte :: ·) <$> parsePin rest
    | none =>
      .error "E_INTERNAL: serverCertificateHashes entry value must be a byte-array"

def parseCertificateHash (entry : Json) : Except String Digest :=
  let algorithm := ((entry.get "algorithm").bind Json.asStr).getD ""
  if algorithm ≠ "sha-256" then
    .error ("E_INTERNAL: serverCertificateHashes only supports algorithm \"sha-256\", got \"" ++
      algorithm ++ "\"")
  else
    match (entry.get "value").bind Json.asArray with
    | none => .error "E_INTERNAL: serverCertificateHashes entry value must be a byte-array"
    | some value =>
      if value.length ≠ 32 then
        .error "E_INTERNAL: serverCertificateHashes value must be 32-byte SHA-256"
      else parsePin value

def parseServerCertificateHashes (opts : Json) : Except String (List Digest) :=
  match (opts.get "serverCertificateHashes").bind Json.asArray with
  | none => .ok []
  | some entries => entries.mapM parseCertificateHash

def defaultHandshakeTimeoutMs : Nat := 10000

def defaultClientIdleTimeoutMs : Nat := 30000

/-- What `run_connect` reads from its options. -/
structure Options where
  insecureSkipVerify : Bool
  caPem : Option String
  serverName : Option String
  pinnedHashes : List Digest
  allowPooling : Bool
  requireUnreliable : Bool
  enable0Rtt : Bool
  qpackMaxTableCapacity : Nat
  handshakeTimeoutMs : Nat
  idleTimeoutMs : Nat
  keepAliveIntervalMs : Nat
  congestion : String
  congestionControl : CongestionControlMode
  limits : Limits

/-- A text in the `tls` part of the options, if it is there and not empty. -/
def tlsText (opts : Json) (key : String) : Option String :=
  (((opts.get "tls").bind (·.get key)).bind Json.asStr).filter (· ≠ "")

/-- A number in the `limits` part of the options. -/
def limitsU64 (opts : Json) (key : String) : Option Nat := (opts.get "limits").bind (·.u64 key)

/-- The part of `run_connect` that reads the options, with its refusals in their order. -/
def parseOptions (text : Except String Json) : Except String Options := do
  let opts := text.toOption.getD .null
  let limits ← parseClientLimits text
  let pinnedHashes ← parseServerCertificateHashes opts
  let allowPooling := opts.flag "allowPooling"
  refuse (allowPooling ∧ pinnedHashes ≠ [])
    "E_INTERNAL: serverCertificateHashes cannot be used with allowPooling=true"
  let enable0Rtt := opts.flag "enable0Rtt"
  refuse (enable0Rtt ∧ allowPooling)
    "E_INTERNAL: enable0Rtt cannot be used with allowPooling=true"
  let qpackMaxTableCapacity ← parseQpackMaxTableCapacity opts
  let idleTimeoutMs := (limitsU64 opts "idleTimeoutMs").getD defaultClientIdleTimeoutMs
  let congestion := congestionText opts
  let congestionControl ← parseCongestionControl congestion
  return {
    insecureSkipVerify := ((opts.get "tls").map (·.flag "insecureSkipVerify")).getD false
    caPem := tlsText opts "caPem"
    serverName := tlsText opts "serverName"
    pinnedHashes
    allowPooling
    requireUnreliable := opts.flag "requireUnreliable"
    enable0Rtt
    qpackMaxTableCapacity
    handshakeTimeoutMs := (limitsU64 opts "handshakeTimeoutMs").getD defaultHandshakeTimeoutMs
    idleTimeoutMs
    keepAliveIntervalMs := (limitsU64 opts "keepAliveIntervalMs").getD (idleTimeoutMs / 3)
    congestion
    congestionControl
    limits }

/-! ## Addresses -/

structure SocketAddr where
  ip : IpAddr
  port : Nat
  deriving DecidableEq, Repr

/-- A `Url` is its serialisation. -/
structure Url where
  serialization : String
  deriving DecidableEq, Repr

abbrev Cert := List UInt8

structure Env where
  parseUrl : String → Except String Url
  scheme : Url → String
  hostStr : Url → Option String
  port : Url → Option Nat
  path : Url → String
  query : Url → Option String
  setHost : Url → String → Option Url
  /-- `str::parse::<IpAddr>`. -/
  parseIp : String → Option IpAddr
  sha256 : String → Digest
  /-- `platform_root_certs`, read once per process. -/
  platformRootCerts : List Cert
  /-- `CertificateDer::pem_slice_iter`. -/
  pemSliceIter : String → List (Except String Cert)
  /-- Whether `RootCertStore::add` takes a certificate. -/
  acceptsRoot : Cert → Bool
  /-- An empty host is no host. -/
  hostStr_ne : ∀ u, hostStr u ≠ some ""
  parseUrl_setHost : ∀ u name v, setHost u name = some v → parseUrl v.serialization = .ok v
  /-- How a host is written depends on the scheme only. -/
  hostStr_setHost : ∀ u u' name v v', scheme u = scheme u' → setHost u name = some v →
    setHost u' name = some v' → hostStr v = hostStr v'

/-- `connect_url_and_resolver`; the resolver is the address it always answers. -/
def connectUrlAndResolver (env : Env) (url : String) (serverName : Option String) :
    Except String (String × Option SocketAddr) :=
  match env.parseUrl url with
  | .error e => .error ("E_TLS: invalid URL: " ++ e)
  | .ok parsed =>
    let port := (env.port parsed).getD 443
    let path := env.path parsed
    let pathQuery := if path = "" then "/" else
      path ++ ((env.query parsed).map ("?" ++ ·)).getD ""
    match env.hostStr parsed, serverName.filter (· ≠ "") with
    | some host, some sni =>
      match env.parseIp host with
      | some ip =>
        .ok ("https://" ++ sni ++ ":" ++ toString port ++ pathQuery, some ⟨ip, port⟩)
      | none =>
        match env.setHost parsed sni with
        | some p => .ok (p.serialization, none)
        | none => .error ("E_TLS: invalid serverName for SNI: " ++ sni)
    | _, _ => .ok (url, none)

def connectDestinationIp (env : Env) (connectUrl : String) (resolver : Option SocketAddr) :
    Option IpAddr :=
  match resolver with
  | some addr => some addr.ip
  | none => ((env.parseUrl connectUrl).toOption.bind env.hostStr).bind env.parseIp

/-! ## Endpoint configuration -/

def quicVarintMax : Nat := 2 ^ 62 - 1

def datagramChannelCapacityCeiling : Nat := 2048

def h1bDatagramSendBufferBytes : Nat := 64 * 1024

def h1bDatagramReceiveBufferBytes : Nat := 256 * 1024

def clampQuicWindow (value : Nat) : Nat := max 1 (min value quicVarintMax)

def ceilDiv (numerator denominator : Nat) : Nat :=
  numerator / denominator + if numerator % denominator = 0 then 0 else 1

structure TransportMemoryPolicy where
  streamReceiveWindow : Nat
  receiveWindow : Nat
  sendWindow : Nat
  datagramReceiveBufferSize : Option Nat
  datagramSendBufferSize : Option Nat
  datagramChannelCapacity : Nat
  deriving DecidableEq, Repr

namespace TransportMemoryPolicy

def fromLimits (limits : Limits) : TransportMemoryPolicy :=
  let maxDatagramSize := max limits.maxDatagramSize 1
  let streamReceiveWindow := clampQuicWindow
    (max (limits.streamReceiveWindow.getD limits.maxQueuedBytesPerStream) maxDatagramSize)
  -- with only the stream window set, the others still rise to cover one stream
  let sessionWindow := max limits.maxQueuedBytesPerSession streamReceiveWindow
  { streamReceiveWindow
    receiveWindow := clampQuicWindow (limits.receiveWindow.getD sessionWindow)
    sendWindow := clampQuicWindow (limits.sendWindow.getD sessionWindow)
    datagramReceiveBufferSize := none
    datagramSendBufferSize := none
    datagramChannelCapacity :=
      max 1 (min (ceilDiv (max limits.maxQueuedBytesPerSession 1) maxDatagramSize)
        datagramChannelCapacityCeiling) }

def withDatagramBuffers (policy : TransportMemoryPolicy) (limits : Limits)
    (receiveBufferSize sendBufferSize : Nat) : TransportMemoryPolicy :=
  let payloadFloor := max limits.maxDatagramSize 1
  { policy with
    datagramReceiveBufferSize := some (max receiveBufferSize payloadFloor)
    datagramSendBufferSize := some (max sendBufferSize payloadFloor) }

def withH1bDatagramBuffers (policy : TransportMemoryPolicy) (limits : Limits) :
    TransportMemoryPolicy :=
  policy.withDatagramBuffers limits h1bDatagramReceiveBufferBytes h1bDatagramSendBufferBytes

end TransportMemoryPolicy

inductive Controller
  | cubic
  | bbr
  | newReno
  deriving DecidableEq, Repr

/-- What was set of a QUIC transport configuration. -/
structure QuicTransportConfig where
  streamReceiveWindow : Option Nat := none
  receiveWindow : Option Nat := none
  sendWindow : Option Nat := none
  datagramReceiveBufferSize : Option Nat := none
  datagramSendBufferSize : Option Nat := none
  congestionController : Option Controller := none
  maxIdleTimeout : Option (Option Nat) := none
  keepAliveInterval : Option Nat := none
  deriving DecidableEq, Repr

namespace TransportMemoryPolicy

def applyFlowControl (policy : TransportMemoryPolicy) (config : QuicTransportConfig) :
    QuicTransportConfig :=
  { config with
    streamReceiveWindow := some (clampQuicWindow policy.streamReceiveWindow)
    receiveWindow := some (clampQuicWindow policy.receiveWindow)
    sendWindow := some (clampQuicWindow policy.sendWindow) }

def applyDatagramBuffers (policy : TransportMemoryPolicy) (config : QuicTransportConfig) :
    QuicTransportConfig :=
  { config with
    datagramReceiveBufferSize :=
      policy.datagramReceiveBufferSize.or config.datagramReceiveBufferSize
    datagramSendBufferSize := policy.datagramSendBufferSize.or config.datagramSendBufferSize }

end TransportMemoryPolicy

def applyCongestionController (mode : CongestionControlMode) (config : QuicTransportConfig) :
    QuicTransportConfig :=
  { config with
    congestionController := some <| match mode with
      | .default => .cubic
      | .throughput => .bbr
      | .lowLatency => .newReno }

/-- `build_quic_transport_config`.  An idle timeout that is no QUIC integer is none at all. -/
def buildQuicTransportConfig (mode : CongestionControlMode)
    (idleTimeoutMs keepAliveIntervalMs : Nat) (limits : Limits) : QuicTransportConfig :=
  let policy := (TransportMemoryPolicy.fromLimits limits).withH1bDatagramBuffers limits
  let config := applyCongestionController mode
    (policy.applyDatagramBuffers (policy.applyFlowControl {}))
  if 0 < idleTimeoutMs then
    let keepAliveMs := min keepAliveIntervalMs (idleTimeoutMs / 2)
    { config with
      maxIdleTimeout := some (if idleTimeoutMs ≤ quicVarintMax then some idleTimeoutMs else none)
      keepAliveInterval := if 0 < keepAliveMs then some keepAliveMs else none }
  else config

inductive Verifier
  | webPki
  | insecure
  | pinned (pins : List Digest)
  deriving DecidableEq, Repr

structure TlsConfig where
  roots : List Cert
  verifier : Verifier
  deriving DecidableEq, Repr

/-- The custom roots of a PEM file; a broken item refuses the file. -/
def pemRoots (env : Env) : List (Except String Cert) → Except String (List Cert)
  | [] => .ok []
  | .ok der :: items =>
    (fun roots => if env.acceptsRoot der then der :: roots else roots) <$> pemRoots env items
  | .error e :: _ => .error ("E_TLS: invalid CA PEM: " ++ e)

def buildRootCertStore (env : Env) (caPem : Option String) : Except String (List Cert) := do
  let platform := env.platformRootCerts.filter env.acceptsRoot
  match caPem with
  | none => return platform
  | some pem =>
    let items := env.pemSliceIter pem
    let added ← pemRoots env items
    if added = [] then
      if items = [] then .error "E_TLS: no valid CA certificate found in caPem"
      else .error "E_TLS: CA PEM parsed but no certificates were accepted"
    else return platform ++ added

def buildClientTlsConfig (rootStore : List Cert) (insecureSkipVerify : Bool)
    (pinnedHashes : List Digest) : TlsConfig where
  roots := rootStore
  verifier :=
    if insecureSkipVerify then .insecure
    else if pinnedHashes ≠ [] then .pinned pinnedHashes
    else .webPki

def buildClientTlsParts (env : Env) (insecureSkipVerify : Bool) (caPem : Option String)
    (pinnedHashes : List Digest) : Except String TlsConfig :=
  if insecureSkipVerify then .ok (buildClientTlsConfig [] true [])
  else if caPem.isSome ∨ pinnedHashes ≠ [] then
    (buildClientTlsConfig · false pinnedHashes) <$> buildRootCertStore env caPem
  else (buildClientTlsConfig · false []) <$> buildRootCertStore env none

inductive IpBindConfig
  | inAddrAnyV4
  | inAddrAnyDual
  deriving DecidableEq, Repr

def clientBindConfig : Option IpAddr → IpBindConfig
  | some (.v4 ..) => .inAddrAnyV4
  | _ => .inAddrAnyDual

structure ClientConfig where
  bind : IpBindConfig
  tls : TlsConfig
  transport : QuicTransportConfig
  qpackMaxTableCapacity : Nat
  dnsResolver : Option SocketAddr
  deriving DecidableEq, Repr

/-- `build_wtransport_client_config`, and the resolver set on the result. -/
def buildWtransportClientConfig (env : Env) (o : Options) (destination : Option IpAddr)
    (resolver : Option SocketAddr) : Except String ClientConfig := do
  let transport := buildQuicTransportConfig o.congestionControl o.idleTimeoutMs
    o.keepAliveIntervalMs o.limits
  let tls ← buildClientTlsParts env o.insecureSkipVerify o.caPem o.pinnedHashes
  return {
    bind := clientBindConfig destination
    tls
    transport
    qpackMaxTableCapacity := o.qpackMaxTableCapacity
    dnsResolver := resolver }

/-! ## The connect -/

structure PoolKey where
  scheme : String
  host : String
  port : Nat
  sni : Option String
  insecureSkipVerify : Bool
  hasPinnedHashes : Bool
  caPemFingerprint : Option Digest
  requireUnreliable : Bool
  congestion : String
  deriving DecidableEq, Repr

def poolKey (env : Env) (parsed : Url) (o : Options) : PoolKey where
  scheme := env.scheme parsed
  host := (env.hostStr parsed).getD ""
  port := (env.port parsed).getD 443
  sni := o.serverName
  insecureSkipVerify := o.insecureSkipVerify
  hasPinnedHashes := !o.pinnedHashes.isEmpty
  caPemFingerprint := o.caPem.map env.sha256
  requireUnreliable := o.requireUnreliable
  congestion := o.congestion

/-- Which endpoint a connect goes through. -/
inductive Plan
  /-- `acquire_connect` with its key, and what `create_endpoint` would build. -/
  | pooled (key : PoolKey) (connectUrl : String) (handshakeTimeoutMs : Nat)
      (createEndpoint : Except String ClientConfig)
  | zeroRtt
  | dedicated (connectUrl : String) (handshakeTimeoutMs : Nat) (config : ClientConfig)

structure Request where
  url : String
  opts : Except String Json

/-- `run_connect`, up to the connect itself. -/
def runConnect (env : Env) (r : Request) : Except String Plan := do
  let o ← parseOptions r.opts
  let (connectUrl, resolver) ← connectUrlAndResolver env r.url o.serverName
  let destination := connectDestinationIp env connectUrl resolver
  let config := buildWtransportClientConfig env o destination resolver
  if o.allowPooling then
    match env.parseUrl r.url with
    | .ok parsed => return .pooled (poolKey env parsed o) connectUrl o.handshakeTimeoutMs config
    | .error e => .error ("E_TLS: invalid URL: " ++ e)
  else if o.enable0Rtt then return .zeroRtt
  else return .dedicated connectUrl o.handshakeTimeoutMs (← config)

end WebTransportBun.Native.ConnectOptions
