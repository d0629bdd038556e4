/-
  WebTransportBun.Facade.WasmConnect

  How a connect of the wasm backend gets from its options to an endpoint: `connectWasm` and
  `normalizeWasmEndpointOptions` in `packages/webtransport/src/backend.ts`, and the key of a
  pooled endpoint, `wasmPoolKey` in `wasm-endpoint-pool.ts`.

  What the platform does is a parameter (`Web`): the parser of URLs, `Number` and SHA-256.
  The port of a key is its number as text.  A congestion mode that is not given is `default`,
  as `CongestionControlMode::parse` reads it.  Loggers and the options of the session's facade
  do not reach the endpoint and are left out.
-/

import Mathlib.Data.List.Infix
import WebTransportBun.Facade.WasmPool
import WebTransportBun.Library.Checks
import WebTransportBun.Library.Joined

namespace WebTransportBun.Facade.WasmConnect

open Library String

/-! ## Endpoint options -/

inductive JsError
  | typeError (message : String)
  | rangeError (message : String)
  | webTransport (code message : String)
  deriving DecidableEq, Repr

/-- A JavaScript number: an integer, or NaN, infinite or with a fraction. -/
inductive JsNumber
  | int (n : Int)
  | other
  deriving DecidableEq, Repr

def wasmU32Max : Nat := 0xffffffff

def hostTimerMaxMs : Nat := 0x7fffffff

def normalizePositiveInteger (name : String) (value : JsNumber) (maximum : Nat := wasmU32Max) :
    Except JsError Nat :=
  match value with
  | .other => .error (.typeError (name ++ " must be a finite integer"))
  | .int n =>
    if n ≤ 0 then .error (.rangeError (name ++ " must be a positive integer"))
    else if maximum < n then
      let range := if maximum = hostTimerMaxMs then "host timer" else "WASM integer"
      .error (.rangeError (name ++ " exceeds the supported " ++ range ++ " range"))
    else .ok n.toNat

def normalizeNonNegativeInteger (name : String) (value : JsNumber)
    (maximum : Nat := wasmU32Max) : Except JsError Nat :=
  match value with
  | .other => .error (.typeError (name ++ " must be a finite integer"))
  | .int n =>
    if n < 0 then .error (.rangeError (name ++ " must be a non-negative integer"))
    else if maximum < n then
      .error (.rangeError (name ++ " exceeds the supported WASM integer range"))
    else .ok n.toNat

/-- `WasmLimitsOptions` with optional numbers, and the normalized limits with numbers. -/
@[ext] structure WasmLimits (α : Type) where
  maxSessions : α
  maxHandshakesInFlight : α
  maxStreamsPerSessionBidi : α
  maxStreamsPerSessionUni : α
  maxStreamsGlobal : α
  maxDatagramSize : α
  maxQueuedBytesGlobal : α
  maxQueuedBytesPerSession : α
  maxQueuedBytesPerStream : α
  backpressureTimeoutMs : α
  handshakeTimeoutMs : α
  idleTimeoutMs : α
  deriving DecidableEq, Repr

@[ext] structure WasmRateLimits (α : Type) where
  handshakesPerSec : α
  handshakesBurst : α
  streamOpensPerSec : α
  streamOpensBurst : α
  datagramsIngressPerSec : α
  datagramsIngressBurst : α
  deriving DecidableEq, Repr

def defaultWasmLimits : WasmLimits Nat where
  maxSessions := 2000
  maxHandshakesInFlight := 200
  maxStreamsPerSessionBidi := 200
  maxStreamsPerSessionUni := 200
  maxStreamsGlobal := 50000
  maxDatagramSize := 1200
  maxQueuedBytesGlobal := 512 * 1024 * 1024
  maxQueuedBytesPerSession := 2 * 1024 * 1024
  maxQueuedBytesPerStream := 256 * 1024
  backpressureTimeoutMs := 5000
  handshakeTimeoutMs := 10000
  idleTimeoutMs := 60000

def defaultWasmRateLimits : WasmRateLimits Nat where
  handshakesPerSec := 20
  handshakesBurst := 40
  streamOpensPerSec := 200
  streamOpensBurst := 400
  datagramsIngressPerSec := 2000
  datagramsIngressBurst := 5000

def WasmLimits.toList {α : Type} (l : WasmLimits α) : List α :=
  [l.maxSessions, l.maxHandshakesInFlight, l.maxStreamsPerSessionBidi, l.maxStreamsPerSessionUni,
    l.maxStreamsGlobal, l.maxDatagramSize, l.maxQueuedBytesGlobal, l.maxQueuedBytesPerSession,
    l.maxQueuedBytesPerStream, l.backpressureTimeoutMs, l.handshakeTimeoutMs, l.idleTimeoutMs]

def WasmRateLimits.toList {α : Type} (l : WasmRateLimits α) : List α :=
  [l.handshakesPerSec, l.handshakesBurst, l.streamOpensPerSec, l.streamOpensBurst,
    l.datagramsIngressPerSec, l.datagramsIngressBurst]

def orDefault (value : Option JsNumber) (default : Nat) : JsNumber := value.getD (.int default)

/-- The part of `normalizeWasmEndpointOptions` on `limits`. -/
def normalizeLimits (o : WasmLimits (Option JsNumber)) : Except JsError (WasmLimits Nat) := do
  let d := defaultWasmLimits
  let maxSessions ← normalizePositiveInteger "limits.maxSessions"
    (orDefault o.maxSessions d.maxSessions)
  let maxHandshakesInFlight ← normalizePositiveInteger "limits.maxHandshakesInFlight"
    (orDefault o.maxHandshakesInFlight d.maxHandshakesInFlight)
  let maxStreamsPerSessionBidi ← normalizePositiveInteger "limits.maxStreamsPerSessionBidi"
    (orDefault o.maxStreamsPerSessionBidi d.maxStreamsPerSessionBidi)
  let maxStreamsPerSessionUni ← normalizePositiveInteger "limits.maxStreamsPerSessionUni"
    (orDefault o.maxStreamsPerSessionUni d.maxStreamsPerSessionUni)
  let maxStreamsGlobal ← normalizePositiveInteger "limits.maxStreamsGlobal"
    (orDefault o.maxStreamsGlobal d.maxStreamsGlobal)
  let maxDatagramSize ← normalizePositiveInteger "limits.maxDatagramSize"
    (orDefault o.maxDatagramSize d.maxDatagramSize)
  let maxQueuedBytesGlobal ← normalizePositiveInteger "limits.maxQueuedBytesGlobal"
    (orDefault o.maxQueuedBytesGlobal d.maxQueuedBytesGlobal)
  let maxQueuedBytesPerSession ← normalizePositiveInteger "limits.maxQueuedBytesPerSession"
    (orDefault o.maxQueuedBytesPerSession d.maxQueuedBytesPerSession)
  let maxQueuedBytesPerStream ← normalizePositiveInteger "limits.maxQueuedBytesPerStream"
    (orDefault o.maxQueuedBytesPerStream d.maxQueuedBytesPerStream)
  let backpressureTimeoutMs ← normalizePositiveInteger "limits.backpressureTimeoutMs"
    (orDefault o.backpressureTimeoutMs d.backpressureTimeoutMs) hostTimerMaxMs
  let handshakeTimeoutMs ← normalizePositiveInteger "limits.handshakeTimeoutMs"
    (orDefault o.handshakeTimeoutMs d.handshakeTimeoutMs) hostTimerMaxMs
  let idleTimeoutMs ← normalizePositiveInteger "limits.idleTimeoutMs"
    (orDefault o.idleTimeoutMs d.idleTimeoutMs) hostTimerMaxMs
  refuse (maxQueuedBytesPerSession < maxQueuedBytesPerStream) (JsError.rangeError
    "limits.maxQueuedBytesPerStream must be <= limits.maxQueuedBytesPerSession")
  refuse (maxQueuedBytesGlobal < maxQueuedBytesPerSession) (JsError.rangeError
    "limits.maxQueuedBytesPerSession must be <= limits.maxQueuedBytesGlobal")
  refuse (maxStreamsGlobal < maxStreamsPerSessionBidi) (JsError.rangeError
    "limits.maxStreamsPerSessionBidi must be <= limits.maxStreamsGlobal")
  refuse (maxStreamsGlobal < maxStreamsPerSessionUni) (JsError.rangeError
    "limits.maxStreamsPerSessionUni must be <= limits.maxStreamsGlobal")
  refuse (idleTimeoutMs < handshakeTimeoutMs) (JsError.rangeError
    "limits.handshakeTimeoutMs must be <= limits.idleTimeoutMs")
  return { maxSessions, maxHandshakesInFlight, maxStreamsPerSessionBidi, maxStreamsPerSessionUni,
           maxStreamsGlobal, maxDatagramSize, maxQueuedBytesGlobal, maxQueuedBytesPerSession,
           maxQueuedBytesPerStream, backpressureTimeoutMs, handshakeTimeoutMs, idleTimeoutMs }

/-- The part of `normalizeWasmEndpointOptions` on `rateLimits`. -/
def normalizeRateLimits (o : WasmRateLimits (Option JsNumber)) :
    Except JsError (WasmRateLimits Nat) := do
  let d := defaultWasmRateLimits
  let handshakesPerSec ← normalizePositiveInteger "rateLimits.handshakesPerSec"
    (orDefault o.handshakesPerSec d.handshakesPerSec)
  let handshakesBurst ← normalizePositiveInteger "rateLimits.handshakesBurst"
    (orDefault o.handshakesBurst d.handshakesBurst)
  let streamOpensPerSec ← normalizePositiveInteger "rateLimits.streamOpensPerSec"
    (orDefault o.streamOpensPerSec d.streamOpensPerSec)
  let streamOpensBurst ← normalizePositiveInteger "rateLimits.streamOpensBurst"
    (orDefault o.streamOpensBurst d.streamOpensBurst)
  let datagramsIngressPerSec ← normalizePositiveInteger "rateLimits.datagramsIngressPerSec"
    (orDefault o.datagramsIngressPerSec d.datagramsIngressPerSec)
  let datagramsIngressBurst ← normalizePositiveInteger "rateLimits.datagramsIngressBurst"
    (orDefault o.datagramsIngressBurst d.datagramsIngressBurst)
  refuse (handshakesBurst < handshakesPerSec) (JsError.rangeError
    "rateLimits.handshakesBurst must be >= rateLimits.handshakesPerSec")
  refuse (streamOpensBurst < streamOpensPerSec) (JsError.rangeError
    "rateLimits.streamOpensBurst must be >= rateLimits.streamOpensPerSec")
  refuse (datagramsIngressBurst < datagramsIngressPerSec) (JsError.rangeError
    "rateLimits.datagramsIngressBurst must be >= rateLimits.datagramsIngressPerSec")
  return { handshakesPerSec, handshakesBurst, streamOpensPerSec, streamOpensBurst,
           datagramsIngressPerSec, datagramsIngressBurst }

inductive CongestionControl
  | default
  | throughput
  | lowLatency
  deriving DecidableEq, Repr

def CongestionControl.text : CongestionControl → String
  | .default => "default"
  | .throughput => "throughput"
  | .lowLatency => "low-latency"

/-- `WasmConnectOptions`; a ticket store is an object with an identity. -/
structure WasmConnectOptions where
  certHashBase64 : Option String := none
  caPem : Option String := none
  limits : WasmLimits (Option JsNumber) :=
    ⟨none, none, none, none, none, none, none, none, none, none, none, none⟩
  rateLimits : WasmRateLimits (Option JsNumber) := ⟨none, none, none, none, none, none⟩
  wtMaxSessions : Option JsNumber := none
  enable0Rtt : Option Bool := none
  shareProcess0RttTicketStore : Option Bool := none
  qpackMaxTableCapacity : Option JsNumber := none
  qpackBlockedStreams : Option JsNumber := none
  enableDynamicQpack : Option Bool := none
  ticketStore : Option Nat := none
  allowPooling : Option Bool := none
  requireUnreliable : Option Bool := none
  congestionControl : Option CongestionControl := none

structure WasmNormalizedEndpointOptions where
  limits : WasmLimits Nat
  rateLimits : WasmRateLimits Nat
  wtMaxSessions : Option Nat
  enable0Rtt : Option Bool
  shareProcess0RttTicketStore : Option Bool
  qpackMaxTableCapacity : Option Nat
  qpackBlockedStreams : Option Nat
  enableDynamicQpack : Option Bool
  congestionControl : CongestionControl
  deriving DecidableEq, Repr

def normalizeWasmEndpointOptions (o : WasmConnectOptions) :
    Except JsError WasmNormalizedEndpointOptions := do
  let limits ← normalizeLimits o.limits
  let rateLimits ← normalizeRateLimits o.rateLimits
  let wtMaxSessions ← o.wtMaxSessions.mapM (normalizePositiveInteger "wtMaxSessions" · 256)
  -- an explicit capacity wins over the boolean
  let capacity ← o.qpackMaxTableCapacity.mapM fun n =>
    min 65536 <$> normalizeNonNegativeInteger "qpackMaxTableCapacity" n
  let qpackMaxTableCapacity :=
    capacity <|> if o.enableDynamicQpack = some true then some 4096 else none
  let blocked ← o.qpackBlockedStreams.mapM fun n =>
    min 128 <$> normalizeNonNegativeInteger "qpackBlockedStreams" n
  let qpackBlockedStreams := blocked <|> if 0 < qpackMaxTableCapacity.getD 0 then some 16 else none
  return { limits, rateLimits, wtMaxSessions, enable0Rtt := o.enable0Rtt,
           shareProcess0RttTicketStore := o.shareProcess0RttTicketStore, qpackMaxTableCapacity,
           qpackBlockedStreams, enableDynamicQpack := o.enableDynamicQpack,
           congestionControl := o.congestionControl.getD .default }

/-! ## The key -/

structure JsUrl where
  protocol : String
  hostname : String
  port : String
  deriving DecidableEq, Repr

structure Web where
  /-- `new URL`, which throws if the text is no URL. -/
  parseUrl : String → Option JsUrl
  /-- `String(Number(text))`. -/
  numberText : String → String
  /-- The digest of the text's UTF-8 encoding. -/
  sha256 : String → Vector UInt8 32
  /-- A scheme has letters, digits and `+-.` only. -/
  protocol_plain : ∀ text url, parseUrl text = some url → '|' ∉ url.protocol.toList
  numberText_plain : ∀ text, '|' ∉ (numberText text).toList

def hexByte (byte : UInt8) : List Char :=
  [Nat.digitChar (byte.toNat / 16), Nat.digitChar (byte.toNat % 16)]

def wasmCaFingerprint (web : Web) (caPem : String) : String :=
  String.ofList ((web.sha256 caPem).toList.flatMap hexByte)

structure WasmPoolKeyInput where
  scheme : String
  host : String
  port : String
  serverName : Option String
  requireUnreliable : Option Bool
  congestionControl : Option CongestionControl
  tlsFingerprint : String

def boolText (b : Bool) : String := if b then "true" else "false"

def wasmPoolKey (input : WasmPoolKeyInput) : String :=
  "|".intercalate
    [input.scheme, input.host, input.port, input.serverName.getD input.host,
      boolText (input.requireUnreliable = some true),
      (input.congestionControl.getD .default).text, input.tlsFingerprint]

/-- What a caller passes to `connectWasm`; a UDP transport is an object with an identity. -/
structure Request where
  udp : Nat
  authority : String
  addr : String
  peerAddr : String
  opts : WasmConnectOptions

def truthy (text : Option String) : Option String := text.filter (· ≠ "")

def afterLastColon (text : String) : String :=
  String.ofList (text.toList.reverse.takeWhile (· ≠ ':')).reverse

section

variable (web : Web)

section

variable (r : Request)

def Request.url : Option JsUrl :=
  web.parseUrl
    (if "://".toList <:+: r.authority.toList then r.authority else "https://" ++ r.authority)

def Request.port : String :=
  match truthy ((r.url web).map JsUrl.port) with
  | some port => web.numberText port
  | none =>
    if ':' ∈ r.peerAddr.toList then web.numberText (afterLastColon r.peerAddr) else "443"

/-- `url?.protocol?.replace(":", "") || "https"`. -/
def Request.scheme : String :=
  (truthy ((r.url web).map fun url => String.ofList (url.protocol.toList.erase ':'))).getD "https"

def Request.tlsFingerprint : String :=
  match truthy r.opts.certHashBase64,
      truthy ((truthy r.opts.caPem).map (wasmCaFingerprint web)) with
  | some certHash, _ => "cert:" ++ certHash
  | none, some caFingerprint => "ca:" ++ caFingerprint
  | none, none => "accept-any"

def Request.keyInput : WasmPoolKeyInput :=
  let host := ((r.url web).map JsUrl.hostname).getD r.authority
  { scheme := r.scheme web
    host
    port := r.port web
    serverName := some host
    requireUnreliable := r.opts.requireUnreliable
    congestionControl := r.opts.congestionControl
    tlsFingerprint := r.tlsFingerprint web }

end

end

/-! ## The connect -/

inductive Trust
  | ca (pem : String)
  | pinned (certHashesBase64 : String)
  | acceptAny
  deriving DecidableEq, Repr

/-- What `WasmTransportManager.create` builds a client's endpoint from. -/
structure EndpointOptions where
  udp : Nat
  addr : String
  peerAddr : String
  trust : Trust
  options : WasmNormalizedEndpointOptions
  ticketStore : Option Nat
  deriving DecidableEq, Repr

/-- The choice of the endpoint's constructor in `WasmTransportManager.create`. -/
def trust (certHashesBase64 caPem : Option String) : Trust :=
  match truthy caPem, truthy certHashesBase64 with
  | some pem, _ => .ca pem
  | none, some hashes => .pinned hashes
  | none, none => .acceptAny

inductive Plan
  /-- The pool is asked for the key; on a miss the endpoint is created. -/
  | pooled (key : String) (options : EndpointOptions)
  | dedicated (options : EndpointOptions)
  deriving DecidableEq, Repr

/-- `connectWasm`, up to the look-up in the pool. -/
def connectWasm (web : Web) (r : Request) : Except JsError Plan := do
  let options ← normalizeWasmEndpointOptions r.opts
  let allowPooling := r.opts.allowPooling = some true
  refuse (allowPooling ∧ (truthy r.opts.certHashBase64).isSome) (JsError.webTransport
    "E_UNSUPPORTED_ARGUMENT"
    "E_UNSUPPORTED_ARGUMENT: serverCertificateHashes cannot be used with allowPooling=true")
  refuse ((truthy r.opts.certHashBase64).isSome ∧ (truthy r.opts.caPem).isSome)
    (JsError.webTransport "E_TLS" "E_TLS: certHashBase64 and caPem are mutually exclusive")
  let endpoint : EndpointOptions :=
    { udp := r.udp
      addr := r.addr
      peerAddr := r.peerAddr
      trust := trust r.opts.certHashBase64 r.opts.caPem
      options
      ticketStore := r.opts.ticketStore }
  if allowPooling then return .pooled (wasmPoolKey (r.keyInput web)) endpoint
  else return .dedicated endpoint

/-- The request goes through the pool with this key, and asks for this endpoint. -/
def Request.Asks (web : Web) (r : Request) (key : String) (endpoint : EndpointOptions) : Prop :=
  connectWasm web r = .ok (.pooled key endpoint)

/-! ## Keys tell requests apart -/

structure WasmPoolKeyInput.Same (a b : WasmPoolKeyInput) : Prop where
  scheme : a.scheme = b.scheme
  host : a.host = b.host
  port : a.port = b.port
  serverName : a.serverName.getD a.host = b.serverName.getD b.host
  requireUnreliable : a.requireUnreliable = some true ↔ b.requireUnreliable = some true
  congestionControl : a.congestionControl.getD .default = b.congestionControl.getD .default
  tlsFingerprint : a.tlsFingerprint = b.tlsFingerprint

/-- The host may have separators in it, as long as it is the server's name too. -/
structure WasmPoolKeyInput.Plain (a : WasmPoolKeyInput) : Prop where
  scheme : '|' ∉ a.scheme.toList
  port : '|' ∉ a.port.toList
  serverName : a.serverName = some a.host
  tlsFingerprint : '|' ∉ a.tlsFingerprint.toList

theorem toList_wasmPoolKey (a : WasmPoolKeyInput) :
    (wasmPoolKey a).toList = a.scheme.toList ++ '|' :: ((((a.host.toList ++ '|' ::
      (a.port.toList ++ '|' :: (a.serverName.getD a.host).toList)) ++ '|' ::
      (boolText (a.requireUnreliable = some true)).toList) ++ '|' ::
      (a.congestionControl.getD .default).text.toList) ++ '|' :: a.tlsFingerprint.toList) := by
  have hjoin : wasmPoolKey a = a.scheme ++ "|" ++ a.host ++ "|" ++ a.port ++ "|" ++
      a.serverName.getD a.host ++ "|" ++ boolText (a.requireUnreliable = some true) ++ "|" ++
      (a.congestionControl.getD .default).text ++ "|" ++ a.tlsFingerprint := rfl
  have hbar : "|".toList = ['|'] := rfl
  rw [hjoin]
  simp only [toList_append, hbar, List.append_assoc, List.cons_append, List.nil_append]

theorem boolText_plain (b : Bool) : '|' ∉ (boolText b).toList := by
  cases b <;> decide

theorem boolText_inj {b b' : Bool} (h : boolText b = boolText b') : b = b' := by
  revert h
  cases b <;> cases b' <;> decide

theorem CongestionControl.text_plain (mode : CongestionControl) : '|' ∉ mode.text.toList := by
  cases mode <;> decide

theorem CongestionControl.text_inj {mode mode' : CongestionControl} (h : mode.text = mode'.text) :
    mode = mode' := by
  revert h
  cases mode <;> cases mode' <;> decide

theorem wasmPoolKey_inj {a b : WasmPoolKeyInput} (ha : a.Plain) (hb : b.Plain)
    (h : wasmPoolKey a = wasmPoolKey b) : a.Same b := by
  have htext := congrArg toList h
  rw [toList_wasmPoolKey, toList_wasmPoolKey] at htext
  -- off with the scheme in front, then with the three parts at the end
  obtain ⟨hscheme, htext⟩ := joined_inj_left ha.scheme hb.scheme htext
  obtain ⟨htext, htls⟩ := joined_inj_right ha.tlsFingerprint hb.tlsFingerprint htext
  obtain ⟨htext, hmode⟩ :=
    joined_inj_right (CongestionControl.text_plain _) (CongestionControl.text_plain _) htext
  obtain ⟨htext, hunreliable⟩ := joined_inj_right (boolText_plain _) (boolText_plain _) htext
  rw [ha.serverName, hb.serverName] at htext
  obtain ⟨hhost, hport⟩ := centred_inj ha.port hb.port htext
  have hhost : a.host = b.host := toList_inj.mp hhost
  refine ⟨toList_inj.mp hscheme, hhost, toList_inj.mp hport, ?_, ?_,
    CongestionControl.text_inj (toList_inj.mp hmode), toList_inj.mp htls⟩
  · rw [ha.serverName, hb.serverName]
    exact hhost
  · exact decide_eq_decide.mp (boolText_inj (toList_inj.mp hunreliable))

/-! ## What a request's key is made of -/

variable {web : Web} {r r₁ r₂ : Request} {key : String} {e e₁ e₂ : EndpointOptions}

theorem digitChar_ne_bar : ∀ n < 16, Nat.digitChar n ≠ '|' := by
  decide

theorem wasmCaFingerprint_plain (web : Web) (pem : String) :
    '|' ∉ (wasmCaFingerprint web pem).toList := by
  intro hmem
  rw [wasmCaFingerprint, toList_ofList, List.mem_flatMap] at hmem
  obtain ⟨byte, -, hbyte⟩ := hmem
  have hlt := byte.toNat_lt
  rcases List.mem_pair.mp hbyte with h | h
  · exact digitChar_ne_bar _ (by omega) h.symm
  · exact digitChar_ne_bar _ (by omega) h.symm

theorem wasmCaFingerprint_ne (web : Web) (pem : String) : wasmCaFingerprint web pem ≠ "" := by
  intro h
  have hlength := congrArg (fun text => text.toList.length) h
  simp [wasmCaFingerprint, hexByte] at hlength

theorem tlsFingerprint_eq (h : truthy r.opts.certHashBase64 = none) :
    r.tlsFingerprint web = match truthy r.opts.caPem with
      | some pem => "ca:" ++ wasmCaFingerprint web pem
      | none => "accept-any" := by
  unfold Request.tlsFingerprint
  rw [h]
  cases truthy r.opts.caPem with
  | none => rfl
  | some pem => grind [truthy, wasmCaFingerprint_ne]

theorem scheme_plain (web : Web) (r : Request) : '|' ∉ (r.scheme web).toList := by
  unfold Request.scheme truthy
  cases hurl : r.url web with
  | none => decide
  | some url =>
    have hplain := web.protocol_plain _ url hurl
    rw [Option.map_some, Option.filter_some]
    split
    · rw [Option.getD_some, toList_ofList]
      exact fun hmem => hplain (List.mem_of_mem_erase hmem)
    · decide

theorem port_plain (web : Web) (r : Request) : '|' ∉ (r.port web).toList := by
  unfold Request.port
  split
  · exact web.numberText_plain _
  · split
    · exact web.numberText_plain _
    · decide

theorem keyInput_plain (h : truthy r.opts.certHashBase64 = none) : (r.keyInput web).Plain := by
  refine ⟨scheme_plain web r, port_plain web r, rfl, ?_⟩
  show '|' ∉ (r.tlsFingerprint web).toList
  rw [tlsFingerprint_eq h]
  split
  · rw [toList_append, List.mem_append, not_or]
    exact ⟨by decide, wasmCaFingerprint_plain web _⟩
  · decide

theorem Request.Asks.parts (h : r.Asks web key e) :
    truthy r.opts.certHashBase64 = none ∧ key = wasmPoolKey (r.keyInput web) ∧
      ∃ options, normalizeWasmEndpointOptions r.opts = .ok options ∧
        e = ⟨r.udp, r.addr, r.peerAddr, trust r.opts.certHashBase64 r.opts.caPem, options,
          r.opts.ticketStore⟩ := by
  obtain ⟨options, hoptions, h⟩ := bind_eq_ok h
  obtain ⟨_, hpins, h⟩ := bind_eq_ok h
  obtain ⟨_, _, h⟩ := bind_eq_ok h
  split at h
  · next hpool =>
    cases h
    refine ⟨?_, rfl, options, hoptions, rfl⟩
    have hnone := fun hsome => not_of_refuse hpins ⟨hpool, hsome⟩
    simpa using hnone
  · cases h

theorem same_of_asks (h₁ : r₁.Asks web key e₁) (h₂ : r₂.Asks web key e₂) :
    (r₁.keyInput web).Same (r₂.keyInput web) := by
  obtain ⟨hpins₁, hkey₁, -⟩ := h₁.parts
  obtain ⟨hpins₂, hkey₂, -⟩ := h₂.parts
  exact wasmPoolKey_inj (keyInput_plain hpins₁) (keyInput_plain hpins₂) (hkey₁.symm.trans hkey₂)

/-! ## Pooled endpoints -/

/-- What a request asks of its endpoint: the trust domain, the peer, the congestion control, the
    limits, the ticket store and 0-RTT. -/
structure Requested where
  trust : Trust
  peerAddr : String
  congestionControl : CongestionControl
  limits : WasmLimits Nat
  rateLimits : WasmRateLimits Nat
  ticketStore : Option Nat
  enable0Rtt : Bool
  shareProcess0RttTicketStore : Bool
  deriving DecidableEq, Repr

def EndpointOptions.requested (e : EndpointOptions) : Requested where
  trust := e.trust
  peerAddr := e.peerAddr
  congestionControl := e.options.congestionControl
  limits := e.options.limits
  rateLimits := e.options.rateLimits
  ticketStore := e.ticketStore
  enable0Rtt := e.options.enable0Rtt = some true
  shareProcess0RttTicketStore := e.options.shareProcess0RttTicketStore = some true

/-- Two requests agree on what their keys leave out, an option that is not given being its
    default. -/
structure Request.SameBeyondKey (r₁ r₂ : Request) : Prop where
  peerAddr : r₁.peerAddr = r₂.peerAddr
  ticketStore : r₁.opts.ticketStore = r₂.opts.ticketStore
  enable0Rtt : r₁.opts.enable0Rtt = some true ↔ r₂.opts.enable0Rtt = some true
  shareTickets : r₁.opts.shareProcess0RttTicketStore = some true ↔
    r₂.opts.shareProcess0RttTicketStore = some true
  limits : List.zipWith orDefault r₁.opts.limits.toList defaultWasmLimits.toList =
    List.zipWith orDefault r₂.opts.limits.toList defaultWasmLimits.toList
  rateLimits : List.zipWith orDefault r₁.opts.rateLimits.toList defaultWasmRateLimits.toList =
    List.zipWith orDefault r₂.opts.rateLimits.toList defaultWasmRateLimits.toList

/-- The fingerprints of the CA files tell the files apart. -/
def Request.NoCollision (web : Web) (r₁ r₂ : Request) : Prop :=
  ∀ pem₁ pem₂, truthy r₁.opts.caPem = some pem₁ → truthy r₂.opts.caPem = some pem₂ →
    wasmCaFingerprint web pem₁ = wasmCaFingerprint web pem₂ → pem₁ = pem₂

theorem normalizePositiveInteger_ok {name : String} {value : JsNumber} {maximum n : Nat}
    (h : normalizePositiveInteger name value maximum = .ok n) : value = .int n := by
  unfold normalizePositiveInteger at h
  split at h
  · cases h
  · split at h
    · cases h
    · split at h
      · cases h
      · cases h
        rw [Int.toNat_of_nonneg (by omega)]

theorem normalizeLimits_ok {o : WasmLimits (Option JsNumber)} {l : WasmLimits Nat}
    (h : normalizeLimits o = .ok l) :
    List.zipWith orDefault o.toList defaultWasmLimits.toList =
      l.toList.map fun n : Nat => JsNumber.int n := by
  simp only [normalizeLimits, bind_eq_ok_iff] at h
  obtain ⟨_, h₁, _, h₂, _, h₃, _, h₄, _, h₅, _, h₆, _, h₇, _, h₈, _, h₉, _, h₁₀, _, h₁₁, _, h₁₂,
    _, -, _, -, _, -, _, -, _, -, h⟩ := h
  cases h
  simp only [WasmLimits.toList, List.zipWith_cons_cons, List.zipWith_nil_left, List.map_cons,
    List.map_nil, normalizePositiveInteger_ok h₁, normalizePositiveInteger_ok h₂,
    normalizePositiveInteger_ok h₃, normalizePositiveInteger_ok h₄, normalizePositiveInteger_ok h₅,
    normalizePositiveInteger_ok h₆, normalizePositiveInteger_ok h₇, normalizePositiveInteger_ok h₈,
    normalizePositiveInteger_ok h₉, normalizePositiveInteger_ok h₁₀,
    normalizePositiveInteger_ok h₁₁, normalizePositiveInteger_ok h₁₂]

theorem normalizeRateLimits_ok {o : WasmRateLimits (Option JsNumber)} {l : WasmRateLimits Nat}
    (h : normalizeRateLimits o = .ok l) :
    List.zipWith orDefault o.toList defaultWasmRateLimits.toList =
      l.toList.map fun n : Nat => JsNumber.int n := by
  simp only [normalizeRateLimits, bind_eq_ok_iff] at h
  obtain ⟨_, h₁, _, h₂, _, h₃, _, h₄, _, h₅, _, h₆, _, -, _, -, _, -, h⟩ := h
  cases h
  simp only [WasmRateLimits.toList, List.zipWith_cons_cons, List.zipWith_nil_left, List.map_cons,
    List.map_nil, normalizePositiveInteger_ok h₁, normalizePositiveInteger_ok h₂,
    normalizePositiveInteger_ok h₃, normalizePositiveInteger_ok h₄, normalizePositiveInteger_ok h₅,
    normalizePositiveInteger_ok h₆]

theorem WasmLimits.toList_inj {α : Type} {l l' : WasmLimits α} (h : l.toList = l'.toList) :
    l = l' := by
  simpa [WasmLimits.toList, WasmLimits.ext_iff] using h

theorem WasmRateLimits.toList_inj {α : Type} {l l' : WasmRateLimits α}
    (h : l.toList = l'.toList) : l = l' := by
  simpa [WasmRateLimits.toList, WasmRateLimits.ext_iff] using h

theorem int_map_inj {l l' : List Nat}
    (h : l.map (fun n : Nat => JsNumber.int n) = l'.map fun n : Nat => JsNumber.int n) : l = l' :=
  List.map_injective_iff.mpr (fun _ _ h => Int.ofNat.inj (JsNumber.int.inj h)) h

theorem limits_eq_iff {o₁ o₂ : WasmLimits (Option JsNumber)} {l₁ l₂ : WasmLimits Nat}
    (h₁ : normalizeLimits o₁ = .ok l₁) (h₂ : normalizeLimits o₂ = .ok l₂) :
    l₁ = l₂ ↔ List.zipWith orDefault o₁.toList defaultWasmLimits.toList =
      List.zipWith orDefault o₂.toList defaultWasmLimits.toList := by
  rw [normalizeLimits_ok h₁, normalizeLimits_ok h₂]
  exact ⟨fun h => by rw [h], fun h => WasmLimits.toList_inj (int_map_inj h)⟩

theorem rateLimits_eq_iff {o₁ o₂ : WasmRateLimits (Option JsNumber)} {l₁ l₂ : WasmRateLimits Nat}
    (h₁ : normalizeRateLimits o₁ = .ok l₁) (h₂ : normalizeRateLimits o₂ = .ok l₂) :
    l₁ = l₂ ↔ List.zipWith orDefault o₁.toList defaultWasmRateLimits.toList =
      List.zipWith orDefault o₂.toList defaultWasmRateLimits.toList := by
  rw [normalizeRateLimits_ok h₁, normalizeRateLimits_ok h₂]
  exact ⟨fun h => by rw [h], fun h => WasmRateLimits.toList_inj (int_map_inj h)⟩

theorem normalize_parts {o : WasmConnectOptions} {n : WasmNormalizedEndpointOptions}
    (h : normalizeWasmEndpointOptions o = .ok n) :
    normalizeLimits o.limits = .ok n.limits ∧ normalizeRateLimits o.rateLimits = .ok n.rateLimits ∧
      n.enable0Rtt = o.enable0Rtt ∧
      n.shareProcess0RttTicketStore = o.shareProcess0RttTicketStore ∧
      n.congestionControl = o.congestionControl.getD .default := by
  simp only [normalizeWasmEndpointOptions, bind_eq_ok_iff] at h
  obtain ⟨_, hlimits, _, hrates, _, -, _, -, _, -, h⟩ := h
  cases h
  exact ⟨hlimits, hrates, rfl, rfl, rfl⟩

theorem accept_any_ne (fingerprint : String) : "accept-any" ≠ "ca:" ++ fingerprint := by
  intro h
  have htext := congrArg toList h
  rw [toList_append] at htext
  exact absurd (List.cons.inj htext).1 (by decide)

theorem trust_eq (hpins₁ : truthy r₁.opts.certHashBase64 = none)
    (hpins₂ : truthy r₂.opts.certHashBase64 = none)
    (htls : r₁.tlsFingerprint web = r₂.tlsFingerprint web) (hpems : r₁.NoCollision web r₂) :
    trust r₁.opts.certHashBase64 r₁.opts.caPem = trust r₂.opts.certHashBase64 r₂.opts.caPem := by
  rw [tlsFingerprint_eq hpins₁, tlsFingerprint_eq hpins₂] at htls
  unfold trust
  cases hpem₁ : truthy r₁.opts.caPem with
  | none => grind [accept_any_ne]
  | some pem₁ =>
    cases hpem₂ : truthy r₂.opts.caPem with
    | none =>
      rw [hpem₁, hpem₂] at htls
      exact absurd htls.symm (accept_any_ne _)
    | some pem₂ =>
      rw [hpem₁, hpem₂] at htls
      have hfingerprint := congrArg toList htls
      rw [toList_append, toList_append] at hfingerprint
      have hfingerprint := toList_inj.mp (List.append_cancel_left hfingerprint)
      rw [hpems pem₁ pem₂ hpem₁ hpem₂ hfingerprint]

/-- Two requests with one key ask the same of their endpoints iff they agree on what the key
    leaves out. -/
theorem requested_eq_iff (h₁ : r₁.Asks web key e₁) (h₂ : r₂.Asks web key e₂)
    (hpems : r₁.NoCollision web r₂) : e₁.requested = e₂.requested ↔ r₁.SameBeyondKey r₂ := by
  have hsame := same_of_asks h₁ h₂
  obtain ⟨hpins₁, -, o₁, ho₁, rfl⟩ := h₁.parts
  obtain ⟨hpins₂, -, o₂, ho₂, rfl⟩ := h₂.parts
  obtain ⟨hlimits₁, hrates₁, hrtt₁, hshare₁, hmode₁⟩ := normalize_parts ho₁
  obtain ⟨hlimits₂, hrates₂, hrtt₂, hshare₂, hmode₂⟩ := normalize_parts ho₂
  simp only [EndpointOptions.requested, Requested.mk.injEq, limits_eq_iff hlimits₁ hlimits₂,
    rateLimits_eq_iff hrates₁ hrates₂, hrtt₁, hrtt₂, hshare₁, hshare₂, hmode₁, hmode₂,
    decide_eq_decide]
  constructor
  · rintro ⟨-, hpeer, -, hlimits, hrates, hstore, hrtt, hshare⟩
    exact ⟨hpeer, hstore, hrtt, hshare, hlimits, hrates⟩
  · rintro ⟨hpeer, hstore, hrtt, hshare, hlimits, hrates⟩
    exact ⟨trust_eq hpins₁ hpins₂ hsame.tlsFingerprint hpems, hpeer, hsame.congestionControl,
      hlimits, hrates, hstore, hrtt, hshare⟩

open WasmPool State

/-- The calls of the pool are made by these requests, each under its key. -/
def Serves (web : Web) (s : State String Request) : Prop :=
  ∀ c ∈ s.calls, ∃ e, c.options.Asks web c.key e

/-- Requests with the same key have the same scheme, host, port, server name, unreliable
    requirement, congestion mode and TLS fingerprint.  In every run of the pool, two that obtain
    one manager have one key, and they ask the same of the endpoint iff they agree on what is not
    in the key; so do each of them and the one that the manager was created for. -/
theorem pooled_options_iff (web : Web) :
    (∀ r₁ r₂ key e₁ e₂, Request.Asks web r₁ key e₁ → Request.Asks web r₂ key e₂ →
      (r₁.keyInput web).Same (r₂.keyInput web)) ∧
    ∀ ops s, Run Step init ops s → Serves web s →
      (∀ c₁ ∈ s.calls, ∀ c₂ ∈ s.calls, c₁.options.NoCollision web c₂.options) →
      ∀ c₁ ∈ s.calls, ∀ c₂ ∈ s.calls, ∀ m, c₁.manager = some m → c₂.manager = some m →
        ∃ key e₁ e₂ r e, c₁.options.Asks web key e₁ ∧ c₂.options.Asks web key e₂ ∧
          (e₁.requested = e₂.requested ↔ c₁.options.SameBeyondKey c₂.options) ∧
          s.optionsOf m = some r ∧ r.Asks web key e ∧
          (e₁.requested = e.requested ↔ c₁.options.SameBeyondKey r) := by
  refine ⟨fun r₁ r₂ key e₁ e₂ h₁ h₂ => same_of_asks h₁ h₂, ?_⟩
  intro ops s hrun hserves hpems c₁ hc₁ c₂ hc₂ m hm₁ hm₂
  have hsound := (sound_of_run hrun).1
  have hkey₁ := hsound.obtained c₁ hc₁ m hm₁
  have hkey₂ := hsound.obtained c₂ hc₂ m hm₂
  obtain ⟨creator, hcreator, hkey, hoptions⟩ := hsound.created m c₁.key hkey₁
  have hkeys : c₂.key = c₁.key := Option.some.inj (hkey₂.symm.trans hkey₁)
  obtain ⟨e₁, hasks₁⟩ := hserves c₁ hc₁
  obtain ⟨e₂, hasks₂⟩ := hserves c₂ hc₂
  obtain ⟨e, hasks⟩ := hserves creator hcreator
  rw [hkeys] at hasks₂
  rw [hkey] at hasks
  exact ⟨c₁.key, e₁, e₂, creator.options, e, hasks₁, hasks₂,
    requested_eq_iff hasks₁ hasks₂ (hpems c₁ hc₁ c₂ hc₂), hoptions, hasks,
    requested_eq_iff hasks₁ hasks (hpems c₁ hc₁ creator hcreator)⟩

/-- A platform for which every text is a URL of one host. -/
def oneHost : Web where
  parseUrl _ := some ⟨"https:", "example.test", ""⟩
  numberText _ := "443"
  sha256 _ := Vector.replicate 32 0
  protocol_plain text url h := by
    cases h
    decide
  numberText_plain text := by decide

/-- A connect through the pool that leaves its other options to their defaults. -/
def plainRequest : Request :=
  ⟨0, "example.test", "127.0.0.1:0", "127.0.0.1:443", { allowPooling := some true }⟩

/-- The same, with a ticket store of its own and 0-RTT, to another peer. -/
def otherRequest : Request :=
  { plainRequest with
    peerAddr := "127.0.0.2:443"
    opts := { allowPooling := some true, enable0Rtt := some true, ticketStore := some 1 } }

def plainKey : String := "https|example.test|443|example.test|false|default|accept-any"

def plainOptions : WasmNormalizedEndpointOptions :=
  ⟨defaultWasmLimits, defaultWasmRateLimits, none, none, none, none, none, none, .default⟩

def plainEndpoint : EndpointOptions :=
  ⟨0, "127.0.0.1:0", "127.0.0.1:443", .acceptAny, plainOptions, none⟩

def otherEndpoint : EndpointOptions :=
  ⟨0, "127.0.0.1:0", "127.0.0.2:443", .acceptAny,
    { plainOptions with enable0Rtt := some true }, some 1⟩

theorem plainRequest_asks : plainRequest.Asks oneHost plainKey plainEndpoint := by
  unfold Request.Asks
  decide +kernel

theorem otherRequest_asks : otherRequest.Asks oneHost plainKey otherEndpoint := by
  unfold Request.Asks
  decide +kernel

def twoConnects (first second : Request) : List (Op String Request) :=
  [.call plainKey first, .acquire 0 true, .connect 0 true, .ready 0 true,
    .call plainKey second, .acquire 1 true, .connect 1 true, .ready 1 true]

theorem run_twoConnects (first second : Request) :
    ∃ s, Run Step init (twoConnects first second) s ∧ s.optionsOf 0 = some first ∧
      s.calls = [⟨plainKey, first, some 0, .established⟩,
        ⟨plainKey, second, some 0, .established⟩] := by
  have hexec : (execAll exec init (twoConnects first second)).map
      (fun s => (s.optionsOf 0, s.calls)) =
        some (some first, [⟨plainKey, first, some 0, .established⟩,
          ⟨plainKey, second, some 0, .established⟩]) := rfl
  obtain ⟨s, hs, hstate⟩ := Option.map_eq_some_iff.mp hexec
  simp only [Prod.mk.injEq] at hstate
  exact ⟨s, Run.of_execAll (fun _ _ _ h => h) hs, hstate⟩

/-- The same over another UDP transport and from another port, with a limit that is the
    default. -/
def movedRequest : Request :=
  { plainRequest with
    udp := 1
    addr := "127.0.0.1:5802"
    opts := { allowPooling := some true, enable0Rtt := some false
              limits := { plainRequest.opts.limits with maxSessions := some (.int 2000) } } }

theorem movedRequest_asks : movedRequest.Asks oneHost plainKey
    ⟨1, "127.0.0.1:5802", "127.0.0.1:443", .acceptAny,
      { plainOptions with enable0Rtt := some false }, none⟩ := by
  unfold Request.Asks
  decide +kernel

/-- Two connects over transports of their own share a manager and ask the same of it. -/
theorem pooled_options_iff_moved :
    ∃ s, Run Step init (twoConnects plainRequest movedRequest) s ∧
      s.calls.map Call.manager = [some 0, some 0] ∧
      ∃ key e₁ e₂, movedRequest.Asks oneHost key e₁ ∧ plainRequest.Asks oneHost key e₂ ∧
        e₁ ≠ e₂ ∧ e₁.requested = e₂.requested := by
  obtain ⟨s, hrun, -, hcalls⟩ := run_twoConnects plainRequest movedRequest
  have hall : ∀ c ∈ s.calls, c.options.opts.caPem = none := by
    simp [hcalls, plainRequest, movedRequest]
  have hserves : Serves oneHost s := by
    intro c hc
    rw [hcalls, List.mem_pair] at hc
    rcases hc with rfl | rfl
    · exact ⟨_, plainRequest_asks⟩
    · exact ⟨_, movedRequest_asks⟩
  have hpems : ∀ c₁ ∈ s.calls, ∀ c₂ ∈ s.calls, c₁.options.NoCollision oneHost c₂.options := by
    intro c₁ hc₁ c₂ _ pem₁ pem₂ hpem₁
    rw [hall c₁ hc₁] at hpem₁
    cases hpem₁
  obtain ⟨key, e₁, e₂, r, e, hasks₁, hasks₂, hiff, -⟩ := (pooled_options_iff oneHost).2 _ s hrun
    hserves hpems ⟨plainKey, movedRequest, some 0, .established⟩ (by simp [hcalls])
    ⟨plainKey, plainRequest, some 0, .established⟩ (by simp [hcalls]) 0 rfl rfl
  refine ⟨s, hrun, by rw [hcalls]; rfl, key, e₁, e₂, hasks₁, hasks₂, ?_,
    hiff.mpr ⟨rfl, rfl, by decide, by decide, by decide, by decide⟩⟩
  cases movedRequest_asks.symm.trans hasks₁
  cases plainRequest_asks.symm.trans hasks₂
  decide

/-- A request that asks for another peer, 0-RTT and its own ticket store gets the manager of one
    that did not. -/
theorem pooled_session_gets_other_options :
    plainRequest.Asks oneHost plainKey plainEndpoint ∧
      otherRequest.Asks oneHost plainKey otherEndpoint ∧
      plainEndpoint.requested ≠ otherEndpoint.requested ∧
      ∃ s, Run Step init (twoConnects plainRequest otherRequest) s ∧
        s.calls.map Call.manager = [some 0, some 0] ∧ s.optionsOf 0 = some plainRequest := by
  refine ⟨plainRequest_asks, otherRequest_asks, by decide, ?_⟩
  obtain ⟨s, hrun, hoptions, hcalls⟩ := run_twoConnects plainRequest otherRequest
  exact ⟨s, hrun, by rw [hcalls]; rfl, hoptions⟩

end WebTransportBun.Facade.WasmConnect
