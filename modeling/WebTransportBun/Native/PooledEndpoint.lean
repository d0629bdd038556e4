/-
  WebTransportBun.Native.PooledEndpoint

  What a pool key says about the endpoint it stands for.  The key has the address, the TLS
  part of the options and the congestion control; the idle timeout, the keep-alive, the QPACK
  capacity and the limits reach the endpoint past it.  Two requests with one key would build the
  same endpoint iff these come to the same within the bounds that the transport sets to them
  (`pooled_endpoint_iff`).
-/

import WebTransportBun.Native.ConnectOptions

namespace WebTransportBun.Native.ConnectOptions

open Library ClientPool Pool Option

/-- What a stream may have in flight: its own window or its queue, and at least one datagram. -/
def streamBytes (limits : Limits) : Nat :=
  max (limits.streamReceiveWindow.getD limits.maxQueuedBytesPerStream) limits.maxDatagramSize

/-- What a session may have in flight, unless a window is requested for it. -/
def sessionBytes (limits : Limits) : Nat :=
  max limits.maxQueuedBytesPerSession (clampQuicWindow (streamBytes limits))

/-- The options that the key leaves out come to the same: a timeout or a window beyond the QUIC
    integers is as good as any other, a keep-alive counts up to half of the idle timeout, a
    datagram size from 64 KiB on. -/
structure Options.SameTransport (a b : Options) : Prop where
  idleTimeout : min a.idleTimeoutMs (quicVarintMax + 1) = min b.idleTimeoutMs (quicVarintMax + 1)
  keepAlive : min a.keepAliveIntervalMs (a.idleTimeoutMs / 2) =
    min b.keepAliveIntervalMs (b.idleTimeoutMs / 2)
  qpackMaxTableCapacity : a.qpackMaxTableCapacity = b.qpackMaxTableCapacity
  datagramSize : max a.limits.maxDatagramSize (64 * 1024) =
    max b.limits.maxDatagramSize (64 * 1024)
  streamWindow : clampQuicWindow (streamBytes a.limits) = clampQuicWindow (streamBytes b.limits)
  receiveWindow : clampQuicWindow (a.limits.receiveWindow.getD (sessionBytes a.limits)) =
    clampQuicWindow (b.limits.receiveWindow.getD (sessionBytes b.limits))
  sendWindow : clampQuicWindow (a.limits.sendWindow.getD (sessionBytes a.limits)) =
    clampQuicWindow (b.limits.sendWindow.getD (sessionBytes b.limits))

def Request.SameTransport (r₁ r₂ : Request) : Prop :=
  ∀ o₁ o₂, parseOptions r₁.opts = .ok o₁ → parseOptions r₂.opts = .ok o₂ → o₁.SameTransport o₂

/-- The digests of the CA files tell them apart. -/
def Request.NoCollision (env : Env) (r₁ r₂ : Request) : Prop :=
  ∀ o₁ o₂, parseOptions r₁.opts = .ok o₁ → parseOptions r₂.opts = .ok o₂ →
    o₁.caPem.map env.sha256 = o₂.caPem.map env.sha256 → o₁.caPem = o₂.caPem

/-- The request goes through the pool with this key, and would build this endpoint. -/
def Request.Asks (env : Env) (r : Request) (key : PoolKey)
    (endpoint : Except String ClientConfig) : Prop :=
  ∃ connectUrl timeout, runConnect env r = .ok (.pooled key connectUrl timeout endpoint)

/-! ## The parts of a plan -/

theorem parseOptions_ok {text : Except String Json} {o : Options} (h : parseOptions text = .ok o) :
    parseCongestionControl o.congestion = .ok o.congestionControl ∧
      (o.allowPooling = true → o.pinnedHashes = []) ∧
      o.caPem = tlsText (text.toOption.getD .null) "caPem" := by
  obtain ⟨limits, -, h⟩ := bind_eq_ok h
  obtain ⟨pins, -, h⟩ := bind_eq_ok h
  obtain ⟨_, hpool, h⟩ := bind_eq_ok h
  obtain ⟨_, _, h⟩ := bind_eq_ok h
  obtain ⟨capacity, -, h⟩ := bind_eq_ok h
  obtain ⟨mode, hmode, h⟩ := bind_eq_ok h
  cases h
  refine ⟨hmode, fun hallow => ?_, rfl⟩
  by_contra hpins
  exact not_of_refuse hpool ⟨hallow, hpins⟩

variable {env : Env}

/-- The destination, from the parts of the URL that the key has. -/
theorem address_eq {url₁ url₂ : String} {p₁ p₂ : Url} {name : Option String}
    (h₁ : env.parseUrl url₁ = .ok p₁) (h₂ : env.parseUrl url₂ = .ok p₂)
    (hscheme : env.scheme p₁ = env.scheme p₂) (hhost : env.hostStr p₁ = env.hostStr p₂)
    (hport : (env.port p₁).getD 443 = (env.port p₂).getD 443)
    {connect₁ connect₂ : String} {resolver₁ resolver₂ : Option SocketAddr}
    (hconnect₁ : connectUrlAndResolver env url₁ name = .ok (connect₁, resolver₁))
    (hconnect₂ : connectUrlAndResolver env url₂ name = .ok (connect₂, resolver₂)) :
    resolver₁ = resolver₂ ∧ connectDestinationIp env connect₁ resolver₁ =
      connectDestinationIp env connect₂ resolver₂ := by
  unfold connectUrlAndResolver at hconnect₁ hconnect₂
  rw [h₁] at hconnect₁
  rw [h₂] at hconnect₂
  dsimp only at hconnect₁ hconnect₂
  rw [← hhost, ← hport] at hconnect₂
  split at hconnect₁
  · next host sni hhost₁ hsni =>
    rw [hhost₁, hsni] at hconnect₂
    dsimp only at hconnect₂
    cases hip : env.parseIp host with
    | some ip =>
      rw [hip] at hconnect₁ hconnect₂
      cases hconnect₁
      cases hconnect₂
      exact ⟨rfl, rfl⟩
    | none =>
      rw [hip] at hconnect₁ hconnect₂
      cases hset₁ : env.setHost p₁ sni with
      | none =>
        rw [hset₁] at hconnect₁
        cases hconnect₁
      | some v₁ =>
        cases hset₂ : env.setHost p₂ sni with
        | none =>
          rw [hset₂] at hconnect₂
          cases hconnect₂
        | some v₂ =>
          rw [hset₁] at hconnect₁
          rw [hset₂] at hconnect₂
          cases hconnect₁
          cases hconnect₂
          have hv := env.hostStr_setHost p₁ p₂ sni v₁ v₂ hscheme hset₁ hset₂
          refine ⟨rfl, ?_⟩
          unfold connectDestinationIp
          rw [env.parseUrl_setHost p₁ sni v₁ hset₁, env.parseUrl_setHost p₂ sni v₂ hset₂]
          show (env.hostStr v₁).bind env.parseIp = (env.hostStr v₂).bind env.parseIp
          rw [hv]
  · next hnone =>
    split at hconnect₂
    · next host sni hhost₁ hsni => exact absurd hsni (hnone host sni hhost₁)
    · cases hconnect₁
      cases hconnect₂
      refine ⟨rfl, ?_⟩
      unfold connectDestinationIp
      rw [h₁, h₂]
      show (env.hostStr p₁).bind env.parseIp = (env.hostStr p₂).bind env.parseIp
      rw [hhost]

/-! ## Equal transports -/

theorem maxIdleTimeout_eq_iff (i j : Nat) :
    (if 0 < i then some (if i ≤ quicVarintMax then some i else none) else none) =
        (if 0 < j then some (if j ≤ quicVarintMax then some j else none) else none) ↔
      min i (quicVarintMax + 1) = min j (quicVarintMax + 1) := by
  split_ifs <;> simp <;> omega

theorem keepAliveInterval_eq_iff (i j k l : Nat) :
    (if 0 < i then if 0 < min k (i / 2) then some (min k (i / 2)) else none else none) =
        (if 0 < j then if 0 < min l (j / 2) then some (min l (j / 2)) else none else none) ↔
      min k (i / 2) = min l (j / 2) := by
  split_ifs <;> simp <;> omega

theorem clamp_clamp (n : Nat) : clampQuicWindow (clampQuicWindow n) = clampQuicWindow n := by
  simp only [clampQuicWindow]
  omega

theorem clamp_max_one (n m : Nat) :
    clampQuicWindow (max n (max m 1)) = clampQuicWindow (max n m) := by
  simp only [clampQuicWindow, quicVarintMax]
  omega

/-- The transport of a request, in terms of what its limits ask for. -/
theorem buildQuicTransportConfig_eq (mode : CongestionControlMode) (i k : Nat) (limits : Limits) :
    buildQuicTransportConfig mode i k limits =
      { applyCongestionController mode {} with
        streamReceiveWindow := some (clampQuicWindow (streamBytes limits))
        receiveWindow := some (clampQuicWindow (limits.receiveWindow.getD (sessionBytes limits)))
        sendWindow := some (clampQuicWindow (limits.sendWindow.getD (sessionBytes limits)))
        datagramReceiveBufferSize := some (max (256 * 1024) (max limits.maxDatagramSize 1))
        datagramSendBufferSize := some (max (64 * 1024) (max limits.maxDatagramSize 1))
        maxIdleTimeout :=
          if 0 < i then some (if i ≤ quicVarintMax then some i else none) else none
        keepAliveInterval :=
          if 0 < i then if 0 < min k (i / 2) then some (min k (i / 2)) else none else none } := by
  simp only [buildQuicTransportConfig, TransportMemoryPolicy.fromLimits,
    TransportMemoryPolicy.withH1bDatagramBuffers, TransportMemoryPolicy.withDatagramBuffers,
    TransportMemoryPolicy.applyFlowControl, clamp_clamp, clamp_max_one]
  split <;> rfl

theorem transport_eq_iff (mode : CongestionControlMode) (a b : Options) :
    buildQuicTransportConfig mode a.idleTimeoutMs a.keepAliveIntervalMs a.limits =
          buildQuicTransportConfig mode b.idleTimeoutMs b.keepAliveIntervalMs b.limits ∧
        a.qpackMaxTableCapacity = b.qpackMaxTableCapacity ↔ a.SameTransport b := by
  rw [buildQuicTransportConfig_eq, buildQuicTransportConfig_eq]
  simp only [QuicTransportConfig.mk.injEq, maxIdleTimeout_eq_iff, keepAliveInterval_eq_iff,
    some.injEq]
  constructor
  · rintro ⟨⟨hstream, hreceive, hsend, -, hdatagram, -, hidle, hkeep⟩, hqpack⟩
    exact ⟨hidle, hkeep, hqpack, by omega, hstream, hreceive, hsend⟩
  · rintro ⟨hidle, hkeep, hqpack, hdatagram, hstream, hreceive, hsend⟩
    exact ⟨⟨hstream, hreceive, hsend, by omega, by omega, trivial, hidle, hkeep⟩, hqpack⟩

theorem hostStr_eq {p₁ p₂ : Url}
    (h : (env.hostStr p₁).getD "" = (env.hostStr p₂).getD "") :
    env.hostStr p₁ = env.hostStr p₂ := by
  have h₁ := env.hostStr_ne p₁
  have h₂ := env.hostStr_ne p₂
  cases hhost₁ : env.hostStr p₁ <;> cases hhost₂ : env.hostStr p₂ <;>
    simp_all

/-- What a plan through the pool consists of. -/
theorem Request.Asks.parts {r : Request} {key : PoolKey}
    {endpoint : Except String ClientConfig} (h : r.Asks env key endpoint) :
    ∃ o p connectUrl resolver, parseOptions r.opts = .ok o ∧ o.allowPooling = true ∧
      env.parseUrl r.url = .ok p ∧ key = poolKey env p o ∧
      connectUrlAndResolver env r.url o.serverName = .ok (connectUrl, resolver) ∧
      endpoint = buildWtransportClientConfig env o
        (connectDestinationIp env connectUrl resolver) resolver := by
  obtain ⟨connectUrl, timeout, h⟩ := h
  obtain ⟨o, ho, h⟩ := bind_eq_ok h
  obtain ⟨⟨connectUrl', resolver⟩, hconnect, h⟩ := bind_eq_ok h
  dsimp only at h
  split at h
  · next hpool =>
    split at h
    · next p hp =>
      cases h
      exact ⟨o, p, connectUrl, resolver, ho, hpool, hp, rfl, hconnect, rfl⟩
    · cases h
  · split at h
    · cases h
    · obtain ⟨config, -, h⟩ := bind_eq_ok h
      cases h

/-- Under one key the configurations have the same address and trust, and are equal iff the
    transports are. -/
theorem buildWtransportClientConfig_eq_iff {a b : Options} {destination : Option IpAddr}
    {resolver : Option SocketAddr} (hmode : a.congestionControl = b.congestionControl)
    (hinsecure : a.insecureSkipVerify = b.insecureSkipVerify) (hpem : a.caPem = b.caPem)
    (hpins : a.pinnedHashes = b.pinnedHashes) :
    buildWtransportClientConfig env a destination resolver =
        buildWtransportClientConfig env b destination resolver ↔
      (∃ message, buildWtransportClientConfig env a destination resolver = .error message) ∨
        a.SameTransport b := by
  simp only [buildWtransportClientConfig, ← hmode, ← hinsecure, ← hpem, ← hpins,
    ← transport_eq_iff a.congestionControl a b]
  cases buildClientTlsParts env a.insecureSkipVerify a.caPem a.pinnedHashes with
  | error message => exact ⟨fun _ => .inl ⟨message, rfl⟩, fun _ => rfl⟩
  | ok tls => simp [bind, Except.bind, pure, Except.pure]

/-- Two requests with one key would build the same endpoint iff they build none, or their
    options beyond the key come to the same. -/
theorem endpoint_eq_iff {r₁ r₂ : Request} {key : PoolKey}
    {endpoint₁ endpoint₂ : Except String ClientConfig} (h₁ : r₁.Asks env key endpoint₁)
    (h₂ : r₂.Asks env key endpoint₂) (hpems : r₁.NoCollision env r₂) :
    endpoint₁ = endpoint₂ ↔ (∃ message, endpoint₁ = .error message) ∨ r₁.SameTransport r₂ := by
  obtain ⟨a, p₁, url₁, resolver₁, ha, hpool₁, hp₁, rfl, hconnect₁, rfl⟩ := h₁.parts
  obtain ⟨b, p₂, url₂, resolver₂, hb, hpool₂, hp₂, hkey, hconnect₂, rfl⟩ := h₂.parts
  obtain ⟨hmode₁, hpins₁, -⟩ := parseOptions_ok ha
  obtain ⟨hmode₂, hpins₂, -⟩ := parseOptions_ok hb
  simp only [poolKey, PoolKey.mk.injEq] at hkey
  obtain ⟨hscheme, hhost, hport, hname, hinsecure, -, hpem, -, hcongestion⟩ := hkey
  rw [← hname] at hconnect₂
  obtain ⟨hresolver, hdestination⟩ :=
    address_eq hp₁ hp₂ hscheme (hostStr_eq hhost) hport hconnect₁ hconnect₂
  have hmode : a.congestionControl = b.congestionControl := by
    rw [hcongestion, hmode₂] at hmode₁
    exact (Except.ok.inj hmode₁).symm
  have hsame : r₁.SameTransport r₂ ↔ a.SameTransport b := by
    constructor
    · exact fun h => h a b ha hb
    · intro h o₁ o₂ ho₁ ho₂
      cases ha.symm.trans ho₁
      cases hb.symm.trans ho₂
      exact h
  rw [hsame, ← hdestination, ← hresolver]
  exact buildWtransportClientConfig_eq_iff hmode hinsecure (hpems a b ha hb hpem)
    ((hpins₁ hpool₁).trans (hpins₂ hpool₂).symm)

theorem Request.Asks.unique {r : Request} {key : PoolKey}
    {endpoint endpoint' : Except String ClientConfig} (h : r.Asks env key endpoint)
    (h' : r.Asks env key endpoint') : endpoint = endpoint' := by
  obtain ⟨url, timeout, h⟩ := h
  obtain ⟨url', timeout', h'⟩ := h'
  cases h.symm.trans h'
  rfl

/-- The calls of a pool were made for these requests; an endpoint may fail to start. -/
def Serves (env : Env) (requests : List Request) (s : Pool PoolKey ClientConfig) : Prop :=
  ∀ (j : Nat) (c : Call PoolKey ClientConfig), s.calls[j]? = some c →
    ∃ r endpoint, requests[j]? = some r ∧ r.Asks env c.key endpoint ∧
      ∀ e, c.created = .ok e → endpoint = .ok e

/-- Two requests with one key, whose CA files do not collide, would build the same endpoint iff
    neither can be built or their options beyond the key come to the same.  In every run of the
    pool an entry's endpoint was built for a request with the key of each session on it, and a
    session is on the endpoint that it asked for iff its options and that request's come to the
    same. -/
theorem pooled_endpoint_iff (env : Env) :
    (∀ r₁ r₂ key endpoint₁ endpoint₂, Request.Asks env r₁ key endpoint₁ →
      Request.Asks env r₂ key endpoint₂ → r₁.NoCollision env r₂ →
      (endpoint₁ = endpoint₂ ↔ (∃ message, endpoint₁ = .error message) ∨ r₁.SameTransport r₂)) ∧
    ∀ ops s requests, Run Pool.Step .new ops s → Serves env requests s →
      (∀ r₁ ∈ requests, ∀ r₂ ∈ requests, r₁.NoCollision env r₂) →
      ∀ (j : Nat) (c : Call PoolKey ClientConfig) (id : Nat) (e : ClientConfig),
        s.calls[j]? = some c → c.phase.holds = some id → s.endpoint id = some e →
        ∃ r maker : Request, requests[j]? = some r ∧ maker ∈ requests ∧
          maker.Asks env c.key (.ok e) ∧ (r.Asks env c.key (.ok e) ↔ r.SameTransport maker) := by
  refine ⟨fun r₁ r₂ key endpoint₁ endpoint₂ h₁ h₂ hpems => endpoint_eq_iff h₁ h₂ hpems, ?_⟩
  intro ops s requests hrun hserves hpems j c id e hc hholds he
  have hmade : s.Made :=
    hrun.invariant (fun _ _ _ h hstep => h.effect (step_effect hstep)) made_new
  -- the maker of the entry had the same key
  obtain ⟨m, key, hm, -, hheld⟩ := hmade.maker id e he
  obtain ⟨maker, hmaker, hrequest⟩ := map_eq_some_iff.mp hm
  simp only [Prod.mk.injEq] at hrequest
  obtain ⟨rfl, hcreated⟩ := hrequest
  have hkey : c.key = maker.key := by
    refine hheld j (c.key, c.created) ?_ ?_
    · rw [request, hc]
      rfl
    · rw [holder, hc]
      exact hholds
  obtain ⟨r, endpoint, hr, hasks, -⟩ := hserves j c hc
  obtain ⟨r', endpoint', hr', hasks', hbuilt⟩ := hserves m maker hmaker
  rw [hbuilt e hcreated, ← hkey] at hasks'
  have hr'mem := List.mem_of_getElem? hr'
  refine ⟨r, r', hr, hr'mem, hasks', ?_⟩
  have hiff := endpoint_eq_iff hasks hasks' (hpems r (List.mem_of_getElem? hr) r' hr'mem)
  have hbuilds : ∀ message, endpoint ≠ .error message := by
    intro message herror
    cases herror.symm.trans (hiff.mpr (.inl ⟨message, herror⟩))
  constructor
  · intro hgot
    rcases hiff.mp (hasks.unique hgot) with ⟨message, herror⟩ | hsame
    · exact absurd herror (hbuilds message)
    · exact hsame
  · intro hsame
    exact hiff.mpr (.inr hsame) ▸ hasks

/-- Crates for which a URL is the name of its host. -/
def plainHosts : Env where
  parseUrl text := .ok ⟨text⟩
  scheme _ := "https"
  hostStr u := if u.serialization = "" then none else some u.serialization
  port _ := none
  path _ := "/"
  query _ := none
  setHost _ name := some ⟨name⟩
  parseIp _ := none
  sha256 text := text.toUTF8.toList
  platformRootCerts := []
  pemSliceIter _ := []
  acceptsRoot _ := true
  hostStr_ne u h := by
    split at h
    · cases h
    · next hne => exact hne (some.inj h)
  parseUrl_setHost u name v h := by
    cases h
    rfl
  hostStr_setHost u u' name v v' hscheme hv hv' := by
    cases hv
    cases hv'
    rfl

/-- A connect through the pool that leaves every other option to its default. -/
def plainRequest : Request := ⟨"example.test", .ok (.object [("allowPooling", .bool true)])⟩

/-- The same with limits of its own. -/
def limitedRequest (limits : List (String × Json)) : Request :=
  ⟨"example.test", .ok (.object [("allowPooling", .bool true), ("limits", .object limits)])⟩

def impatientRequest : Request := limitedRequest [("idleTimeoutMs", .number 1000)]

def plainKey : PoolKey :=
  ⟨"https", "example.test", 443, none, false, false, none, false, "default"⟩

/-- The endpoint of a request with an idle timeout and the keep-alive that comes with it. -/
def plainConfig (idleTimeoutMs keepAliveMs : Nat) : ClientConfig where
  bind := .inAddrAnyDual
  tls := ⟨[], .webPki⟩
  transport :=
    { streamReceiveWindow := some (256 * 1024)
      receiveWindow := some (2 * 1024 * 1024)
      sendWindow := some (2 * 1024 * 1024)
      datagramReceiveBufferSize := some (256 * 1024)
      datagramSendBufferSize := some (64 * 1024)
      congestionController := some .cubic
      maxIdleTimeout := some (some idleTimeoutMs)
      keepAliveInterval := some keepAliveMs }
  qpackMaxTableCapacity := 0
  dnsResolver := none

theorem plainRequest_asks : plainRequest.Asks plainHosts plainKey (.ok (plainConfig 30000 10000)) :=
  ⟨"example.test", 10000, rfl⟩

theorem impatientRequest_asks :
    impatientRequest.Asks plainHosts plainKey (.ok (plainConfig 1000 333)) :=
  ⟨"example.test", 10000, rfl⟩

/-- Two connects of one key, one after the other, each with the endpoint it would build. -/
def twoConnects (first second : ClientConfig) : List (Op PoolKey ClientConfig) :=
  [.call plainKey (.ok first), .step 0 0 [], .step 0 0 [], .step 0 0 [], .connect 0 .connected,
    .call plainKey (.ok second), .step 1 1 [plainKey], .step 1 1 [], .step 1 1 [], .step 1 1 [],
    .connect 1 .connected]

theorem run_twoConnects (first second : ClientConfig) :
    ∃ s, Run Pool.Step .new (twoConnects first second) s ∧ s.endpoint 0 = some first ∧
      s.calls = [⟨plainKey, .ok first, .live 0⟩, ⟨plainKey, .ok second, .live 0⟩] := by
  have hexec : (execAll exec .new (twoConnects first second)).map
      (fun s => (s.endpoint 0, s.calls)) =
        some (some first, [⟨plainKey, .ok first, .live 0⟩, ⟨plainKey, .ok second, .live 0⟩]) := rfl
  obtain ⟨s, hs, hstate⟩ := map_eq_some_iff.mp hexec
  simp only [Prod.mk.injEq] at hstate
  exact ⟨s, Run.of_execAll (fun _ _ _ h => h) hs, hstate⟩

def keepAliveRequest (ms : Nat) : Request := limitedRequest [("keepAliveIntervalMs", .number ms)]

theorem noCollision_of_noTls {env : Env} {r₁ r₂ : Request}
    (h₁ : tlsText (r₁.opts.toOption.getD .null) "caPem" = none)
    (h₂ : tlsText (r₂.opts.toOption.getD .null) "caPem" = none) : r₁.NoCollision env r₂ := by
  intro o₁ o₂ ho₁ ho₂ _
  rw [(parseOptions_ok ho₁).2.2, (parseOptions_ok ho₂).2.2, h₁, h₂]

/-- Keep-alives of 20 and of 25 seconds are both cut to half of the idle timeout, and each session
    is on the endpoint that it asked for; an idle timeout of one second is another endpoint. -/
theorem pooled_endpoint_iff_keepAlive :
    (∃ s, Run Pool.Step .new (twoConnects (plainConfig 30000 15000) (plainConfig 30000 15000)) s ∧
      s.holder 1 = some 0 ∧ ∃ maker ∈ [keepAliveRequest 20000, keepAliveRequest 25000],
        (keepAliveRequest 25000).SameTransport maker) ∧
      ¬ plainRequest.SameTransport impatientRequest := by
  have hiff := pooled_endpoint_iff plainHosts
  constructor
  · obtain ⟨s, hrun, hendpoint, hcalls⟩ :=
      run_twoConnects (plainConfig 30000 15000) (plainConfig 30000 15000)
    have hasks : ∀ ms ∈ [20000, 25000],
        (keepAliveRequest ms).Asks plainHosts plainKey (.ok (plainConfig 30000 15000)) := by
      simp only [List.mem_cons, List.not_mem_nil, or_false, forall_eq_or_imp, forall_eq]
      exact ⟨⟨"example.test", 10000, rfl⟩, ⟨"example.test", 10000, rfl⟩⟩
    have hserves : Serves plainHosts [keepAliveRequest 20000, keepAliveRequest 25000] s := by
      intro j c hc
      rw [hcalls] at hc
      match j with
      | 0 =>
        cases hc
        exact ⟨_, _, rfl, hasks 20000 (by simp), fun e he => he⟩
      | 1 =>
        cases hc
        exact ⟨_, _, rfl, hasks 25000 (by simp), fun e he => he⟩
      | j + 2 => cases hc
    have hpems : ∀ r₁ ∈ [keepAliveRequest 20000, keepAliveRequest 25000],
        ∀ r₂ ∈ [keepAliveRequest 20000, keepAliveRequest 25000], r₁.NoCollision plainHosts r₂ := by
      simp only [List.mem_cons, List.not_mem_nil, or_false, forall_eq_or_imp, forall_eq]
      exact ⟨⟨noCollision_of_noTls rfl rfl, noCollision_of_noTls rfl rfl⟩,
        noCollision_of_noTls rfl rfl, noCollision_of_noTls rfl rfl⟩
    obtain ⟨r, maker, hr, hmaker, -, hsame⟩ := hiff.2 _ s _ hrun hserves hpems 1
      ⟨plainKey, .ok (plainConfig 30000 15000), .live 0⟩ 0 _ (by rw [hcalls]; rfl) rfl hendpoint
    cases hr
    exact ⟨s, hrun, by rw [holder, hcalls]; rfl, maker, hmaker,
      hsame.mp (hasks 25000 (by simp))⟩
  · intro hsame
    have heq := (hiff.1 _ _ _ _ _ plainRequest_asks impatientRequest_asks
      (noCollision_of_noTls rfl rfl)).mpr (.inr hsame)
    cases heq

/-- A request with an idle timeout of one second and one without have the same key but not the
    same endpoint: the second session closes after one second of silence instead of thirty. -/
theorem pooled_session_gets_other_timeout :
    impatientRequest.Asks plainHosts plainKey (.ok (plainConfig 1000 333)) ∧
      plainRequest.Asks plainHosts plainKey (.ok (plainConfig 30000 10000)) ∧
      ∃ s, Run Pool.Step .new (twoConnects (plainConfig 1000 333) (plainConfig 30000 10000)) s ∧
        s.holder 1 = some 0 ∧ s.endpoint 0 = some (plainConfig 1000 333) := by
  refine ⟨impatientRequest_asks, plainRequest_asks, ?_⟩
  obtain ⟨s, hrun, hendpoint, hcalls⟩ :=
    run_twoConnects (plainConfig 1000 333) (plainConfig 30000 10000)
  exact ⟨s, hrun, by rw [holder, hcalls]; rfl, hendpoint⟩

end WebTransportBun.Native.ConnectOptions
