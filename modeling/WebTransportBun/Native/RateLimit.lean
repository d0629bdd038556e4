/-
  WebTransportBun.Native.RateLimit

  Admission of sessions in the native server: the handshake bucket of the peer's address,
  the session counters of its address and of its prefix, and the `maxSessions` gate of the
  server.  The counters of all servers of a process are in two maps, keyed by the server and
  the address or the prefix.

  What a server answers to the peers of one prefix is decided by those peers, as long as
  the global gate is not reached (`prefix_isolation`) — if no address is reported as an
  IPv4-mapped IPv6 address.  Those are not unmapped here, unlike in the governor of the wasm
  build, and all of them share the prefix `::/64`.

  The arithmetic of the token buckets (`f64` over `Instant`) is a parameter.
-/

import Mathlib.Algebra.Ring.Nat
import Mathlib.Logic.Function.Basic
import WebTransportBun.Library.Isolation
import WebTransportBun.Native.Config

namespace WebTransportBun.Native.RateLimit

open Library Function Option

/-! ## Addresses -/

/-- `ip_prefix`: the /24 of an IPv4 address, the /64 of an IPv6 address. -/
def ipPrefix : IpAddr → IpAddr
  | .v4 a b c _ => .v4 a b c 0
  | .v6 s0 s1 s2 s3 _ _ _ _ => .v6 s0 s1 s2 s3 0 0 0 0

/-- The prefix of a peer, however its address is reported. -/
def peerPrefix (ip : IpAddr) : IpAddr := ipPrefix ip.canonical

theorem peerPrefix_of_not_mapped {ip : IpAddr} (h : ¬ ip.Mapped) : peerPrefix ip = ipPrefix ip := by
  rw [peerPrefix, Decidable.not_not.mp h]

/-! ## State -/

/-- `ScopedKey`: the owning server and an address. -/
abbrev Key := Nat × IpAddr

/-- A bucket at its start, one token taken from it, and whether it has been idle too long. -/
structure Buckets (β τ : Type) where
  fresh : τ → β
  take : τ → β → Bool × β
  stale : τ → β → Bool

structure RateLimits where
  handshakesBurstPerIp : Nat := 40
  handshakesBurstPerPrefix : Nat := 100
  deriving DecidableEq, Repr

/-- The limits and the rate limits of a server. -/
structure ServerLimits extends Limits, RateLimits

structure State (β : Type) where
  handshakeBuckets : Key → Option β := fun _ => none
  perIpSessions : Key → Option Nat := fun _ => none
  perPrefixSessions : Key → Option Nat := fun _ => none
  /-- `sessions_active` of each server. -/
  sessionsActive : Nat → Nat := fun _ => 0

inductive Outcome
  | accepted
  | rateLimited
  | limitExceeded
  deriving DecidableEq, Repr

/-- What happens to the maps: a request of a peer, the end of a session, the end of a
    request that was over `maxSessions`, the periodic cleanup, and the end of a server. -/
inductive Op (τ : Type)
  | admission (server : Nat) (ip : IpAddr) (now : τ)
  | release (server : Nat) (ip : IpAddr)
  | rejected (server : Nat) (ip : IpAddr)
  | cleanup (now : τ)
  | closeServer (server : Nat)
  deriving DecidableEq, Repr

/-! ## Counters -/

/-- A burst limit of zero stands for the default. -/
def burstOr (default limit : Nat) : Nat := if 0 < limit then limit else default

/-- The entry's `fetch_update` in `try_acquire_per_ip_session_with_prefix`. -/
def tryIncrement (counters : Key → Option Nat) (key : Key) (burst : Nat) :
    Bool × (Key → Option Nat) :=
  let n := (counters key).getD 0
  if n < burst then (true, update counters key (some (n + 1)))
  else (false, update counters key (some n))

/-- `release_per_ip_session_inner` and `release_per_prefix_session_inner`: a counter that
    falls to zero is removed. -/
def releaseInner (counters : Key → Option Nat) (key : Key) : Key → Option Nat :=
  match counters key with
  | none => counters
  | some n => update counters key (if n ≤ 1 then none else some (n - 1))

section

variable {β τ : Type} (buckets : Buckets β τ) (limits : Nat → ServerLimits)

section

variable (s : State β)

section

variable (server : Nat)

section

variable (ip : IpAddr)

def tryAcquireHandshake (now : τ) : Bool × State β :=
  let bucket := (s.handshakeBuckets (server, ip)).getD (buckets.fresh now)
  let (ok, bucket) := buckets.take now bucket
  (ok, { s with handshakeBuckets := update s.handshakeBuckets (server, ip) (some bucket) })

def tryAcquirePerIpSessionWithPrefix (burstLimit prefixBurstLimit : Nat) : Bool × State β :=
  let (ipOk, perIp) := tryIncrement s.perIpSessions (server, ip) (burstOr 40 burstLimit)
  if ¬ ipOk then (false, { s with perIpSessions := perIp })
  else
    let (prefixOk, perPrefix) :=
      tryIncrement s.perPrefixSessions (server, ipPrefix ip) (burstOr 100 prefixBurstLimit)
    if ¬ prefixOk then
      (false, { s with
        perIpSessions := releaseInner perIp (server, ip)
        perPrefixSessions := perPrefix })
    else (true, { s with perIpSessions := perIp, perPrefixSessions := perPrefix })

def releasePerIpSession : State β :=
  { s with
    perIpSessions := releaseInner s.perIpSessions (server, ip)
    perPrefixSessions := releaseInner s.perPrefixSessions (server, ipPrefix ip) }

/-- The admission of a request.  Over `maxSessions` the counters of the peer are held until
    the rejection is done. -/
def admission (now : τ) : State β × Outcome :=
  let (handshakeOk, s) := tryAcquireHandshake buckets s server ip now
  if ¬ handshakeOk then (s, .rateLimited)
  else
    let (sessionOk, s) := tryAcquirePerIpSessionWithPrefix s server ip
      (limits server).handshakesBurstPerIp (limits server).handshakesBurstPerPrefix
    if ¬ sessionOk then (s, .rateLimited)
    else if (limits server).maxSessions ≤ s.sessionsActive server then (s, .limitExceeded)
    else
      let active := s.sessionsActive server + 1
      ({ s with sessionsActive := update s.sessionsActive server active }, .accepted)

end

end

/-- One operation; only admissions have an outcome.  `sessions_active` wraps when it is
    decremented at zero. -/
def step : Op τ → State β × Option Outcome
  | .admission server ip now =>
    let (s, outcome) := admission buckets limits s server ip now
    (s, some outcome)
  | .release server ip =>
    let s := releasePerIpSession s server ip
    let active := (s.sessionsActive server + 2 ^ 64 - 1) % 2 ^ 64
    ({ s with sessionsActive := update s.sessionsActive server active }, none)
  | .rejected server ip => (releasePerIpSession s server ip, none)
  | .cleanup now =>
    ({ s with
      handshakeBuckets := fun key => (s.handshakeBuckets key).filter fun b => ¬ buckets.stale now b
      perIpSessions := fun key => (s.perIpSessions key).filter fun n => 0 < n
      perPrefixSessions := fun key => (s.perPrefixSessions key).filter fun n => 0 < n }, none)
  | .closeServer server =>
    ({ s with
      handshakeBuckets := fun key => if key.1 = server then none else s.handshakeBuckets key
      perIpSessions := fun key => if key.1 = server then none else s.perIpSessions key
      perPrefixSessions := fun key => if key.1 = server then none else s.perPrefixSessions key },
      none)

end

end

/-! ### What the counters read -/

variable {counters : Key → Option Nat}

theorem tryIncrement_of_lt {key : Key} {burst : Nat}
    (h : (counters key).getD 0 < burst) : tryIncrement counters key burst =
      (true, update counters key (some ((counters key).getD 0 + 1))) := if_pos h

theorem tryIncrement_of_le {key : Key} {burst : Nat}
    (h : ¬ (counters key).getD 0 < burst) : tryIncrement counters key burst =
      (false, update counters key (some ((counters key).getD 0))) := if_neg h

theorem getD_update {K : Type} [DecidableEq K] (counters : K → Option Nat) (key key' : K)
    (n : Nat) :
    (update counters key (some n) key').getD 0 =
      if key' = key then n else (counters key').getD 0 := by
  by_cases hkey : key' = key
  · subst hkey
    rw [update_self, if_pos rfl, getD_some]
  · rw [update_of_ne hkey, if_neg hkey]

theorem getD_releaseInner (counters : Key → Option Nat) (key key' : Key) :
    (releaseInner counters key key').getD 0 =
      if key' = key then (counters key).getD 0 - 1 else (counters key').getD 0 := by
  unfold releaseInner
  cases hn : counters key with
  | none => grind
  | some n => grind

theorem getD_filter_pos (n : Option Nat) : (n.filter fun n => 0 < n).getD 0 = n.getD 0 := by
  cases n with
  | none => rfl
  | some n => cases n <;> rfl

/-! ## One prefix on one server -/

section

variable {β τ : Type} (server : Nat) (p : IpAddr)

/-- The operations of one server and of the peers of one prefix. -/
def Op.Concerns : Op τ → Prop
  | .admission server' ip _ => server' = server ∧ peerPrefix ip = p
  | .release server' ip => server' = server ∧ peerPrefix ip = p
  | .rejected server' ip => server' = server ∧ peerPrefix ip = p
  | .cleanup _ => True
  | .closeServer server' => server' = server

instance : DecidablePred (Op.Concerns server p : Op τ → Prop)
  | .admission _ _ _ => inferInstanceAs (Decidable (_ ∧ _))
  | .release _ _ => inferInstanceAs (Decidable (_ ∧ _))
  | .rejected _ _ => inferInstanceAs (Decidable (_ ∧ _))
  | .cleanup _ => inferInstanceAs (Decidable True)
  | .closeServer _ => inferInstanceAs (Decidable (_ = _))

/-- An operation about a peer whose address is reported as IPv4-mapped. -/
def Op.Mapped : Op τ → Prop
  | .admission _ ip _ => ip.Mapped
  | .release _ ip => ip.Mapped
  | .rejected _ ip => ip.Mapped
  | .cleanup _ => False
  | .closeServer _ => False

instance : DecidablePred (Op.Mapped : Op τ → Prop)
  | .admission _ ip _ => inferInstanceAs (Decidable ip.Mapped)
  | .release _ ip => inferInstanceAs (Decidable ip.Mapped)
  | .rejected _ ip => inferInstanceAs (Decidable ip.Mapped)
  | .cleanup _ => inferInstanceAs (Decidable False)
  | .closeServer _ => inferInstanceAs (Decidable False)

/-- What the peers of one prefix have on one server. -/
@[ext] structure View (β : Type) where
  handshakes : IpAddr → Option β
  perIp : IpAddr → Nat
  group : Nat

def view (s : State β) : View β where
  handshakes ip := if peerPrefix ip = p then s.handshakeBuckets (server, ip) else none
  perIp ip := if peerPrefix ip = p then (s.perIpSessions (server, ip)).getD 0 else 0
  group := (s.perPrefixSessions (server, p)).getD 0

/-- The operations of a prefix as if there were no others and no global gate. -/
def alone (buckets : Buckets β τ) (limits : ServerLimits) (v : View β) :
    Op τ → View β × Option Outcome
  | .admission _ ip now =>
    let token := buckets.take now ((v.handshakes ip).getD (buckets.fresh now))
    let v := { v with handshakes := update v.handshakes ip (some token.2) }
    if token.1 ∧ v.perIp ip < burstOr 40 limits.handshakesBurstPerIp ∧
        v.group < burstOr 100 limits.handshakesBurstPerPrefix then
      ({ v with perIp := update v.perIp ip (v.perIp ip + 1), group := v.group + 1 },
        some .accepted)
    else (v, some .rateLimited)
  | .release _ ip =>
    ({ v with perIp := update v.perIp ip (v.perIp ip - 1), group := v.group - 1 }, none)
  | .rejected _ ip =>
    ({ v with perIp := update v.perIp ip (v.perIp ip - 1), group := v.group - 1 }, none)
  | .cleanup now =>
    ({ v with handshakes := fun ip => (v.handshakes ip).filter fun b => ¬ buckets.stale now b },
      none)
  | .closeServer _ => (⟨fun _ => none, fun _ => 0, 0⟩, none)

variable {server p}

variable {buckets : Buckets β τ} {limits : Nat → ServerLimits} {s s' : State β} {ip : IpAddr}
    {now : τ}

theorem view_eq_of_counts {n m : Nat} (hip : peerPrefix ip = p)
    (hbuckets : s'.handshakeBuckets = s.handshakeBuckets)
    (hperIp : ∀ ip', (s'.perIpSessions (server, ip')).getD 0 =
      if ip' = ip then n else (s.perIpSessions (server, ip')).getD 0)
    (hgroup : (s'.perPrefixSessions (server, p)).getD 0 = m) :
    view server p s' = { view server p s with
      perIp := update (view server p s).perIp ip n, group := m } := by
  ext1
  · simp only [view, hbuckets]
  · grind [view]
  · exact hgroup

theorem view_eq_of_elsewhere (hbuckets : ∀ ip, peerPrefix ip = p →
      s'.handshakeBuckets (server, ip) = s.handshakeBuckets (server, ip))
    (hperIp : ∀ ip, peerPrefix ip = p →
      (s'.perIpSessions (server, ip)).getD 0 = (s.perIpSessions (server, ip)).getD 0)
    (hgroup :
      (s'.perPrefixSessions (server, p)).getD 0 = (s.perPrefixSessions (server, p)).getD 0) :
    view server p s' = view server p s := by
  ext1
  · grind [view]
  · grind [view]
  · exact hgroup

theorem perIp_view (hip : peerPrefix ip = p) :
    (view server p s).perIp ip = (s.perIpSessions (server, ip)).getD 0 := if_pos hip

theorem handshakes_view (hip : peerPrefix ip = p) :
    (view server p s).handshakes ip = s.handshakeBuckets (server, ip) := if_pos hip

/-! ### The operations of the prefix -/

theorem tryAcquireHandshake_own (hip : peerPrefix ip = p) :
    let token := buckets.take now (((view server p s).handshakes ip).getD (buckets.fresh now))
    (tryAcquireHandshake buckets s server ip now).1 = token.1 ∧
      view server p (tryAcquireHandshake buckets s server ip now).2 =
        { view server p s with
          handshakes := update (view server p s).handshakes ip (some token.2) } := by
  rw [handshakes_view hip]
  refine ⟨rfl, View.ext (funext fun ip' => ?_) rfl rfl⟩
  by_cases hsame : ip' = ip
  · subst hsame
    simp [view, tryAcquireHandshake, hip]
  · have hkey : (server, ip') ≠ (server, ip) := fun heq => hsame (Prod.mk.inj heq).2
    simp [view, tryAcquireHandshake, update_of_ne hsame, update_of_ne hkey]

variable {burst prefixBurst : Nat}

theorem sessionsActive_tryAcquire :
    (tryAcquirePerIpSessionWithPrefix s server ip burst prefixBurst).2.sessionsActive =
      s.sessionsActive := by
  simp only [tryAcquirePerIpSessionWithPrefix]
  split
  · rfl
  · split <;> rfl

section

variable (hip : peerPrefix ip = p)

include hip

section

variable (hp : ipPrefix ip = p)

include hp

/-- Both counters have room and are incremented. -/
theorem tryAcquire_room (hroom : (view server p s).perIp ip < burstOr 40 burst)
    (hgroup : (view server p s).group < burstOr 100 prefixBurst) :
    (tryAcquirePerIpSessionWithPrefix s server ip burst prefixBurst).1 = true ∧
      view server p (tryAcquirePerIpSessionWithPrefix s server ip burst prefixBurst).2 =
        { view server p s with
          perIp := update (view server p s).perIp ip ((view server p s).perIp ip + 1)
          group := (view server p s).group + 1 } := by
  rw [perIp_view hip] at hroom ⊢
  have hgroup : (s.perPrefixSessions (server, ipPrefix ip)).getD 0 < _ := hp ▸ hgroup
  simp only [tryAcquirePerIpSessionWithPrefix, tryIncrement_of_lt hroom,
    tryIncrement_of_lt hgroup, not_true_eq_false, if_false, true_and]
  refine view_eq_of_counts hip rfl (fun ip' => ?_) ?_
  · simp only [getD_update, Prod.mk.injEq, true_and]
  · simp only [getD_update, hp]
    rfl

/-- Otherwise nothing is seen to change: an increment for the address is taken back. -/
theorem tryAcquire_full (hfull : ¬ ((view server p s).perIp ip < burstOr 40 burst ∧
      (view server p s).group < burstOr 100 prefixBurst)) :
    (tryAcquirePerIpSessionWithPrefix s server ip burst prefixBurst).1 = false ∧
      view server p (tryAcquirePerIpSessionWithPrefix s server ip burst prefixBurst).2 =
        view server p s := by
  rw [perIp_view hip] at hfull
  by_cases hroom : (s.perIpSessions (server, ip)).getD 0 < burstOr 40 burst
  · have hgroup : ¬ (s.perPrefixSessions (server, ipPrefix ip)).getD 0 < _ := fun hgroup =>
      hfull ⟨hroom, hp ▸ hgroup⟩
    simp only [tryAcquirePerIpSessionWithPrefix, tryIncrement_of_lt hroom,
      tryIncrement_of_le hgroup, not_true_eq_false, if_false, Bool.false_eq_true,
      not_false_eq_true, if_true, true_and]
    refine view_eq_of_elsewhere (fun _ _ => rfl) (fun ip' _ => ?_) ?_
    · simp only [getD_releaseInner, getD_update, if_pos,
        Nat.add_sub_cancel]
      split
      · next hsame => rw [hsame]
      · rfl
    · simp only [getD_update, hp, if_pos]
  · simp only [tryAcquirePerIpSessionWithPrefix, tryIncrement_of_le hroom, Bool.false_eq_true,
      not_false_eq_true, if_true, true_and]
    refine view_eq_of_elsewhere (fun _ _ => rfl) (fun ip' _ => ?_) rfl
    simp only [getD_update]
    split
    · next hsame => rw [hsame]
    · rfl

theorem view_releasePerIpSession :
    view server p (releasePerIpSession s server ip) =
      { view server p s with
        perIp := update (view server p s).perIp ip ((view server p s).perIp ip - 1)
        group := (view server p s).group - 1 } := by
  refine view_eq_of_counts hip rfl (fun ip' => ?_) ?_
  · simp only [releasePerIpSession, getD_releaseInner, perIp_view hip, Prod.mk.injEq, true_and]
  · simp only [releasePerIpSession, getD_releaseInner, hp]
    rfl

end

end

/-- The gate of the server is open when a peer of the prefix asks. -/
def GateOpen (limits : Nat → ServerLimits) (server : Nat) (p : IpAddr) (s : State β) : Op τ → Prop
  | .admission server' ip _ => server' = server ∧ peerPrefix ip = p →
      s.sessionsActive server < (limits server).maxSessions
  | _ => True

instance (limits : Nat → ServerLimits) (server : Nat) (p : IpAddr) (s : State β) (op : Op τ) :
    Decidable (GateOpen limits server p s op) :=
  match op with
  | .admission _ _ _ => inferInstanceAs (Decidable (_ → _))
  | .release _ _ => inferInstanceAs (Decidable True)
  | .rejected _ _ => inferInstanceAs (Decidable True)
  | .cleanup _ => inferInstanceAs (Decidable True)
  | .closeServer _ => inferInstanceAs (Decidable True)

theorem admission_own (hip : peerPrefix ip = p) (hp : ipPrefix ip = p)
    (hgate : s.sessionsActive server < (limits server).maxSessions) :
    (view server p (admission buckets limits s server ip now).1,
        some (admission buckets limits s server ip now).2) =
      alone buckets (limits server) (view server p s) (.admission server ip now) := by
  have hactive : (tryAcquireHandshake buckets s server ip now).2.sessionsActive =
      s.sessionsActive := rfl
  obtain ⟨htoken, hview⟩ : _ ∧ view server p (tryAcquireHandshake buckets s server ip now).2 = _ :=
    tryAcquireHandshake_own hip
  simp only [admission, alone]
  generalize tryAcquireHandshake buckets s server ip now = h at htoken hview hactive ⊢
  obtain ⟨ok, s₁⟩ := h
  rw [← htoken, ← hview]
  have hhandshakes : update (view server p s).handshakes ip (some (buckets.take now
      (((view server p s).handshakes ip).getD (buckets.fresh now))).2) =
        (view server p s₁).handshakes := (congrArg View.handshakes hview).symm
  have hperIp : (view server p s).perIp = (view server p s₁).perIp :=
    (congrArg View.perIp hview).symm
  have hgroup : (view server p s).group = (view server p s₁).group :=
    (congrArg View.group hview).symm
  rw [hperIp, hgroup]
  cases ok with
  | false => simp
  | true =>
    have hopen : ∀ {r : State β}, r.sessionsActive = s₁.sessionsActive →
        ¬ (limits server).maxSessions ≤ r.sessionsActive server := by
      intro r hr
      rw [hr, hactive]
      omega
    by_cases hroom : (view server p s₁).perIp ip < burstOr 40 (limits server).handshakesBurstPerIp ∧
        (view server p s₁).group < burstOr 100 (limits server).handshakesBurstPerPrefix
    · obtain ⟨hyes, hnext⟩ := tryAcquire_room hip hp hroom.1 hroom.2
      simp only [hyes, hopen sessionsActive_tryAcquire, hroom, hhandshakes]
      exact congrArg (fun v => (v, some Outcome.accepted)) hnext
    · obtain ⟨hno, hnext⟩ := tryAcquire_full hip hp hroom
      simp only [hno, hroom, and_false, not_true_eq_false, if_false, Bool.false_eq_true,
        not_false_eq_true, if_true, hnext]

/-! ### The operations of the others -/

theorem tryIncrement_of_ne {key key' : Key}
    (h : key' ≠ key) : (tryIncrement counters key burst).2 key' = counters key' := by
  simp only [tryIncrement]
  split <;> exact update_of_ne h _ _

theorem releaseInner_of_ne {key key' : Key} (h : key' ≠ key) :
    releaseInner counters key key' = counters key' := by
  cases hn : counters key with
  | none => simp only [releaseInner, hn]
  | some n => simp only [releaseInner, hn, update_of_ne h]

/-- `s'` has what `s` has, but for the entries of one peer. -/
structure WritesOnly (server : Nat) (ip : IpAddr) (s s' : State β) : Prop where
  buckets : ∀ key, key ≠ (server, ip) → s'.handshakeBuckets key = s.handshakeBuckets key
  perIp : ∀ key, key ≠ (server, ip) → s'.perIpSessions key = s.perIpSessions key
  perPrefix :
    ∀ key, key ≠ (server, ipPrefix ip) → s'.perPrefixSessions key = s.perPrefixSessions key

theorem WritesOnly.trans {s'' : State β} (h : WritesOnly server ip s s')
    (h' : WritesOnly server ip s' s'') : WritesOnly server ip s s'' where
  buckets key hkey := (h'.buckets key hkey).trans (h.buckets key hkey)
  perIp key hkey := (h'.perIp key hkey).trans (h.perIp key hkey)
  perPrefix key hkey := (h'.perPrefix key hkey).trans (h.perPrefix key hkey)

theorem WritesOnly.active (h : WritesOnly server ip s s') {active : Nat → Nat} :
    WritesOnly server ip s { s' with sessionsActive := active } :=
  ⟨h.buckets, h.perIp, h.perPrefix⟩

theorem WritesOnly.view_eq {server' : Nat} (h : WritesOnly server' ip s s')
    (helse : ¬ (server' = server ∧ peerPrefix ip = p)) (hplain : ¬ ip.Mapped) :
    view server p s' = view server p s := by
  have hkey : ∀ ip', peerPrefix ip' = p → (server, ip') ≠ (server', ip) := by grind
  refine view_eq_of_elsewhere (fun ip' hip' => h.buckets _ (hkey ip' hip'))
    (fun ip' hip' => congrArg (·.getD 0) (h.perIp _ (hkey ip' hip'))) ?_
  refine congrArg (·.getD 0) (h.perPrefix _ fun heq => helse ?_)
  obtain ⟨hserver, hp⟩ := Prod.mk.inj heq
  exact ⟨hserver.symm, (peerPrefix_of_not_mapped hplain).trans hp.symm⟩

theorem tryAcquireHandshake_writes :
    WritesOnly server ip s (tryAcquireHandshake buckets s server ip now).2 where
  buckets _ hkey := update_of_ne hkey _ _
  perIp _ _ := rfl
  perPrefix _ _ := rfl

theorem tryAcquire_writes :
    WritesOnly server ip s (tryAcquirePerIpSessionWithPrefix s server ip burst prefixBurst).2 := by
  simp only [tryAcquirePerIpSessionWithPrefix]
  split
  · exact ⟨fun _ _ => rfl, fun _ => tryIncrement_of_ne, fun _ _ => rfl⟩
  split
  · exact ⟨fun _ _ => rfl,
      fun _ hkey => (releaseInner_of_ne hkey).trans (tryIncrement_of_ne hkey),
      fun _ => tryIncrement_of_ne⟩
  · exact ⟨fun _ _ => rfl, fun _ => tryIncrement_of_ne, fun _ => tryIncrement_of_ne⟩

theorem admission_writes : WritesOnly server ip s (admission buckets limits s server ip now).1 := by
  have hhandshake : WritesOnly server ip s (tryAcquireHandshake buckets s server ip now).2 :=
    tryAcquireHandshake_writes
  simp only [admission]
  split
  · exact hhandshake
  split
  · exact hhandshake.trans tryAcquire_writes
  split
  · exact hhandshake.trans tryAcquire_writes
  · exact (hhandshake.trans tryAcquire_writes).active

theorem releasePerIpSession_writes : WritesOnly server ip s (releasePerIpSession s server ip) where
  buckets _ _ := rfl
  perIp _ := releaseInner_of_ne
  perPrefix _ := releaseInner_of_ne

variable (buckets limits server p) in
/-- A prefix is isolated where no address is reported as IPv4-mapped and the gate is open for
    its peers. -/
theorem isolated : Isolated (step buckets limits) (Op.Concerns server p)
    (fun s op => ¬ op.Mapped ∧ GateOpen limits server p s op) (view server p)
    (alone buckets (limits server)) where
  own_view s op hok hown := by
    cases op with
    | admission server' ip now =>
      obtain ⟨rfl, hip⟩ := hown
      have hp := (peerPrefix_of_not_mapped hok.1).symm.trans hip
      exact congrArg Prod.fst (admission_own hip hp (hok.2 ⟨rfl, hip⟩))
    | release server' ip =>
      obtain ⟨rfl, hip⟩ := hown
      show view server' p (releasePerIpSession s server' ip) = _
      exact view_releasePerIpSession hip ((peerPrefix_of_not_mapped hok.1).symm.trans hip)
    | rejected server' ip =>
      obtain ⟨rfl, hip⟩ := hown
      exact view_releasePerIpSession hip ((peerPrefix_of_not_mapped hok.1).symm.trans hip)
    | cleanup now =>
      refine View.ext (funext fun ip => ?_) (funext fun ip => ?_) (getD_filter_pos _)
      · simp only [view, step, alone]
        split <;> rfl
      · simp only [view, step, alone, getD_filter_pos]
    | closeServer server' =>
      obtain rfl : server' = server := hown
      simp [view, step, alone]
  own_result s op hok hown := by
    cases op with
    | admission server' ip now =>
      obtain ⟨rfl, hip⟩ := hown
      have hp := (peerPrefix_of_not_mapped hok.1).symm.trans hip
      exact congrArg Prod.snd (admission_own hip hp (hok.2 ⟨rfl, hip⟩))
    | release server' ip => rfl
    | rejected server' ip => rfl
    | cleanup now => rfl
    | closeServer server' => rfl
  other_view s op hok hother := by
    cases op with
    | admission server' ip now =>
      exact admission_writes.view_eq hother hok.1
    | release server' ip => exact releasePerIpSession_writes.active.view_eq hother hok.1
    | rejected server' ip => exact releasePerIpSession_writes.view_eq hother hok.1
    | cleanup now => exact absurd trivial hother
    | closeServer server' =>
      have hne : ¬ server = server' := fun heq => hother heq.symm
      exact view_eq_of_elsewhere (fun _ _ => if_neg hne)
        (fun _ _ => congrArg (getD · 0) (if_neg hne))
        (congrArg (getD · 0) (if_neg hne))

end

/-- What a server answers to the peers of a prefix does not depend on other servers and other
    prefixes: two histories with the same operations of that prefix, in which no address is
    reported as IPv4-mapped and the gate is open for its peers, have the same outcomes. -/
theorem prefix_isolation {β τ : Type} (buckets : Buckets β τ) (limits : Nat → ServerLimits)
    (server : Nat) (p : IpAddr) {ops ops' : List (Op τ)}
    (hplain : ∀ op ∈ ops, ¬ op.Mapped) (hplain' : ∀ op ∈ ops', ¬ op.Mapped)
    (hgate : Along (step buckets limits) (GateOpen limits server p) {} ops)
    (hgate' : Along (step buckets limits) (GateOpen limits server p) {} ops')
    (hsame : ops.filter (Op.Concerns server p ·) = ops'.filter (Op.Concerns server p ·)) :
    ownResults (step buckets limits) (Op.Concerns server p) {} ops =
      ownResults (step buckets limits) (Op.Concerns server p) {} ops' :=
  (isolated server p buckets limits).ownResults_congr rfl (hgate.and_forall hplain)
    (hgate'.and_forall hplain') hsame

def freeBuckets : Buckets Unit Unit := ⟨fun _ => (), fun _ b => (true, b), fun _ _ => false⟩

def tightLimits : Nat → ServerLimits :=
  fun _ => { handshakesBurstPerIp := 1, handshakesBurstPerPrefix := 1 }

theorem prefix_isolation_neighbour :
    ownResults (step freeBuckets tightLimits) (Op.Concerns 1 (.v4 1 2 3 0)) {}
        [.admission 1 (.v4 1 2 3 4) ()] =
      ownResults (step freeBuckets tightLimits) (Op.Concerns 1 (.v4 1 2 3 0)) {}
        [.admission 1 (.v4 9 9 9 9) (), .admission 1 (.v4 1 2 3 4) ()] :=
  prefix_isolation freeBuckets tightLimits 1 (.v4 1 2 3 0) (by decide) (by decide) (by decide)
    (by decide) (by decide)

/-- Two IPv4 peers from different prefixes, reported as IPv4-mapped: the first takes the only
    place of `::/64`. -/
theorem mapped_peers_share :
    ([.admission 1 (.v6 0 0 0 0 0 0xffff 0x0102 0x0304) ()] :
          List (Op Unit)).filter (Op.Concerns 1 (.v4 1 2 3 0) ·) =
        [.admission 1 (.v6 0 0 0 0 0 0xffff 0x0909 0x0909) (),
          .admission 1 (.v6 0 0 0 0 0 0xffff 0x0102 0x0304) ()].filter
            (Op.Concerns 1 (.v4 1 2 3 0) ·) ∧
      Along (step freeBuckets tightLimits) (GateOpen tightLimits 1 (.v4 1 2 3 0)) {}
        [.admission 1 (.v6 0 0 0 0 0 0xffff 0x0909 0x0909) (),
          .admission 1 (.v6 0 0 0 0 0 0xffff 0x0102 0x0304) ()] ∧
      ownResults (step freeBuckets tightLimits) (Op.Concerns 1 (.v4 1 2 3 0)) {}
        [.admission 1 (.v6 0 0 0 0 0 0xffff 0x0102 0x0304) ()] = [some .accepted] ∧
      ownResults (step freeBuckets tightLimits) (Op.Concerns 1 (.v4 1 2 3 0)) {}
        [.admission 1 (.v6 0 0 0 0 0 0xffff 0x0909 0x0909) (),
          .admission 1 (.v6 0 0 0 0 0 0xffff 0x0102 0x0304) ()] = [some .rateLimited] := by
  decide

end WebTransportBun.Native.RateLimit
