/-
  WebTransportBun.Wasm.Endpoint.ApiOperations

  The public calls (`Endpoint.Api`) as operations.  Every call but `set_wt_max_sessions` is
  a sequence of operations (`step_operates`).
-/

import WebTransportBun.Wasm.Endpoint.DriveOperations

namespace WebTransportBun.Wasm

open Library Library.Prog Relation Qpack WebTransportBun.Wasm.Frame

namespace Endpoint

variable {W : Type} {env : Env W} {s t : WtEndpoint W} {h : Nat}
  {P : Invariant (OpStep (W := W))}

/-! ## Connections -/

theorem counted_admitSlots (s : WtEndpoint W) : counted (admitSlots s).2 = counted s := by
  unfold admitSlots
  split
  · rfl
  · split <;> rfl

/-- The rate limiter and the budget decide; neither is counted. -/
theorem counted_admitNewConnection (s : WtEndpoint W) (now : Nat) (source : Option SocketAddr) :
    counted (admitNewConnection s now source).2 = counted s := by
  unfold admitNewConnection
  split
  · exact counted_admitSlots s
  · split
    · rfl
    · exact counted_admitSlots _

@[grind =] theorem counted_releaseSlots (slots : Slot × Slot) :
    counted (releaseSlots s slots) = counted s := rfl

@[grind =] theorem counted_storeSlots (slots : Slot × Slot) :
    counted (storeSlots s h slots) = counted s := rfl

@[grind =] theorem counted_pushTransmit (response : Option (Bytes × SocketAddr)) :
    counted (pushTransmit s response) = counted s := by
  unfold pushTransmit
  split
  · rfl
  · split <;> rfl

/-- A new connection has no session. -/
theorem vacant_freshSession (s : WtEndpoint W) (authority : String) (now : Nat) :
    (freshSession s authority now).Vacant :=
  ⟨fun _ => rfl, fun _ => rfl, rfl, rfl⟩

/-- A call into quinn-proto changes its world alone. -/
theorem wlp_call_world (c : QuicCall) :
    wlp (call env c) s fun _ t => ∃ world, t = { s with world } := by
  simp only [call, wlp_bind, wlp_get, wlp_set, wlp_pure]
  exact ⟨_, rfl⟩

/-- Any progress of quinn-proto is an operation. -/
theorem step_world (world : W) : OpStep s { s with world } := .frame (.of_counted rfl)

/-- A client registers the connection under a handle that is new to it. -/
theorem does_connect (authority : String) : Does P (connect env authority) := by
  refine does_bind does_get fun s => ?_
  split
  · grind
  refine does_bind (does_call _) fun now => ?_
  refine does_get_set (g := fun s : WtEndpoint W => (admitNewConnection s now none).2)
    (fun s _ => .single (.frame (.of_counted (counted_admitNewConnection ..)))) fun s => ?_
  split
  · grind
  split
  · grind
  refine does_get_bind fun s hs => wlp_bind.mpr (wlp_mono (wlp_call_world _) ?_)
  rintro (_ | new) _ ⟨world, rfl⟩
  all_goals
    refine wlp_mono ?_ fun _ _ h => ReflTransGen.head (step_world world) h
    have hs := P.stable _ _ (step_world world) hs
  · exact (by grind : Does P _) _ hs
  · dsimp only
    split
    · exact (by grind : Does P _) _ hs
    · next hreg =>
      refine wlp_bind.mpr (wlp_modify.mpr (wlp_pure.mpr ?_))
      exact .head (.register new.property hreg (vacant_freshSession _ _ _))
        (.single (.frame (.of_counted rfl)))

/-- A server registers it, or gives the slots back. -/
theorem steps_adoptConnection (hs : P.holds s) (new : { h : Nat // h ∉ s.registry.handles })
    (slots : Slot × Slot) (now : Nat) (source : SocketAddr) (world : W) :
    wlp (adoptConnection env s new slots now source) { s with world }
      fun _ t => ReflTransGen OpStep { s with world } t := by
  have hs := P.stable _ _ (step_world world) hs
  unfold adoptConnection
  split
  · exact (by grind : Does P _) _ hs
  · next id registry hreg =>
    refine does_bind_at hs (wlp_modify.mpr ?_) fun _ => ?_
    · exact .head (.register new.property hreg (vacant_freshSession _ _ _))
        (.single (.frame (.of_counted rfl)))
    · split <;> grind

/-- A connection is refused, or admitted and adopted. -/
theorem does_onNewConnection (now : Nat) (source : SocketAddr) :
    Does P (onNewConnection env now source) := by
  refine does_get_set (g := fun s : WtEndpoint W =>
    (admitNewConnection s now (if s.isServer then some source else none)).2)
    (fun s _ => .single (.frame (.of_counted (counted_admitNewConnection ..)))) fun s => ?_
  split
  · refine does_bind (by grind) fun _ => does_bind (does_call _) fun refusal => ?_
    exact does_bind (does_counted fun _ => rfl) fun _ => does_pure
  refine does_get_bind fun s hs => wlp_bind.mpr (wlp_mono (wlp_call_world _) ?_)
  rintro (response | new) _ ⟨world, rfl⟩
  all_goals
    refine wlp_mono ?_ fun _ _ h => ReflTransGen.head (step_world world) h
    have hs' := P.stable _ _ (step_world world) hs
  · exact (by grind : Does P _) _ hs'
  · exact does_bind_at hs' (steps_adoptConnection hs new _ now source world) fun _ => does_pure

theorem does_recv (now : Nat) (source : SocketAddr) (data : Bytes) :
    Does clean (recv env now source data) := by
  refine does_bind does_get fun s => does_bind (does_call _) fun answer => ?_
  split <;> grind [does_onNewConnection]

theorem does_closeAll (code : Nat) (reason : Bytes) (now : Nat) :
    Does P (closeAll env code reason now) := by
  unfold closeAll
  grind [counted]

/-! ## Datagrams and streams -/

@[grind ←] theorem does_maxDatagramSize (connId sessionId : Nat) :
    Does P (maxDatagramSize env connId sessionId) := by
  unfold maxDatagramSize
  grind

@[grind ←] theorem does_sendDatagramFramed (connId sessionId : Nat) (payload : Bytes) :
    Does P (sendDatagramFramed env connId sessionId payload) := by
  refine does_bind does_get fun s => ?_
  split <;> grind

theorem does_sendDatagram (connId sessionId : Nat) (payload : Bytes) :
    Does P (sendDatagram env connId sessionId payload) := by
  unfold sendDatagram
  grind

theorem does_streamWrite (stream : Nat) (data : Bytes) :
    Does P (streamWrite env stream data) := by
  refine does_bind does_get fun s => ?_
  split
  · grind
  · refine does_bind does_get fun s => ?_
    split <;> grind

/-- A stream opened here is bound to its session in tables that are not counted. -/
@[grind ←] theorem frame_bindSelfStream (sid connId sessionId : Nat) (bidi : Bool) (slot : Slot) :
    Frame s (bindSelfStream s h sid connId sessionId bidi slot) := by
  cases bidi with
  | false => exact .of_counted rfl
  | true => exact .of_counted (counted_updSession fun _ => rfl)

/-- A refused stream gives back the slot that was reserved for it. -/
theorem does_openStream (connId sessionId : Nat) (bidi : Bool) :
    Does P (openStream env connId sessionId bidi) := by
  refine does_bind does_get fun s => ?_
  split
  · grind
  split
  · grind
  split
  · grind
  refine does_bind (does_counted fun _ => rfl) fun _ => ?_
  refine does_bind (does_openQuicStream _) fun r => ?_
  split <;> grind [counted]

theorem does_streamFinish (hd : Nat) : Does P (streamFinish env hd) := by
  unfold streamFinish
  grind

theorem does_streamReset (hd code : Nat) : Does P (streamReset env hd code) := by
  unfold streamReset
  grind

theorem does_streamStop (hd code : Nat) : Does P (streamStop env hd code) := by
  unfold streamStop
  grind

theorem does_streamResume (hd : Nat) : Does clean (streamResume env hd) := by
  unfold streamResume
  grind

/-! ## Sessions -/

/-- Only a client opens sessions. -/
theorem isClient_of_admitWtSession {connId : Nat} (hadmitted : admitWtSession s connId = .ok h) :
    s.isServer = false := by
  unfold admitWtSession at hadmitted
  grind

/-- The new CONNECT waits for its answer, on a client. -/
theorem does_openWtSession (connId : Nat) : Does P (openWtSession env connId) := by
  refine does_get_bind fun s hs => ?_
  split
  · exact (by grind : Does P _) s hs
  next h hadmitted =>
  refine (?_ : Does client _) s (isClient_of_admitWtSession hadmitted)
  refine does_bind (does_call _) fun now => does_bind (does_openQuicStream _) fun r => ?_
  split
  · grind
  · refine does_bind (does_sendConnectRequest _) fun _ => ?_
    exact does_bind (does_client fun _ => frame_updSession_client) fun _ => does_pure

/-- A closed session is retired and no longer waits. -/
@[grind ←] theorem shrinks_closeSession (x : Session) (sid : Nat) :
    Shrinks x (closeSession x sid) := by
  have hpending : (retireWtSession x sid).pendingClientConnects = x.pendingClientConnects := by
    unfold retireWtSession
    split <;> rfl
  have herase := shrinks_erasePending (retireWtSession x sid) sid
  rw [hpending] at herase
  exact (shrinks_retireWtSession x sid).trans herase

/-- The session is retired, whether or not it was answered. -/
theorem does_closeWtSession (connId sessionId code : Nat) (reason : Bytes) :
    Does P (closeWtSession env connId sessionId code reason) := by
  refine does_bind does_get fun s => ?_
  split
  · grind
  · dsimp only
    split <;> grind

theorem does_drainWtSession (connId sessionId : Nat) :
    Does P (drainWtSession env connId sessionId) := by
  unfold drainWtSession
  grind

/-! ## Time -/

@[grind ←] theorem does_fireTimer (now : Nat) : Does P (fireTimer env now h) := by
  refine does_bind does_get fun s => ?_
  split <;> grind

/-- An expired CONNECT no longer waits. -/
theorem shrinks_expirePending (x : Session) (sid : Nat) :
    Shrinks x { x with
      pendingClientConnects := x.pendingClientConnects.erase sid
      extraSessions := x.extraSessions.erase sid } :=
  ⟨id, fun _ => Map.contains_of_erase, fun _ => Map.contains_of_erase, id⟩

@[grind ←] theorem does_expirePendingConnect (connId sessionId : Nat) :
    Does P (expirePendingConnect env h connId sessionId) := by
  refine does_bind (by grind) fun _ => does_bind does_get fun s => ?_
  split <;> grind [shrinks_expirePending]

/-- Collecting the expired CONNECTs ends none of them. -/
@[grind ←] theorem does_collectExpired (now : Nat) (handles : List Nat) :
    Does P (collectExpired env now handles) := by
  induction handles with
  | nil => exact does_pure
  | cons h rest ih =>
    unfold collectExpired
    grind

theorem does_nextTimeout : Does P (nextTimeout env) := by
  refine does_bind (does_call _) fun now => does_bind does_get fun s => ?_
  refine does_bind (does_call _) fun handles => ?_
  exact does_bind (does_mapM fun _ => does_call _) fun timers => does_bind does_get fun s =>
    does_pure

/-- Timers come first, then the sessions whose CONNECT has expired. -/
theorem does_handleTimeout (now : Nat) : Does clean (handleTimeout env now) := by
  refine does_bind does_get fun s => does_bind (does_call _) fun handles => ?_
  refine does_bind (by grind) fun _ => does_bind does_get fun s => ?_
  refine does_bind (does_call _) fun expired => does_bind (by grind) fun _ => ?_
  grind

@[grind ←] theorem does_flushTickets (now : Nat) : Does clean (flushTickets env now h) := by
  unfold flushTickets
  grind [counted]

theorem does_pollTransmits (now : Nat) : Does clean (pollTransmits env now) := by
  refine does_bind does_get fun s => does_bind (by grind) fun _ => does_bind does_get fun s => ?_
  grind [counted]

/-! ## Polling events -/

theorem does_releaseHostToken (token : Nat) : Does clean (releaseHostToken env token) := by
  refine does_bind does_get fun s => does_bind (does_counted fun _ => rfl) fun _ => ?_
  grind

theorem does_pollEvent : Does clean (pollEvent env) := by
  refine does_bind does_get fun s => ?_
  split
  · exact does_pure
  · exact does_bind (does_counted fun _ => rfl) fun _ => by grind

@[grind ←] theorem does_failClosed (conn : Nat) (error : String) :
    Does P (failClosed env conn error) := by
  unfold failClosed
  grind

theorem does_pollEventEncoded : Does clean (pollEventEncoded env) := by
  refine does_loop (does_bind does_get fun s => ?_)
  split
  · exact does_pure
  · refine does_bind (does_counted fun _ => rfl) fun _ => ?_
    split <;> grind

/-! ## All calls -/

variable {c : ApiCall}

/-- Whatever is called but `set_wt_max_sessions`, the endpoint takes operations. -/
theorem does_perform (hc : ∀ maxSessions, c ≠ .setWtMaxSessions maxSessions) :
    Does clean (perform env c) := by
  cases c with
  | connect authority => exact does_discard (does_connect authority)
  | recv now source data => exact does_recv now source data
  | closeConn connId code reason now => exact does_closeConn connId code reason now
  | closeAll code reason now => exact does_closeAll code reason now
  | maxDatagramSize connId sid => exact does_discard (does_maxDatagramSize connId sid)
  | sendDatagram connId sid payload => exact does_discard (does_sendDatagram connId sid payload)
  | openStream connId sid bidi => exact does_discard (does_openStream connId sid bidi)
  | streamWrite stream data => exact does_discard (does_streamWrite stream data)
  | streamFinish stream => exact does_streamFinish stream
  | streamReset stream code => exact does_streamReset stream code
  | streamStop stream code => exact does_streamStop stream code
  | streamPause stream => exact does_counted fun _ => rfl
  | streamResume stream => exact does_streamResume stream
  | openWtSession connId => exact does_discard (does_openWtSession connId)
  | closeWtSession connId sid code reason =>
    exact does_discard (does_closeWtSession connId sid code reason)
  | drainWtSession connId sid => exact does_discard (does_drainWtSession connId sid)
  | handleTimeout now => exact does_handleTimeout now
  | nextTimeout => exact does_discard does_nextTimeout
  | pollTransmits now => exact does_discard (does_pollTransmits now)
  | releaseHostToken token => exact does_discard (does_releaseHostToken token)
  | pollEvent => exact does_discard does_pollEvent
  | pollEventEncoded => exact does_discard does_pollEventEncoded
  | setWtMaxSessions maxSessions => exact absurd rfl (hc maxSessions)
  | setQpackSettings _ | takeLastError => exact does_counted fun _ => rfl

section

variable (hclean : ServerClean s)

include hclean

/-- A call into the endpoint takes operations, or sets the limit. -/
theorem step_operates (hstep : Step env s c t) :
    ReflTransGen OpStep s t ∨ ∃ maxSessions, c = .setWtMaxSessions maxSessions ∧
      t = { s with wtMaxSessions := clampWtMaxSessions maxSessions } := by
  by_cases hc : ∃ maxSessions, c = .setWtMaxSessions maxSessions
  · obtain ⟨maxSessions, rfl⟩ := hc
    have ht := (Prod.mk.inj (Option.some.inj hstep)).2
    exact .inr ⟨maxSessions, rfl, ht.symm⟩
  · exact .inl (does_perform (fun n hn => hc ⟨n, hn⟩) s hclean _ _ hstep)

/-- No call gives a server a CONNECT of its own. -/
theorem serverClean_step (hstep : Step env s c t) :
    ServerClean t := by
  rcases step_operates hclean hstep with hops | ⟨_, -, rfl⟩
  · exact stable_serverClean.run hops hclean
  · exact hclean

end

structure Started (isServer : Bool) (s : WtEndpoint W) : Prop where
  isServer : s.isServer = isServer
  wtMaxSessions : s.wtMaxSessions = wtMaxSessionsDefault
  registry : s.registry = .empty
  tables : streamTables s = .empty
  log : s.box.log = []

/-- What the constructor returns. -/
theorem started_new {world : W} {isServer enable0rtt : Bool} {limits : WasmLimits}
    {rateLimits : WasmRateLimits}
    (hnew : WtEndpoint.new world isServer enable0rtt limits rateLimits = .ok s) :
    Started isServer s := by
  unfold WtEndpoint.new at hnew
  cases hbox : Outbox.new limits with
  | error e =>
    rw [hbox] at hnew
    cases hnew
  | ok box =>
    rw [hbox] at hnew
    cases hrate : PeerRateLimiter.new rateLimits limits with
    | error e =>
      rw [hrate] at hnew
      cases hnew
    | ok rateLimiter =>
      rw [hrate] at hnew
      cases hnew
      refine ⟨rfl, rfl, rfl, rfl, ?_⟩
      unfold Outbox.new at hbox
      split at hbox
      · cases hbox
      · cases hbox
        rfl

/-- A new endpoint has no sessions at all. -/
theorem Started.serverClean {isServer : Bool} (h : Started isServer s) : ServerClean s := by
  intro _ h' x hx
  rw [h.registry] at hx
  cases hx

end Endpoint

end WebTransportBun.Wasm
