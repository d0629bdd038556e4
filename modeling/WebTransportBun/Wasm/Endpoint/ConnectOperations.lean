/-
  WebTransportBun.Wasm.Endpoint.ConnectOperations

  The session layer (`Endpoint.Connect`) as operations: one lemma per function of the
  source.  Where a function does no more than what the functions it calls do, the rules
  take it apart; what is written out is how a session is counted and when the endpoint is
  known to be a client.
-/

import WebTransportBun.Wasm.Endpoint.Operations

namespace WebTransportBun.Wasm

open Library Library.Prog Relation Qpack Library.Map WebTransportBun.Wasm.Frame

namespace Endpoint

variable {W : Type} {env : Env W} {s : WtEndpoint W} {h : Nat}
  {P : Invariant (OpStep (W := W))}

/-! ## Calls into quinn-proto -/

/-- What quinn-proto answers changes the world only. -/
@[grind ←] theorem does_call (c : QuicCall) : Does P (call env c) := by
  intro s _
  simp only [call, wlp_bind, wlp_get, wlp_set, wlp_pure]
  exact .single (.frame (.of_counted rfl))

@[grind ←] theorem does_onConn (c : QuicCall) : Does P (onConn env h c) := by
  unfold onConn
  grind

@[grind ←] theorem does_closeQuic (code : Nat) (reason : String) :
    Does P (closeQuic env h code reason) := by
  unfold closeQuic
  grind

@[grind ←] theorem does_stopRecv (sid code : Nat) : Does P (stopRecv env h sid code) := by
  unfold stopRecv
  grind

/-! ## Ending sessions and connections -/

@[grind ←] theorem does_resetStreamHalves (sid code : Nat) :
    Does P (resetStreamHalves env h sid code) := by
  unfold resetStreamHalves
  grind

/-- A stream is dropped from tables that are not counted. -/
@[grind =] theorem counted_dropSessionStream (connId hd sid : Nat) :
    counted (dropSessionStream s h connId hd sid) = counted s := by
  unfold dropSessionStream
  simp only [counted_pushEvent, counted_indexRemove, counted_dropStreamReservation]
  exact counted_updSession (s := s) (h := h) (f := fun x =>
    { x with selfBidi := x.selfBidi.erase sid, inStreams := x.inStreams.erase sid }) fun _ => rfl

@[grind ←] theorem does_resetSessionStreams (connId sessionId : Nat) :
    Does P (resetSessionStreams env h connId sessionId) := by
  unfold resetSessionStreams
  grind

/-- A retired session is the closed primary one, or leaves the extra ones. -/
@[grind ←] theorem shrinks_retireWtSession (x : Session) (sid : Nat) :
    Shrinks x (retireWtSession x sid) := by
  unfold retireWtSession
  split
  · refine ⟨?_, fun _ => id, fun _ => id, id⟩
    simp [Session.primaryLive]
  · exact ⟨id, fun _ => contains_of_erase, fun _ => id, id⟩

@[grind ←] theorem does_endWtSession (sid code : Nat) (reason : String) :
    Does P (endWtSession env h sid code reason) := by
  unfold endWtSession
  grind

/-- A failed connection keeps no session. -/
theorem shrinks_failSession (x : Session) :
    Shrinks x { x with connectClosed := true, extraSessions := ∅ } := by
  refine ⟨?_, fun sid hsid => ?_, fun _ => id, id⟩
  · simp [Session.primaryLive]
  · cases hsid

/-- All sessions of the connection end with it. -/
@[grind ←] theorem does_failSessionBeforeEstablish : Does P (failSessionBeforeEstablish env h) := by
  refine does_bind does_get fun s => ?_
  split
  · exact does_pure
  · grind [shrinks_failSession]

/-- The host is told and the budget given back; no session starts. -/
@[grind ←] theorem does_closeConnProtocolError (code : Nat) (reason : String) :
    Does P (closeConnProtocolError env h code reason) := by
  unfold closeConnProtocolError pushProtocolError
  grind

/-- Before the first session the connection fails, later one session ends. -/
@[grind ←] theorem does_onConnectStreamEnded (sid : Nat) (isPrimaryConnect : Bool) :
    Does P (onConnectStreamEnded env h sid isPrimaryConnect) := by
  unfold onConnectStreamEnded
  grind

/-! ## Capsules -/

/-- A close or a malformed capsule ends the session, a drain is passed on. -/
@[grind ←] theorem does_feedSessionCapsulesRound (sid : Nat) :
    Does P (feedSessionCapsulesRound env h sid) := by
  refine does_bind does_get fun s => ?_
  split
  · exact does_pure
  split
  · exact does_pure
  · refine does_bind (by grind) fun _ => ?_
    split <;> grind

@[grind ←] theorem does_feedSessionCapsules (sid : Nat) (payload : Bytes) :
    Does P (feedSessionCapsules env h sid payload) := by
  unfold feedSessionCapsules
  grind

/-! ## Control and QPACK streams -/

@[grind ←] theorem does_parseControl : Does P (parseControl env h) := by
  refine does_bind does_get fun s => ?_
  split <;> grind

@[grind ←] theorem does_parseQpackEncoder : Does P (parseQpackEncoder env h) := by
  refine does_bind does_get fun s => ?_
  split
  · exact does_pure
  · split <;> grind

@[grind ←] theorem does_parseQpackDecoder : Does P (parseQpackDecoder env h) := by
  refine does_bind does_get fun s => ?_
  split
  · exact does_pure
  · split <;> grind

/-! ## Answers -/

/-- What a session knows about WebTransport sessions and the streams opened here. -/
def seats (x : Session) := (x.connectStream, x.established, x.connectClosed, x.extraSessions,
  x.pendingClientConnects, x.selfBidi)

/-- The sessions of every connection go on as they were: the host hears nothing, no stream
    changes hands, and of the streams being read only `sid` of connection `h` may go. -/
structure Undisturbed (h sid : Nat) (s t : WtEndpoint W) : Prop where
  events : t.box.events = s.box.events
  tables : streamTables t = streamTables s
  sessions : ∀ h', (t.registry.session h').map seats = (s.registry.session h').map seats
  streams : ∀ h' sid', (h', sid') ≠ (h, sid) → t.inStream h' sid' = s.inStream h' sid'

namespace Undisturbed

variable {sid : Nat} {t u : WtEndpoint W}

theorem trans (hst : Undisturbed h sid s t) (htu : Undisturbed h sid t u) :
    Undisturbed h sid s u where
  events := htu.events.trans hst.events
  tables := htu.tables.trans hst.tables
  sessions h' := (htu.sessions h').trans (hst.sessions h')
  streams h' sid' hne := (htu.streams h' sid' hne).trans (hst.streams h' sid' hne)

/-- Nothing is disturbed while outbox, tables and registry stay. -/
theorem of_eq (hevents : t.box.events = s.box.events) (htables : streamTables t = streamTables s)
    (hreg : t.registry = s.registry) : Undisturbed h sid s t where
  events := hevents
  tables := htables
  sessions h' := by rw [hreg]
  streams h' sid' _ := by rw [WtEndpoint.inStream, hreg, WtEndpoint.inStream]

/-- An update that keeps the seats disturbs at most the stream it is about. -/
theorem updSession {f : Session → Session} (hseats : ∀ x, seats (f x) = seats x)
    (hins : ∀ x sid', sid' ≠ sid → (f x).inStreams.get? sid' = x.inStreams.get? sid') :
    Undisturbed h sid s (s.updSession h f) where
  events := rfl
  tables := rfl
  sessions h' := by
    rw [WtEndpoint.updSession, session_update]
    split
    · cases s.registry.session h' with
      | none => rfl
      | some x => exact congrArg some (hseats x)
    · rfl
  streams h' sid' hne := by
    rw [WtEndpoint.inStream, WtEndpoint.inStream, WtEndpoint.updSession, session_update]
    split
    · next heq => grind
    · rfl

end Undisturbed

/-- The program returns, and it leaves the sessions, their count and the error slot alone. -/
def Calm {α : Type} (h sid : Nat) (m : EndpointM W α) : Prop :=
  ∀ s, wp m s fun _ t =>
    Undisturbed h sid s t ∧ t.lastError = s.lastError ∧ counted t = counted s

section Calm

variable {α β : Type} {sid : Nat} {m : EndpointM W α} {k : α → EndpointM W β}

/-- A calm program is an operation, since the count stays. -/
theorem Calm.does (hm : Calm h sid m) : Does P m := by
  intro s _
  refine wlp_mono (wp_wlp (hm s)) ?_
  rintro _ t ⟨-, -, hcounted⟩
  exact .single (.frame (.of_counted hcounted))

/-- Calm programs compose. -/
@[grind ←] theorem calm_bind (hm : Calm h sid m) (hk : ∀ a, Calm h sid (k a)) :
    Calm h sid (m >>= k) := by
  refine fun s => wp_bind.mpr (wp_mono (hm s) fun a t ht => wp_mono (hk a t) fun b u hu => ?_)
  exact ⟨ht.1.trans hu.1, hu.2.1.trans ht.2.1, hu.2.2.trans ht.2.2⟩

@[grind ←] theorem calm_pure (a : α) : Calm h sid (pure a : EndpointM W α) :=
  fun _ => wp_pure.mpr ⟨.of_eq rfl rfl rfl, rfl, rfl⟩

@[grind ←] theorem calm_get : Calm h sid (get : EndpointM W (WtEndpoint W)) :=
  fun _ => wp_get.mpr ⟨.of_eq rfl rfl rfl, rfl, rfl⟩

@[grind ←] theorem calm_onConn (c : QuicCall) : Calm h sid (onConn env h c) :=
  fun _ => wp_onConn fun _ => ⟨.of_eq rfl rfl rfl, rfl, rfl⟩

@[grind ←] theorem calm_when {c : Bool} {m : EndpointM W Unit} (hm : Calm h sid m) :
    Calm h sid (when c m) := by
  cases c with
  | false => exact calm_pure ()
  | true => exact hm

/-- A write to the codec state of a session is calm. -/
theorem calm_updSession {f : Session → Session} (hseats : ∀ x, seats (f x) = seats x)
    (hins : ∀ x, (f x).inStreams = x.inStreams) (hkept : ∀ x, (f x).kept = x.kept) :
    Calm h sid (modify fun s : WtEndpoint W => s.updSession h f) :=
  fun _ => wp_modify.mpr
    ⟨.updSession hseats fun x sid' _ => by rw [hins], rfl, counted_updSession hkept⟩

/-- Encoding headers changes the encoder of the session. -/
@[grind ←] theorem calm_encodeForSession (sid : Nat) (headers : List HeaderField) :
    Calm h sid (encodeForSession (W := W) h headers) := by
  refine calm_bind calm_get fun s => ?_
  split
  · exact calm_pure _
  · refine calm_bind (calm_updSession ?_ ?_ ?_) fun _ => calm_pure _
    all_goals exact fun _ => rfl

/-- Writing headers tracks the Required Insert Count of the section. -/
@[grind ←] theorem calm_writeEncodedHeaders (sid streamId : Nat) (encoded : EncodedHeaders) :
    Calm h sid (writeEncodedHeaders env h streamId encoded) := by
  have htrack : Calm h sid (modify fun s : WtEndpoint W => s.updSession h fun x => { x with
      pendingSectionRic := trackSectionRic x.pendingSectionRic streamId encoded.ric }) :=
    calm_updSession (fun _ => rfl) (fun _ => rfl) fun _ => rfl
  unfold writeEncodedHeaders
  grind

/-- An answer to a request is calm, whatever its status. -/
theorem calm_respond (sid streamId : Nat) (status : String) (finish : Bool) :
    Calm h sid (respond env h streamId status finish) := by
  unfold respond
  grind

end Calm

@[grind ←] theorem does_encodeForSession (headers : List HeaderField) :
    Does P (encodeForSession h headers) :=
  (calm_encodeForSession 0 headers).does

@[grind ←] theorem does_writeEncodedHeaders (streamId : Nat) (encoded : EncodedHeaders) :
    Does P (writeEncodedHeaders env h streamId encoded) :=
  (calm_writeEncodedHeaders 0 streamId encoded).does

@[grind ←] theorem does_respond (streamId : Nat) (status : String) (finish : Bool) :
    Does P (respond env h streamId status finish) :=
  (calm_respond 0 streamId status finish).does

/-- The stream is noted as blocked, or the connection closes. -/
@[grind ←] theorem does_onHeadersUndecodable (streamId : Option Nat) (e : QpackError) :
    Does P (onHeadersUndecodable env h streamId e) := by
  unfold onHeadersUndecodable
  split
  · grind
  · refine does_bind does_get fun s => ?_
    split <;> grind

@[grind ←] theorem does_emitQpackSectionAck (streamId ric : Nat) :
    Does P (emitQpackSectionAck env h streamId ric) := by
  unfold emitQpackSectionAck
  grind

/-- A section that was decoded leaves the buffer and is acknowledged. -/
@[grind ←] theorem does_onHeadersDecoded (streamId ric : Nat) {drain : Session → Session}
    (hdrain : ∀ x, (drain x).kept = x.kept) :
    Does P (onHeadersDecoded env h streamId ric drain) :=
  does_bind (does_frame fun _ => frame_updSession_kept fun _ => hdrain _)
    fun _ => does_emitQpackSectionAck _ _

/-! ## Server: requests -/

/-- The session of an accepted CONNECT is the one that there was room for. -/
theorem steps_acceptWtSession (streamId id : Nat)
    (hroom : ∀ x, s.registry.session h = some x → x.activeWtCount < s.wtMaxSessions) :
    wlp (acceptWtSession env h streamId id) s fun _ t => ReflTransGen OpStep s t := by
  refine wlp_bind.mpr (wlp_mono (wp_wlp (calm_respond 0 streamId "200" false s)) ?_)
  rintro _ t ⟨-, -, hcounted⟩
  -- answering the request starts no session
  have hframe : Frame s t := .of_counted hcounted
  have hlatch : OpStep t (t.updSession h (latchServerSession · streamId)) := by
    cases hx : t.registry.session h with
    | none => exact .frame (frame_updSession fun x hx' => by simp [hx] at hx')
    | some x =>
      refine .latch hx fun hserver => ?_
      obtain ⟨y, hy, hshrinks⟩ := hframe.session hx
      have hle := (hshrinks (hframe.isServer ▸ hserver)).activeWtCount_le
      have hlt := hroom y hy
      rw [hframe.wtMaxSessions]
      omega
  refine wlp_modify.mpr (.head (.frame hframe) (.head hlatch (.single (.frame (.of_counted ?_)))))
  dsimp only
  split <;> simp

/-- A CONNECT is accepted only where the count was below the limit. -/
@[grind ←] theorem does_onServerRequest (streamId id : Nat) (headers : List HeaderField) :
    Does P (onServerRequest env h streamId id headers) := by
  unfold onServerRequest
  split
  · exact does_respond _ _ _
  · refine does_bind (by grind) fun _ => does_get_bind fun s hs => ?_
    dsimp only
    split
    · exact does_pure s hs
    split
    · exact (by grind : Does P _) s hs
    · next hroom => grind [steps_acceptWtSession]

@[grind ←] theorem does_onServerDataFrame (streamId header total ftype : Nat) :
    Does P (onServerDataFrame env h streamId header total ftype) := by
  unfold onServerDataFrame
  grind

/-- A round takes one frame: headers are a request, data are capsules. -/
@[grind ←] theorem does_parseServerConnectRound (streamId id : Nat) :
    Does P (parseServerConnectRound env h streamId id) := by
  refine does_bind does_get fun s => ?_
  split
  · exact does_pure
  split
  · exact does_pure
  split
  · exact does_pure
  · grind
  split
  · grind
  · split <;> grind

@[grind ←] theorem does_parseServerConnect (streamId : Nat) :
    Does P (parseServerConnect env h streamId) := by
  unfold parseServerConnect
  grind

/-! ## Client: responses -/

/-- The client's primary session starts, which only a client does. -/
@[grind ←] theorem frame_establishClientSession (hclient : s.isServer = false) (id : Nat) :
    Frame s (establishClientSession s h id) :=
  frame_pushEvent ((frame_updSession_client hclient).then_counted
    counted_dropHandshakeReservation) _

@[grind ←] theorem does_onClientDataFrame (header total ftype : Nat) :
    Does P (onClientDataFrame env h header total ftype) := by
  unfold onClientDataFrame
  grind

/-- A round takes one frame of the answer to the primary CONNECT. -/
theorem does_parseClientConnectRound (id : Nat) :
    Does client (parseClientConnectRound env h id) := by
  refine does_bind does_get fun s => ?_
  split
  · exact does_pure
  split
  · exact does_pure
  · grind
  split
  · grind
  split
  · grind
  split
  · grind
  -- once the section has left the buffer, the status says what is done
  dsimp only
  split <;> refine does_bind (by grind) fun _ => ?_
  all_goals split <;> grind

theorem does_parseClientConnect : Does client (parseClientConnect env h) := by
  unfold parseClientConnect
  grind [does_parseClientConnectRound]

@[grind ←] theorem does_parseExtraConnectCapsules (streamId : Nat) :
    Does P (parseExtraConnectCapsules env h streamId) := by
  refine does_loop (does_bind does_get fun s => ?_)
  split
  · exact does_pure
  · split <;> grind

/-- A pending session that is answered becomes an extra one. -/
@[grind ←] theorem frame_promotePendingSession (hclient : s.isServer = false) (streamId id : Nat) :
    Frame s (promotePendingSession s h streamId id) :=
  frame_pushEvent (frame_updSession_client hclient) _

/-- A CONNECT that no longer waits. -/
@[grind ←] theorem shrinks_erasePending (x : Session) (sid : Nat) :
    Shrinks x { x with pendingClientConnects := x.pendingClientConnects.erase sid } :=
  ⟨id, fun _ => id, fun _ => contains_of_erase, id⟩

/-- A refused CONNECT no longer waits, and the host is told. -/
@[grind ←] theorem frame_dropPendingSession (streamId id : Nat) :
    Frame s (dropPendingSession s h streamId id) :=
  frame_pushSessionClosed (frame_updSession_shrinks fun x => shrinks_erasePending x streamId) ..

/-- A round takes the answer to a further CONNECT of a client. -/
theorem does_parsePendingClientConnectRound (streamId id : Nat) :
    Does client (parsePendingClientConnectRound env h streamId id) := by
  refine does_bind does_get fun s => ?_
  split
  · exact does_pure
  split
  · exact does_pure
  split
  · exact does_pure
  · grind
  split
  · exact does_bind (does_client fun _ => frame_updSession_client) fun _ => does_pure
  split
  · grind
  refine does_bind
    (does_bind (does_client fun _ => frame_updSession_client) fun _ => ?_) fun _ => ?_
  · exact does_emitQpackSectionAck _ _
  · split <;> grind

theorem does_parsePendingClientConnect (streamId : Nat) :
    Does client (parsePendingClientConnect env h streamId) := by
  unfold parsePendingClientConnect
  grind [does_parsePendingClientConnectRound]

/-- Only a client has CONNECTs of its own that wait for an answer. -/
@[grind ←] theorem does_retryBlockedConnects : Does clean (retryBlockedConnects env h) := by
  refine does_bind does_get fun s => does_bind (does_call _) fun ids => ?_
  refine does_bind (by grind) fun _ => does_get_bind fun s hclean => ?_
  refine does_bind_at hclean ?_ fun _ => does_get_bind fun s hclean => ?_
  · unfold when
    split
    · next hcond =>
      simp only [Option.any_eq_true, Bool.and_eq_true] at hcond
      obtain ⟨x, hx, hself, -⟩ := hcond
      exact does_parseClientConnect s (hclean.isClient_of_selfOpened hx hself)
    · exact does_pure s hclean
  · cases hserver : s.isServer with
    | false => exact (by grind [does_parsePendingClientConnect] : Does client _) s hserver
    | true =>
      refine does_bind (does_call _) (fun ids => does_forM fun sid hmem => ?_) s hclean
      have hmem := ids.property.subset hmem
      split at hmem
      · cases hmem
      · next x hx =>
        obtain ⟨p, hp⟩ := mem_keys.mp hmem
        have hclient := hclean.isClient_of_pending hx (contains_iff.mpr ⟨p, hp⟩)
        rw [hserver] at hclient
        cases hclient

end Endpoint

end WebTransportBun.Wasm
