/-
  WebTransportBun.Wasm.Endpoint.SessionLimit

  A server connection has at most `wt_max_sessions` WebTransport sessions.

  The count is checked at one place only, where `parse_server_connect` takes a CONNECT, and
  any other operation ends sessions or leaves them alone; so the bound is kept operation by
  operation, also in the middle of a drive step that parses several CONNECTs.  A CONNECT
  over the limit is answered 429, or its stream is refused before the request is read.

  `set_wt_max_sessions` is documented for use before the handshake, and the bridge calls it
  only where it creates the endpoint.  The bound is stated for the calls that the sessions
  of the moment fit (`FitsLimit`), which is every call made as documented.
-/

import WebTransportBun.Wasm.Endpoint.ApiOperations
import WebTransportBun.Wasm.Endpoint.OpenStream

namespace WebTransportBun.Wasm

open Option Library.Map WtEndpoint

open Library Library.Prog Relation Qpack

/-! ## Counting sessions -/

namespace Session

variable {x : Session}

theorem activeWtCount_latch_le (x : Session) (sid : Nat) :
    (Endpoint.latchServerSession x sid).activeWtCount ≤ x.activeWtCount + 1 := by
  unfold Endpoint.latchServerSession
  split
  · next hprimary =>
    -- there was no primary session before
    simp only [activeWtCount]
    split <;> omega
  · have hsize := size_insert_le x.extraSessions sid ()
    show (if x.primaryLive then 1 else 0) + (x.extraSessions.insert sid ()).size +
      x.pendingClientConnects.size ≤ (if x.primaryLive then 1 else 0) + x.extraSessions.size +
        x.pendingClientConnects.size + 1
    omega

theorem Vacant.activeWtCount (h : x.Vacant) : x.activeWtCount = 0 := by
  have hempty : Shrinks (Session.new "" .disabled 0) x := by
    refine ⟨?_, ?_, ?_, ?_⟩
    · simp [primaryLive, h.established]
    · intro sid hsid
      rw [h.extra sid] at hsid
      cases hsid
    · intro sid hsid
      rw [h.pending sid] at hsid
      cases hsid
    · rw [h.selfOpened]
      exact id
  exact Nat.le_zero.mp hempty.activeWtCount_le

end Session

namespace Endpoint

variable {W : Type} {env : Env W} {s t : WtEndpoint W} {h : Nat}

/-- A server's connections have no more sessions than the limit allows. -/
def WithinLimit (s : WtEndpoint W) : Prop :=
  s.isServer = true → ∀ h x, s.registry.session h = some x → x.activeWtCount ≤ s.wtMaxSessions

theorem stable_withinLimit : Stable (OpStep (W := W)) WithinLimit := by
  intro s t hop hwithin hserver h x' hx'
  rw [hop.isServer] at hserver
  rw [hop.wtMaxSessions]
  cases hop.session hx' with
  | fresh hvacant =>
    rw [hvacant.activeWtCount]
    exact Nat.zero_le _
  | shrinks hx hshrinks =>
    have hle := (hshrinks hserver).activeWtCount_le
    have hbound := hwithin hserver h _ hx
    omega
  | @latch x sid hx hroom hlatch => grind [Session.activeWtCount_latch_le]

theorem stable_limit_pos : Stable (OpStep (W := W)) fun s => 0 < s.wtMaxSessions := by
  intro s t hop hpos
  rw [hop.wtMaxSessions]
  exact hpos

/-- A new limit is not below the sessions that are there. -/
def FitsLimit (s : WtEndpoint W) : ApiCall → Prop
  | .setWtMaxSessions maxSessions => ∀ h ∈ s.registry.handles, ∀ x ∈ s.registry.session h,
      x.activeWtCount ≤ clampWtMaxSessions maxSessions
  | _ => True

instance (s : WtEndpoint W) (c : ApiCall) : Decidable (FitsLimit s c) :=
  match c with
  | .setWtMaxSessions _ => inferInstanceAs (Decidable (∀ h ∈ s.registry.handles, ∀ x ∈ _, _ ≤ _))
  | .connect .. | .recv .. | .closeConn .. | .closeAll .. | .maxDatagramSize .. | .sendDatagram ..
  | .openStream .. | .streamWrite .. | .streamFinish .. | .streamReset .. | .streamStop ..
  | .streamPause .. | .streamResume .. | .openWtSession .. | .closeWtSession ..
  | .drainWtSession .. | .handleTimeout .. | .nextTimeout | .pollTransmits .. | .releaseHostToken ..
  | .pollEvent | .pollEventEncoded | .setQpackSettings .. | .takeLastError => .isTrue trivial

variable {c : ApiCall}

theorem withinLimit_step (hclean : ServerClean s) (hwithin : WithinLimit s)
    (hfits : FitsLimit s c) (hstep : Step env s c t) : WithinLimit t := by
  rcases step_operates hclean hstep with hops | ⟨maxSessions, rfl, rfl⟩
  · exact stable_withinLimit.run hops hwithin
  · intro _ h x hx
    have hmem : h ∈ s.registry.handles := by
      obtain ⟨e, he, -⟩ := map_eq_some_iff.mp hx
      exact mem_keys.mpr ⟨e, he⟩
    exact hfits h hmem x hx

/-- What a run of a server keeps. -/
structure Limited (s : WtEndpoint W) : Prop where
  isServer : s.isServer = true
  clean : ServerClean s
  positive : 0 < s.wtMaxSessions
  within : WithinLimit s

theorem Limited.step (hlimited : Limited s) (hfits : FitsLimit s c)
    (hstep : Step env s c t) : Limited t where
  isServer := by
    rcases step_operates hlimited.clean hstep with hops | ⟨_, -, rfl⟩
    · exact (stable_isServer true).run hops hlimited.isServer
    · exact hlimited.isServer
  clean := serverClean_step hlimited.clean hstep
  positive := by
    rcases step_operates hlimited.clean hstep with hops | ⟨maxSessions, -, rfl⟩
    · exact stable_limit_pos.run hops hlimited.positive
    · show 0 < min (max maxSessions 1) 256
      omega
  within := withinLimit_step hlimited.clean hlimited.within hfits hstep

theorem Limited.run {cs : List ApiCall} (hlimited : Limited s)
    (hrun : Run (restrict FitsLimit (Step env)) s cs t) : Limited t :=
  hrun.invariant (fun _ _ _ hlimited hstep => hlimited.step hstep.1 hstep.2) hlimited

theorem Started.limited (hstarted : Started true s) : Limited s where
  isServer := hstarted.isServer
  clean := hstarted.serverClean
  positive := by
    rw [hstarted.wtMaxSessions]
    decide
  within _ h x hx := by
    rw [hstarted.registry] at hx
    cases hx

/-! ## A CONNECT at the limit -/

/-- The refusal of a request: 429 and the end of our half of its stream. -/
def refuseRequest (env : Env W) (h sid : Nat) : EndpointM W Unit := do
  modify (·.noteAt h (.request · sid))
  modify (·.setLastError "E_LIMIT_EXCEEDED: SETTINGS_WT_MAX_SESSIONS exceeded")
  respond env h sid "429" true

/-- The connection has all the sessions it may have. -/
def AtLimit (s : WtEndpoint W) (x : Session) : Prop :=
  0 < s.wtMaxSessions ∧ s.wtMaxSessions ≤ x.activeWtCount

section Refusal

variable {x : Session} {sid : Nat}

theorem undisturbed_noteAt (n : Nat → Note) : Undisturbed h sid s (s.noteAt h n) := by
  unfold noteAt
  split
  · exact .of_eq rfl rfl rfl
  · exact .of_eq rfl rfl rfl

theorem undisturbed_setLastError (error : String) : Undisturbed h sid s (s.setLastError error) :=
  .of_eq rfl rfl rfl

theorem onServerRequest_atLimit (hx : s.registry.session h = some x) (hlimit : AtLimit s x)
    (hnew : x.isWtConnect sid = false) {headers : List HeaderField}
    (hconnect : headersAreWebtransportConnect headers = true) (id : Nat) :
    onServerRequest env h sid id headers s = refuseRequest env h sid s := by
  have hreg : (s.noteAt h (.request · sid)).registry = s.registry := by
    unfold noteAt
    split <;> rfl
  have hmax : (s.noteAt h (.request · sid)).wtMaxSessions = s.wtMaxSessions := by
    unfold noteAt
    split <;> rfl
  unfold onServerRequest refuseRequest
  rw [hconnect]
  show (if _ then _ else if _ then _ else _ : EndpointM W Unit) (s.noteAt h (.request · sid)) = _
  rw [hreg, hmax, hx, if_neg (by simpa using hnew), if_pos (by simpa using hlimit.2)]
  rfl

theorem wp_refuseRequest : wp (refuseRequest env h sid) s fun _ t => Undisturbed h sid s t ∧
    t.lastError = some "E_LIMIT_EXCEEDED: SETTINGS_WT_MAX_SESSIONS exceeded" := by
  have hcalm : Calm h sid (respond env h sid "429" true) := calm_respond sid sid "429" true
  have hanswer := hcalm ((s.noteAt h (.request · sid)).setLastError
      "E_LIMIT_EXCEEDED: SETTINGS_WT_MAX_SESSIONS exceeded")
  refine wp_mono hanswer fun _ t ht => ⟨?_, ht.2.1⟩
  exact ((undisturbed_noteAt _).trans (undisturbed_setLastError _)).trans ht.1

variable {st : InStream}

theorem undisturbed_setInStream (st : InStream) : Undisturbed h sid s (setInStream s h sid st) := by
  refine .updSession (fun _ => rfl) fun x sid' hne => ?_
  rw [get?_modify, if_neg hne]

theorem retireInStream_unnamed (hst : s.inStream h sid = some st) (hhandle : st.handle = none) :
    Undisturbed h sid s (s.retireInStream h sid) ∧
      (s.retireInStream h sid).inStream h sid = none := by
  have hdrop : s.retireInStream h sid = s.updSession h fun x =>
      { x with inStreams := x.inStreams.erase sid } := by
    simp [retireInStream, hst, hhandle]
  rw [hdrop]
  constructor
  · refine .updSession (fun _ => rfl) fun x sid' hne => ?_
    rw [get?_erase, if_neg hne]
  · simp only [updSession, inStream, session_update]
    cases s.registry.session h with
    | none => rfl
    | some x => simp

/-- The end of a rejected stream: both halves are given up and its entry goes. -/
theorem wp_rejectStream (hst : s.inStream h sid = some st) (hhandle : st.handle = none)
    (error : String) (bidi : Bool) (code : Nat) :
    wp (do
      modify (·.setLastError error)
      stopRecv env h sid code
      when bidi (onConn env h (.reset h sid code))
      modify (·.retireInStream h sid)) s fun _ t =>
      Undisturbed h sid s t ∧ t.inStream h sid = none ∧ t.lastError = some error := by
  have hend : ∀ world : W, Undisturbed h sid s (retireInStream
      { (s.setLastError error).noteAt h (.stopped · sid) with world } h sid) ∧
        (retireInStream { (s.setLastError error).noteAt h (.stopped · sid) with world }
          h sid).inStream h sid = none ∧
        (retireInStream { (s.setLastError error).noteAt h (.stopped · sid) with world }
          h sid).lastError = some error := by
    intro world
    -- the entry is still there when the stream is retired
    have hnote : ∀ t : WtEndpoint W, (t.noteAt h (.stopped · sid)).registry = t.registry ∧
        (t.noteAt h (.stopped · sid)).lastError = t.lastError := by
      intro t
      unfold noteAt
      split <;> exact ⟨rfl, rfl⟩
    obtain ⟨hreg, herror⟩ := hnote (s.setLastError error)
    have hu : Undisturbed h sid s
        { (s.setLastError error).noteAt h (.stopped · sid) with world } :=
      ((undisturbed_setLastError error).trans (undisturbed_noteAt _)).trans (.of_eq rfl rfl rfl)
    generalize hstate : ({ (s.setLastError error).noteAt h (.stopped · sid) with world } :
      WtEndpoint W) = u at hu
    have hin : u.inStream h sid = some st := by
      subst hstate
      rw [inStream, hreg]
      exact hst
    obtain ⟨hretire, hgone⟩ := retireInStream_unnamed hin hhandle
    refine ⟨hu.trans hretire, hgone, ?_⟩
    have hdrop : (u.retireInStream h sid).lastError = u.lastError := by
      simp [retireInStream, hin, hhandle, updSession]
    rw [hdrop, ← hstate]
    exact herror
  simp only [stopRecv, wp_bind, wp_modify]
  refine wp_onConn fun world => ?_
  rw [wp_when]
  split
  · exact wp_onConn fun world' => hend world'
  · exact hend world

section

variable {e : Entry} {st' : InStream} {data : Bytes} {kind : Nat}
  (he : s.registry.entries.get? h = some e) (hst : e.session.inStreams.get? sid = some st)
  (hlimit : AtLimit s e.session) (hnew : st'.connectAdmitted = false)
  (hclassify : ({ st with buf := st.buf ++ data } : InStream).classify = some (kind, st'))
  (hkind : classifyPeerStreamKind kind st'.isBidi = .serverConnect) (finished : Bool) (now : Nat)

include he hst hlimit hnew hclassify hkind

theorem routeInStream_atLimit : routeInStream s h sid data finished now = rejectInStream s h sid st'
    "E_LIMIT_EXCEEDED: unlatched CONNECT admission cap" true 0 := by
  obtain ⟨hpos, hfull⟩ := hlimit
  have hcap : max s.wtMaxSessions 1 ≤
      e.session.countUnlatchedConnectStreams + e.session.activeWtCount := by omega
  simp [routeInStream, he, hst, hclassify, hkind, routeServerConnect, hnew, hcap]

theorem wp_processInStream_atLimit (hhandle : st'.handle = none) :
    wp (processInStream env h sid data finished now) s fun _ t =>
      Undisturbed h sid s t ∧ t.inStream h sid = none ∧
        t.lastError = some "E_LIMIT_EXCEEDED: unlatched CONNECT admission cap" := by
  have hs : s.inStream h sid = some st := by
    simp [inStream, Registry.session, he, hst]
  have hin : (setInStream s h sid { st' with buf := [] }).inStream h sid =
      some { st' with buf := [] } := by
    simp [setInStream, inStream_updInStream, hs]
  refine wp_bind.mpr (wp_get.mpr ?_)
  rw [routeInStream_atLimit he hst hlimit hnew hclassify hkind finished now]
  refine wp_bind.mpr (wp_set.mpr ?_)
  refine wp_mono (wp_rejectStream hin hhandle _ true 0) fun _ t ht => ?_
  exact ⟨(undisturbed_setInStream _).trans ht.1, ht.2⟩

end

end Refusal

/-- A CONNECT is refused at the limit, and the sessions go on: a request is answered 429,
    and a stream whose request is still to be read is given up. -/
structure RefusesAtLimit (env : Env W) : Prop where
  request : ∀ (s : WtEndpoint W) (h sid id : Nat) (x : Session) (headers : List HeaderField),
    s.registry.session h = some x → AtLimit s x → x.isWtConnect sid = false →
    headersAreWebtransportConnect headers = true →
    onServerRequest env h sid id headers s = refuseRequest env h sid s ∧
      wp (onServerRequest env h sid id headers) s fun _ t => Undisturbed h sid s t ∧
        t.lastError = some "E_LIMIT_EXCEEDED: SETTINGS_WT_MAX_SESSIONS exceeded"
  stream : ∀ (s : WtEndpoint W) (h sid kind now : Nat) (e : Entry) (st st' : InStream)
    (data : Bytes) (finished : Bool), s.registry.entries.get? h = some e →
    e.session.inStreams.get? sid = some st → AtLimit s e.session →
    st'.connectAdmitted = false → st'.handle = none →
    ({ st with buf := st.buf ++ data } : InStream).classify = some (kind, st') →
    classifyPeerStreamKind kind st'.isBidi = .serverConnect →
    wp (processInStream env h sid data finished now) s fun _ t =>
      Undisturbed h sid s t ∧ t.inStream h sid = none ∧
        t.lastError = some "E_LIMIT_EXCEEDED: unlatched CONNECT admission cap"

theorem refusesAtLimit (env : Env W) : RefusesAtLimit env where
  request s h sid id x headers hx hlimit hnew hconnect := by
    have heq : onServerRequest env h sid id headers s = refuseRequest env h sid s :=
      onServerRequest_atLimit hx hlimit hnew hconnect id
    refine ⟨heq, ?_⟩
    unfold wp
    rw [heq]
    exact wp_refuseRequest
  stream s h sid kind now e st st' data finished he hst hlimit hnew hhandle hclassify hkind :=
    wp_processInStream_atLimit he hst hlimit hnew hclassify hkind finished now hhandle

/-- In every run of a server, no connection has more sessions than its limit, which is
    positive; and a CONNECT at the limit is refused without disturbing the sessions. -/
theorem session_limit {world : W} {enable0rtt : Bool} {limits : WasmLimits}
    {rateLimits : WasmRateLimits} {cs : List ApiCall}
    (hnew : WtEndpoint.new world true enable0rtt limits rateLimits = .ok s)
    (hrun : Run (restrict FitsLimit (Step env)) s cs t) :
    (∀ h x, t.registry.session h = some x → x.activeWtCount ≤ t.wtMaxSessions) ∧
      0 < t.wtMaxSessions ∧ RefusesAtLimit env := by
  have hlimited := (started_new hnew).limited.run hrun
  exact ⟨hlimited.within hlimited.isServer, hlimited.positive, refusesAtLimit env⟩

/-- The state after a call that fits the limit. -/
def execFitting (env : Env W) : WtEndpoint W → ApiCall → Option (WtEndpoint W) :=
  guarded FitsLimit fun s c => (perform env c s).map Prod.snd

theorem fitting_of_exec (hexec : execFitting env s c = some t) :
    restrict FitsLimit (Step env) s c t := by
  obtain ⟨hfits, hperform⟩ := restrict_of_guarded hexec
  obtain ⟨⟨⟨⟩, t⟩, hstep, rfl⟩ := map_eq_some_iff.mp hperform
  exact ⟨hfits, hstep⟩

theorem new_of_toOption {world : W} {isServer enable0rtt : Bool} {limits : WasmLimits}
    {rateLimits : WasmRateLimits}
    (hnew : (WtEndpoint.new world isServer enable0rtt limits rateLimits).toOption = some s) :
    WtEndpoint.new world isServer enable0rtt limits rateLimits = .ok s := by
  cases hcases : new world isServer enable0rtt limits rateLimits with
  | error e =>
    rw [hcases] at hnew
    cases hnew
  | ok s' =>
    rw [hcases] at hnew
    cases hnew
    rfl

/-- The HEADERS frame of a CONNECT request with an empty dynamic table. -/
def connectRequest : Bytes :=
  (encodeOrLiteral (.new 0) (connectHeaders "localhost" "/")).1.headersFrame

/-- Two CONNECTs on one connection: the second arrives when the first has taken the only
    place. -/
def twoConnects : List Answer :=
  [.incoming .newConnection, .connection 0, .event 0 .connected, .accepted .bi 0,
    .data 0 (connectRequest.take 1), .data 0 (connectRequest.drop 1),
    .incoming (.connectionEvent 0), .accepted .bi 4,
    .data 4 (connectRequest.take 1), .data 4 (connectRequest.drop 1)]

def twoConnectsCalls : List ApiCall :=
  [.setWtMaxSessions 1, .recv 0 ⟨.v4 0, 0⟩ [], .recv 0 ⟨.v4 0, 0⟩ []]

/-- The sessions of connection 0, the limit, and the error of the refusal. -/
def limitSummary (t : WtEndpoint (List Answer)) : Option (Nat × Option Nat) × Nat × Option String :=
  ((t.registry.session 0).map fun x => (x.activeWtCount, x.connectStream), t.wtMaxSessions,
    t.lastError)

theorem session_limit_two : ∃ s t, WtEndpoint.new twoConnects true false {} {} = .ok s ∧
    Run (restrict FitsLimit (Step scripted)) s twoConnectsCalls t ∧
    limitSummary t = (some (1, some 0), 1,
      some "E_LIMIT_EXCEEDED: unlatched CONNECT admission cap") ∧
    ∀ h x, t.registry.session h = some x → x.activeWtCount ≤ t.wtMaxSessions := by
  have hsummary : ((new twoConnects true false {} {}).toOption.bind fun s =>
      execAll (execFitting scripted) s twoConnectsCalls).map limitSummary =
        some (some (1, some 0), 1, some "E_LIMIT_EXCEEDED: unlatched CONNECT admission cap") := by
    decide +kernel
  obtain ⟨t, hrun, hsummary⟩ := map_eq_some_iff.mp hsummary
  obtain ⟨s, hnew, hrun⟩ := bind_eq_some_iff.mp hrun
  have hnew := new_of_toOption hnew
  have hrun : Run (restrict FitsLimit (Step scripted)) s twoConnectsCalls t :=
    .of_execAll (fun _ _ _ => fitting_of_exec) hrun
  exact ⟨s, t, hnew, hrun, hsummary, (session_limit hnew hrun).1⟩

end Endpoint

end WebTransportBun.Wasm
