/-
  WebTransportBun.Wasm.Endpoint.Operations

  What the endpoint does to the count of its sessions, operation by operation.

  An operation registers a connection, takes a CONNECT while the limit leaves room for it,
  or keeps the `Frame`: on a server it starts no session.  The files after this one show
  that every call into the endpoint is a sequence of such operations (`step_operates`), so
  an invariant of the sessions is a statement about three kinds of update.
-/

import WebTransportBun.Wasm.Endpoint.Api

namespace WebTransportBun.Wasm

open Library Library.Prog Relation Endpoint Library.Map WtEndpoint

/-! ## Frames -/

/-- On a server, a session goes on with no more WebTransport sessions than it had. -/
structure Shrinks (x x' : Session) : Prop where
  primary : x'.primaryLive = true → x.primaryLive = true
  extra : ∀ sid, x'.extraSessions.contains sid = true → x.extraSessions.contains sid = true
  pending : ∀ sid, x'.pendingClientConnects.contains sid = true →
    x.pendingClientConnects.contains sid = true
  selfOpened : x'.connectSelfOpened = true → x.connectSelfOpened = true

/-- On a server no session starts; sessions of a client may come as the host asks. -/
structure Frame {W : Type} (s t : WtEndpoint W) : Prop where
  isServer : t.isServer = s.isServer
  wtMaxSessions : t.wtMaxSessions = s.wtMaxSessions
  session : ∀ {h x'}, t.registry.session h = some x' →
    ∃ x, s.registry.session h = some x ∧ (s.isServer = true → Shrinks x x')

attribute [grind =] Session.primaryLive

@[grind =] def Session.kept (x : Session) :=
  (x.primaryLive, x.extraSessions, x.pendingClientConnects, x.connectSelfOpened)

namespace Shrinks

variable {x y z : Session}

theorem refl (x : Session) : Shrinks x x := ⟨id, fun _ => id, fun _ => id, id⟩

theorem trans (h : Shrinks x y) (h' : Shrinks y z) : Shrinks x z where
  primary hz := h.primary (h'.primary hz)
  extra sid hz := h.extra sid (h'.extra sid hz)
  pending sid hz := h.pending sid (h'.pending sid hz)
  selfOpened hz := h.selfOpened (h'.selfOpened hz)

/-- A session that shrinks counts no more WebTransport sessions than before. -/
theorem activeWtCount_le (h : Shrinks x y) : y.activeWtCount ≤ x.activeWtCount := by
  unfold Session.activeWtCount
  have hextra : y.extraSessions.size ≤ x.extraSessions.size := size_le_of_contains h.extra
  have hpending : y.pendingClientConnects.size ≤ x.pendingClientConnects.size :=
    size_le_of_contains h.pending
  have hprimary : (if y.primaryLive then 1 else 0) ≤ if x.primaryLive then 1 else 0 := by
    cases hy : y.primaryLive with
    | false => simp
    | true => simp [h.primary hy]
  omega

/-- A session whose counted fields stay has not grown. -/
@[grind ←] theorem of_kept (h : y.kept = x.kept) : Shrinks x y := by
  simp only [Session.kept, Prod.mk.injEq] at h
  obtain ⟨hprimary, hextra, hpending, hself⟩ := h
  exact ⟨by rw [hprimary]; exact id, by rw [hextra]; exact fun _ => id,
    by rw [hpending]; exact fun _ => id, by rw [hself]; exact id⟩

end Shrinks

/-- An update reaches the session of its own connection only. -/
theorem session_update {r : Registry} {h : Nat} (f : Connection → Connection)
    (g : Session → Session)
    (h' : Nat) :
    (r.update h f g).session h' = if h' = h then (r.session h').map g else r.session h' := by
  simp only [Registry.session, Registry.update, get?_modify]
  split
  · cases r.entries.get? h' <;> rfl
  · rfl

variable {x : Session}

/-- The sessions left after a removal were there before. -/
theorem session_remove {r : Registry} {h h' : Nat}
    (hx : (r.remove h).session h' = some x) : r.session h' = some x := by
  rw [Registry.session, (r.remove_eq h).2] at hx
  split at hx
  · cases hx
  · exact hx

namespace Frame

variable {W : Type} {s t u : WtEndpoint W}

/-- What the count of the sessions depends on. -/
def counted (s : WtEndpoint W) :=
  (s.isServer, s.wtMaxSessions, fun h => (s.registry.session h).map Session.kept)

/-- What the count does not see keeps the frame. -/
theorem of_counted (h : counted t = counted s) : Frame s t := by
  simp only [counted, Prod.mk.injEq] at h
  obtain ⟨hserver, hmax, hkept⟩ := h
  refine ⟨hserver, hmax, fun {h' x'} hx' => ?_⟩
  have heq := congrFun hkept h'
  simp only [hx'] at heq
  obtain ⟨x, hx, hkept⟩ := Option.map_eq_some_iff.mp heq.symm
  exact ⟨x, hx, fun _ => .of_kept hkept.symm⟩

@[grind ←] theorem refl (s : WtEndpoint W) : Frame s s := of_counted rfl

theorem trans (h : Frame s t) (h' : Frame t u) : Frame s u where
  isServer := h'.isServer.trans h.isServer
  wtMaxSessions := h'.wtMaxSessions.trans h.wtMaxSessions
  session hz := by
    obtain ⟨y, hy, hyz⟩ := h'.session hz
    obtain ⟨x, hx, hxy⟩ := h.session hy
    exact ⟨x, hx, fun hs => (hxy hs).trans (hyz (h.isServer.trans hs))⟩

theorem then_counted (h : Frame s t) (hu : counted u = counted t) : Frame s u :=
  h.trans (of_counted hu)

end Frame

/-! ## Updates that the count does not see -/

open WebTransportBun.Wasm.Frame

section Counted

variable {W : Type} {s : WtEndpoint W} {h : Nat}

/-- An update that keeps the counted fields of a session is not seen. -/
theorem counted_update {f : Connection → Connection} {g : Session → Session}
    (hg : ∀ x, (g x).kept = x.kept) :
    counted { s with registry := s.registry.update h f g } = counted s := by
  simp only [counted, session_update]
  refine congrArg _ (congrArg _ (funext fun h' => ?_))
  split
  · cases s.registry.session h' with
    | none => rfl
    | some x => exact congrArg some (hg x)
  · rfl

theorem counted_updSession {f : Session → Session} (hf : ∀ x, (f x).kept = x.kept) :
    counted (s.updSession h f) = counted s :=
  counted_update hf

@[simp, grind =] theorem counted_updConn (f : Connection → Connection) :
    counted (s.updConn h f) = counted s :=
  counted_update fun _ => rfl

@[simp, grind =] theorem counted_updInStream (sid : Nat) (f : InStream → InStream) :
    counted (s.updInStream h sid f) = counted s :=
  counted_update fun _ => rfl

@[simp, grind =] theorem counted_setLastError (error : String) :
    counted (s.setLastError error) = counted s := rfl

@[simp, grind =] theorem counted_noteAt (n : Nat → Note) :
    counted (s.noteAt h n) = counted s := by
  unfold noteAt
  split <;> rfl

@[simp, grind =] theorem counted_tryPushEvent (ev : WtEvent) :
    counted (s.tryPushEvent ev).2 = counted s := rfl

@[simp, grind =] theorem counted_pushEvent (ev : WtEvent) :
    counted (s.pushEvent ev) = counted s := by
  unfold pushEvent
  split <;> rename_i heq <;> exact congrArg (counted ·.2) heq.symm

@[simp, grind =] theorem counted_pushSessionClosed (conn sid code : Nat) (reason : String) :
    counted (s.pushSessionClosed conn sid code reason) = counted s :=
  counted_pushEvent _

@[simp, grind =] theorem counted_releaseSlot (slot : Option Slot) :
    counted (s.releaseSlot slot) = counted s := by
  cases slot <;> rfl

@[simp, grind =] theorem counted_dropHandshakeReservation :
    counted (s.dropHandshakeReservation h) = counted s :=
  counted_releaseSlot _

@[simp, grind =] theorem counted_dropSessionReservation :
    counted (s.dropSessionReservation h) = counted s :=
  counted_releaseSlot _

@[simp, grind =] theorem counted_dropStreamReservation (hd : Nat) :
    counted (s.dropStreamReservation hd) = counted s :=
  counted_releaseSlot _

@[simp, grind =] theorem counted_unpause (hd : Nat) : counted (s.unpause hd) = counted s := rfl

/-- Nor is a loop of updates that are not seen. -/
theorem counted_foldl {γ : Type} {f : WtEndpoint W → γ → WtEndpoint W}
    (hf : ∀ s x, counted (f s x) = counted s) (l : List γ) (s : WtEndpoint W) :
    counted (l.foldl f s) = counted s := by
  induction l generalizing s with
  | nil => rfl
  | cons x l ih => exact (ih _).trans (hf s x)

@[simp, grind =] theorem counted_releaseConnectionBudget :
    counted (s.releaseConnectionBudget h) = counted s := by
  unfold releaseConnectionBudget
  rw [counted_foldl fun _ _ => counted_dropStreamReservation _]
  simp

@[simp, grind =] theorem counted_holdBack (src : Source) :
    counted (s.holdBack h src) = counted s := by
  unfold holdBack enqueueCapacityWaiter
  split
  · simp
  · rw [counted_noteAt]
    rfl

@[simp, grind =] theorem counted_indexRemove (hd : Nat) :
    counted (s.indexRemove hd) = counted s := by
  unfold indexRemove
  split <;> rfl

@[simp, grind =] theorem counted_markStreamHalfDone (hd bit : Nat) :
    counted (s.markStreamHalfDone hd bit) = counted s := by
  unfold markStreamHalfDone
  dsimp only
  split
  · simp
    rfl
  · rfl

@[simp, grind =] theorem counted_retireInStream (sid : Nat) :
    counted (s.retireInStream h sid) = counted s := by
  have hupd : counted (s.updSession h fun x => { x with inStreams := x.inStreams.erase sid }) =
    counted s := counted_updSession fun _ => rfl
  unfold retireInStream
  split
  · rfl
  · dsimp only
    split
    · exact hupd
    · simpa using hupd

@[simp, grind =] theorem counted_forgetStream (hd : Nat) :
    counted (s.forgetStream hd) = counted s := by
  unfold forgetStream
  split
  · rfl
  · exact counted_dropStreamReservation _

end Counted

/-! ## Updates that end sessions -/

section Updates

variable {W : Type} {s : WtEndpoint W} {h : Nat} {f : Session → Session}

/-- On a server, one session may shrink. -/
theorem frame_updSession
    (hf : ∀ x, s.registry.session h = some x → s.isServer = true → Shrinks x (f x)) :
    Frame s (s.updSession h f) := by
  refine ⟨rfl, rfl, fun {h' x'} hx' => ?_⟩
  rw [updSession, session_update] at hx'
  split at hx'
  · next heq =>
    subst heq
    obtain ⟨x, hx, rfl⟩ := Option.map_eq_some_iff.mp hx'
    exact ⟨x, hx, hf x hx⟩
  · exact ⟨x', hx', fun _ => .refl x'⟩

@[grind ←] theorem frame_updSession_shrinks (hf : ∀ x, Shrinks x (f x)) :
    Frame s (s.updSession h f) :=
  frame_updSession fun x _ _ => hf x

@[grind ←] theorem frame_updSession_kept (hf : ∀ x, (f x).kept = x.kept) :
    Frame s (s.updSession h f) :=
  .of_counted (counted_updSession hf)

/-- On a client, a session may change at will. -/
theorem frame_updSession_client (hclient : s.isServer = false) : Frame s (s.updSession h f) := by
  refine frame_updSession fun x _ hserver => ?_
  rw [hclient] at hserver
  cases hserver

variable {t : WtEndpoint W}

@[grind ←] theorem frame_noteAt (ht : Frame s t) (n : Nat → Note) : Frame s (t.noteAt h n) :=
  ht.then_counted (counted_noteAt n)

@[grind ←] theorem frame_pushEvent (ht : Frame s t) (ev : WtEvent) : Frame s (t.pushEvent ev) :=
  ht.then_counted (counted_pushEvent ev)

@[grind ←] theorem frame_pushSessionClosed (ht : Frame s t) (conn sid code : Nat)
    (reason : String) : Frame s (t.pushSessionClosed conn sid code reason) :=
  ht.then_counted (counted_pushSessionClosed ..)

/-- A connection that goes takes its sessions along. -/
theorem frame_remove : Frame s { s with registry := s.registry.remove h } :=
  ⟨rfl, rfl, fun {_ x'} hx' => ⟨x', session_remove hx', fun _ => .refl x'⟩⟩

/-- The teardown removes the connection; what it gives back is not counted. -/
theorem frame_cleanup (now : Nat) : Frame s (cleanup s h now) := by
  refine frame_remove.then_counted (t := { s with registry := s.registry.remove h }) ?_
  unfold cleanup
  rw [counted_foldl fun _ _ => counted_forgetStream _]
  split
  · simp
  · exact counted_dropSessionReservation.trans counted_dropHandshakeReservation

end Updates

/-! ## Operations -/

structure Session.Vacant (x : Session) : Prop where
  extra : ∀ sid, x.extraSessions.contains sid = false
  pending : ∀ sid, x.pendingClientConnects.contains sid = false
  established : x.established = false
  selfOpened : x.connectSelfOpened = false

inductive OpStep {W : Type} (s : WtEndpoint W) : WtEndpoint W → Prop
  | frame {t : WtEndpoint W} (h : Frame s t) : OpStep s t
  /-- The server takes a CONNECT while there is room for it. -/
  | latch {h sid : Nat} {x : Session} (hx : s.registry.session h = some x)
      (hroom : s.isServer = true → x.activeWtCount < s.wtMaxSessions) :
      OpStep s (s.updSession h (latchServerSession · sid))
  | register {h id : Nat} {registry : Registry} {conn : Connection} {session : Session}
      (hfree : h ∉ s.registry.handles)
      (hreg : s.registry.register h hfree conn session = .ok (id, registry))
      (hvacant : session.Vacant) : OpStep s { s with registry }

/-! ## Operations and sessions -/

section Sessions

variable {W : Type} {s t : WtEndpoint W} {h : Nat}

/-- What an operation may do to the session of a connection. -/
inductive SessionMove (s : WtEndpoint W) (h : Nat) (x' : Session) : Prop
  | fresh (hvacant : x'.Vacant)
  | shrinks {x : Session} (hx : s.registry.session h = some x)
      (hshrinks : s.isServer = true → Shrinks x x')
  | latch {x : Session} {sid : Nat} (hx : s.registry.session h = some x)
      (hroom : s.isServer = true → x.activeWtCount < s.wtMaxSessions)
      (hlatch : x' = latchServerSession x sid)

/-- A new connection brings its own session and touches no other. -/
theorem session_register {r r' : Registry} {hfree : h ∉ r.handles} {conn : Connection}
    {session x : Session} {id h' : Nat} (hreg : r.register h hfree conn session = .ok (id, r'))
    (hx : r'.session h' = some x) : x = session ∨ r.session h' = some x := by
  rw [Registry.session, (Registry.register_eq_ok hreg).2.1, get?_insert] at hx
  split at hx
  · exact .inl (Option.some.inj hx).symm
  · exact .inr hx

theorem OpStep.isServer (h : OpStep s t) : t.isServer = s.isServer := by
  cases h with
  | frame h => exact h.isServer
  | latch | register => rfl

theorem OpStep.wtMaxSessions (h : OpStep s t) : t.wtMaxSessions = s.wtMaxSessions := by
  cases h with
  | frame h => exact h.wtMaxSessions
  | latch | register => rfl

/-- After an operation a session is new, has shrunk, or was latched with room for it. -/
theorem OpStep.session (hop : OpStep s t) {h' : Nat} {x' : Session}
    (hx' : t.registry.session h' = some x') : SessionMove s h' x' := by
  cases hop with
  | frame h =>
    obtain ⟨x, hx, hshrinks⟩ := h.session hx'
    exact .shrinks hx hshrinks
  | latch hx hroom =>
    rw [show (s.updSession _ _).registry = s.registry.update _ _ _ from rfl, session_update] at hx'
    split at hx'
    · next heq =>
      subst heq
      rw [hx] at hx'
      cases hx'
      exact .latch hx hroom rfl
    · exact .shrinks hx' fun _ => .refl x'
  | register hfree hreg hvacant =>
    rcases session_register hreg hx' with rfl | hx
    · exact .fresh hvacant
    · exact .shrinks hx fun _ => .refl x'

/-- A server has opened no CONNECT of its own. -/
def ServerClean (s : WtEndpoint W) : Prop :=
  s.isServer = true → ∀ h x, s.registry.session h = some x →
    x.connectSelfOpened = false ∧ ∀ sid, x.pendingClientConnects.contains sid = false

/-- No operation gives a server a CONNECT of its own. -/
theorem stable_serverClean : Stable (OpStep (W := W)) ServerClean := by
  intro s t hop hclean hserver h x' hx'
  rw [hop.isServer] at hserver
  cases hop.session hx' with
  | fresh hvacant => exact ⟨hvacant.selfOpened, hvacant.pending⟩
  | shrinks hx hshrinks =>
    obtain ⟨hself, hpending⟩ := hclean hserver h _ hx
    refine ⟨?_, fun sid => ?_⟩
    · exact Bool.eq_false_iff.mpr fun hx' => by
        have := (hshrinks hserver).selfOpened hx'
        rw [hself] at this
        cases this
    · exact Bool.eq_false_iff.mpr fun hx' => by
        have := (hshrinks hserver).pending sid hx'
        rw [hpending sid] at this
        cases this
  | latch hx hroom hlatch =>
    subst hlatch
    obtain ⟨hself, hpending⟩ := hclean hserver h _ hx
    unfold latchServerSession
    split <;> exact ⟨hself, hpending⟩

/-- Whoever opened its primary CONNECT itself is a client. -/
theorem ServerClean.isClient_of_selfOpened (hclean : ServerClean s)
    (hx : s.registry.session h = some x) (hself : x.connectSelfOpened = true) :
    s.isServer = false := by
  by_contra hserver
  rw [(hclean (by simpa using hserver) h x hx).1] at hself
  cases hself

/-- Whoever waits for the answer to a CONNECT is a client. -/
theorem ServerClean.isClient_of_pending {sid : Nat} (hclean : ServerClean s)
    (hx : s.registry.session h = some x) (hpending : x.pendingClientConnects.contains sid = true) :
    s.isServer = false := by
  by_contra hserver
  rw [(hclean (by simpa using hserver) h x hx).2 sid] at hpending
  cases hpending

end Sessions

/-! ## Rules for programs -/

section Programs

variable {W : Type}

/-- On a server there are no CONNECTs of its own to be answered. -/
def clean : Invariant (OpStep (W := W)) := ⟨ServerClean, stable_serverClean⟩

theorem stable_isServer (b : Bool) : Stable (OpStep (W := W)) fun s => s.isServer = b := by
  intro s t hop hs
  rw [hop.isServer, hs]

/-- The endpoint is a client. -/
def client : Invariant (OpStep (W := W)) := ⟨fun s => s.isServer = false, stable_isServer false⟩

variable {P : Invariant (OpStep (W := W))} {f : WtEndpoint W → WtEndpoint W}

/-- A write is an operation where it keeps the frame. -/
theorem does_frame_of (h : ∀ s, P.holds s → Frame s (f s)) : Does P (modify f) :=
  does_modify fun s hs => .single (.frame (h s hs))

/-- On a client that may be any change of the sessions. -/
@[grind ←] theorem does_client (h : ∀ s, s.isServer = false → Frame s (f s)) :
    Does client (modify f) :=
  does_frame_of h

@[grind ←] theorem does_frame (h : ∀ s, Frame s (f s)) : Does P (modify f) :=
  does_frame_of fun s _ => h s

/-- A write that the count does not see is an operation anywhere. -/
@[grind ←] theorem does_counted (h : ∀ s, counted (f s) = counted s) : Does P (modify f) :=
  does_frame fun s => .of_counted (h s)

end Programs

end WebTransportBun.Wasm
