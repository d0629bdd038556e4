/-
  WebTransportBun.Wasm.Endpoint.OpenStream

  `wt_open_stream` of `crates/wasm/src/bridge.rs`, which hands the result of
  `open_stream` to the host as a signed number.

  An attempt that is refused leaves nothing behind: the slot taken before the QUIC stream
  is asked for goes back with its reservation.  A stream that is opened is reported by
  `handle as i32`, and the sign bit of an `i32` is a bit of the handle, so the upper half
  of the handle space reads as failure.
-/

import WebTransportBun.Wasm.Endpoint.Api
import WebTransportBun.Wasm.Endpoint.Script

namespace WebTransportBun.Wasm

open Library Library.Prog Endpoint Option Registry GovernorInner

/-! ## The bridge -/

/-- `REGISTRY`: the endpoints by id.  It is unavailable while another call has it borrowed
    and after the thread-local is gone. -/
structure Bridge (W : Type) where
  available : Bool
  endpoints : Map Nat (WtEndpoint W)

namespace Bridge

variable {W : Type}

def withEndpointMut {R : Type} (eid : Nat) (operation : EndpointM W R) :
    Prog (Bridge W) (Except String (Option R)) := do
  let b ← get
  if b.available then
    match b.endpoints.get? eid with
    | none => return .ok none
    | some s =>
      match operation s with
      | none => failure
      | some (r, t) =>
        set { b with endpoints := b.endpoints.insert eid t }
        return .ok (some r)
  else return .error "E_INTERNAL: endpoint registry unavailable"

def wtOpenStream (env : Env W) (eid conn sessionId : Nat) (bidi : Bool) : Prog (Bridge W) Int := do
  let r ← withEndpointMut eid (openStream env conn sessionId bidi)
  return r.toOption.join.getD (-1)

end Bridge

/-! ## What an attempt leaves behind -/

section Outcome

variable {W : Type} {env : Env W} {s t : WtEndpoint W} {conn sessionId h : Nat} {bidi : Bool}

def quicStreams (s : WtEndpoint W) (h : Nat) : List Nat :=
  ((s.registry.conn h).map Connection.streams).getD []

/-- Between the two states a QUIC stream was opened. -/
def StreamOpened (s t : WtEndpoint W) : Prop :=
  ∃ h sid, sid ∉ quicStreams s h ∧ sid ∈ quicStreams t h

/-- No trace of a stream: the connections with their QUIC streams, the stream tables, the
    reservations and every counter of the governor are as before. -/
structure KeepsNothing (s t : WtEndpoint W) : Prop where
  registry : t.registry = s.registry
  streamIndex : t.streamIndex = s.streamIndex
  revIndex : t.revIndex = s.revIndex
  streamSessions : t.streamSessions = s.streamSessions
  halfDone : t.halfDone = s.halfDone
  streamReservations : t.streamReservations = s.streamReservations
  nextStream : t.nextStream = s.nextStream
  counters : ∀ c : Counter, t.box.governor.value c = s.box.governor.value c

theorem KeepsNothing.refl (s : WtEndpoint W) : KeepsNothing s s :=
  ⟨rfl, rfl, rfl, rfl, rfl, rfl, rfl, fun _ => rfl⟩

theorem keepsNothing_setLastError (s : WtEndpoint W) (e : String) :
    KeepsNothing s (s.setLastError e) :=
  ⟨rfl, rfl, rfl, rfl, rfl, rfl, rfl, fun _ => rfl⟩

theorem KeepsNothing.not_opened (h : KeepsNothing s t) : ¬ StreamOpened s t := by
  rintro ⟨h', sid, hold, hnew⟩
  rw [quicStreams, h.registry] at hnew
  exact hold hnew

/-- Why `open_stream` may open no stream. -/
inductive Refuses (env : Env W) (s : WtEndpoint W) (conn sessionId : Nat) (bidi : Bool) : Prop
  | session (e : String) (he : resolveSession s conn sessionId = .error e)
  | handles (he : 2 ^ 32 ≤ s.nextStream + 1)
  | capacity (e : String)
      (he : s.box.reserveStream conn s.nextStream (if bidi then .bidi else .uni) = .error e)
  | quic (h sid : Nat) (hh : resolveSession s conn sessionId = .ok (h, sid))
      (he : ∀ c, s.registry.conn h = some c →
        (env.quinn (.openStream h c (if bidi then .bi else .uni)) s.world).1 = none)

/-! ## The calls of an attempt -/

theorem wp_openQuicStream {dir : Dir} {Q : Option Nat → WtEndpoint W → Prop}
    (hnone : (∀ c, s.registry.conn h = some c →
        (env.quinn (.openStream h c dir) s.world).1 = none) →
      ∀ world, Q none { s with world })
    (hsome : ∀ c sid world, s.registry.conn h = some c → sid ∉ c.streams →
      (env.quinn (.openStream h c dir) s.world).1 ≠ none →
      Q (some sid) ({ s with world }.updConn h fun c => { c with streams := sid :: c.streams })) :
    wp (openQuicStream env h dir) s Q := by
  simp only [openQuicStream, wp_bind, wp_get]
  cases hconn : s.registry.conn h with
  | none => simp_all
  | some c =>
    simp only [call, wp_bind, wp_get, wp_set, wp_pure]
    cases hreply : (env.quinn (.openStream h c dir) s.world).1 with
    | none =>
      refine wp_pure.mpr (hnone ?_ _)
      intro c' hc'
      rw [hconn] at hc'
      cases hc'
      exact hreply
    | some sid =>
      simp only [wp_bind, wp_modify, wp_pure]
      exact hsome c sid.val _ hconn sid.property (by rw [hreply]; exact some_ne_none sid)

theorem value_release_reserveStream {b b' : Outbox} {stream : Nat} {kind : StreamKind} {slot : Slot}
    (h : b.reserveStream conn stream kind = .ok (slot, b')) (c : Counter) :
    (b'.release slot).governor.value c = b.governor.value c := by
  have hgrant : b'.governor.value c = b.governor.value c + c.charge slot.kind := by
    unfold Outbox.reserveStream at h
    split at h
    · cases h
    · next r g hg =>
      cases h
      have hr : r = .stream conn kind := by grind [reserveStream]
      subst hr
      exact (reserveStream_grants hg).value c
  show (b'.governor.releaseKind slot.kind).value c = _
  rw [value_releaseKind]
  omega

theorem quicStreams_updSession {f : Session → Session} {h' : Nat} :
    quicStreams (s.updSession h f) h' = quicStreams s h' := by
  simp only [quicStreams, WtEndpoint.updSession, conn, update, Map.get?_modify]
  split
  · cases s.registry.entries.get? h' <;> rfl
  · rfl

theorem mem_quicStreams_updConn {c : Connection} {sid : Nat} (hc : s.registry.conn h = some c) :
    sid ∈ quicStreams (s.updConn h fun c => { c with streams := sid :: c.streams }) h := by
  simp only [conn, map_eq_some_iff] at hc
  obtain ⟨e, he, rfl⟩ := hc
  simp [quicStreams, WtEndpoint.updConn, conn, update, he]

theorem quicStreams_bindSelfStream {slot : Slot} {sid h' : Nat} :
    quicStreams (bindSelfStream s h sid conn sessionId bidi slot) h' = quicStreams s h' := by
  cases bidi with
  | false => rfl
  | true => exact quicStreams_updSession

/-! ## The outcome of an attempt -/

/-- `open_stream` returns, and either refuses with -1 and leaves nothing behind, or opens a
    stream and returns its handle as an `i32`. -/
theorem openStream_outcome (env : Env W) (s : WtEndpoint W) (conn sessionId : Nat) (bidi : Bool) :
    wp (openStream env conn sessionId bidi) s fun v t =>
      (Refuses env s conn sessionId bidi ∧ v = -1 ∧ KeepsNothing s t) ∨
      (¬ Refuses env s conn sessionId bidi ∧ s.nextStream + 1 < 2 ^ 32 ∧
        v = asI32 s.nextStream ∧ StreamOpened s t) := by
  simp only [openStream, wp_bind, wp_get]
  cases hsession : resolveSession s conn sessionId with
  | error e =>
    simp only [wp_bind, wp_modify, wp_pure]
    exact .inl ⟨.session e hsession, trivial, keepsNothing_setLastError s _⟩
  | ok r =>
    obtain ⟨h, sid₀⟩ := r
    by_cases hspace : 2 ^ 32 ≤ s.nextStream + 1
    · simp only [if_pos hspace, wp_bind, wp_modify, wp_pure]
      exact .inl ⟨.handles hspace, trivial, keepsNothing_setLastError s _⟩
    simp only [if_neg hspace]
    cases hslot : s.box.reserveStream conn s.nextStream (if bidi then .bidi else .uni) with
    | error e =>
      simp only [wp_bind, wp_modify, wp_pure]
      exact .inl ⟨.capacity e hslot, trivial, keepsNothing_setLastError s _⟩
    | ok granted =>
      simp only [wp_bind, wp_modify]
      refine wp_openQuicStream ?_ ?_
      · intro hquic world
        simp only [wp_bind, wp_modify, wp_pure]
        refine .inl ⟨.quic h sid₀ hsession hquic, trivial, ?_⟩
        exact ⟨rfl, rfl, rfl, rfl, rfl, rfl, rfl, value_release_reserveStream hslot⟩
      · intro c sid world hc hfresh hquic
        simp only [wp_bind, wp_modify, wp_pure]
        refine wp_onConn fun world' => .inr ⟨?_, by omega, trivial, h, sid, ?_, ?_⟩
        · intro hrefuses
          cases hrefuses with
          | session e he => rw [hsession] at he; cases he
          | handles he => exact hspace he
          | capacity e he => rw [hslot] at he; cases he
          | quic h' sid' hh he => grind
        · rw [quicStreams, hc]
          exact hfresh
        · rw [quicStreams_bindSelfStream]
          exact mem_quicStreams_updConn hc

theorem asI32_neg_iff {n : Nat} (h : n + 1 < 2 ^ 32) : asI32 n < 0 ↔ 2 ^ 31 ≤ n := by
  unfold asI32
  split <;> omega

end Outcome

/-! ## The result the host sees -/

namespace Bridge

variable {W : Type} {env : Env W} {b b' : Bridge W} {eid conn sessionId : Nat} {bidi : Bool}

/-- Between the two states some endpoint opened a QUIC stream. -/
def StreamOpened (b b' : Bridge W) : Prop :=
  ∃ e s t, b.endpoints.get? e = some s ∧ b'.endpoints.get? e = some t ∧ Wasm.StreamOpened s t

/-- No endpoint has a trace of a stream. -/
def KeepsNothing (b b' : Bridge W) : Prop :=
  ∀ e t, b'.endpoints.get? e = some t → ∃ s, b.endpoints.get? e = some s ∧ Wasm.KeepsNothing s t

/-- The call returns; its value is negative exactly when no stream was opened, and then
    nothing of the attempt is left. -/
def OpensFaithfully (env : Env W) (b : Bridge W) (eid conn sessionId : Nat) (bidi : Bool) : Prop :=
  wp (wtOpenStream env eid conn sessionId bidi) b fun v b' =>
    (v < 0 ↔ ¬ b.StreamOpened b') ∧ (v < 0 → b.KeepsNothing b')

/-- The next stream handle of the endpoint is a positive `i32`. -/
def HandleFits (b : Bridge W) (eid : Nat) : Prop :=
  ∀ s, b.endpoints.get? eid = some s → s.nextStream < 2 ^ 31

/-- The call reaches no endpoint, or the endpoint refuses it. -/
def Refuses (env : Env W) (b : Bridge W) (eid conn sessionId : Nat) (bidi : Bool) : Prop :=
  b.available = true → ∀ s, b.endpoints.get? eid = some s →
    Wasm.Refuses env s conn sessionId bidi

theorem KeepsNothing.not_opened (h : b.KeepsNothing b') : ¬ b.StreamOpened b' := by
  rintro ⟨e, s, t, hs, ht, hopened⟩
  obtain ⟨s', hs', hkeeps⟩ := h e t ht
  rw [hs] at hs'
  cases hs'
  exact hkeeps.not_opened hopened

theorem KeepsNothing.refl (b : Bridge W) : b.KeepsNothing b :=
  fun _ t ht => ⟨t, ht, .refl t⟩

theorem KeepsNothing.insert {s t : WtEndpoint W} (hs : b.endpoints.get? eid = some s)
    (h : Wasm.KeepsNothing s t) :
    b.KeepsNothing { b with endpoints := b.endpoints.insert eid t } := by
  intro e t' ht'
  simp only [Map.get?_insert] at ht'
  split at ht'
  · next he =>
    cases ht'
    exact ⟨s, he ▸ hs, h⟩
  · exact ⟨t', ht', .refl t'⟩

/-- A call that opens no stream reads as failure and leaves nothing behind. -/
theorem wp_wtOpenStream_refused (hrefuses : b.Refuses env eid conn sessionId bidi) :
    wp (wtOpenStream env eid conn sessionId bidi) b fun v b' => v < 0 ∧ b.KeepsNothing b' := by
  simp only [wtOpenStream, withEndpointMut, wp_bind, wp_get]
  by_cases havail : b.available = true
  · rw [if_pos havail]
    cases hs : b.endpoints.get? eid with
    | none => simpa [Except.toOption] using KeepsNothing.refl b
    | some s =>
      obtain ⟨v, t, hrun, ⟨-, rfl, hkeeps⟩ | ⟨hnot, -⟩⟩ :=
        openStream_outcome env s conn sessionId bidi
      · simp only [hrun, wp_bind, wp_set, wp_pure]
        exact ⟨by decide, .insert hs hkeeps⟩
      · exact absurd (hrefuses havail s hs) hnot
  · rw [if_neg havail]
    simpa [Except.toOption] using KeepsNothing.refl b

/-- A call that opens a stream yields its handle, which reads as failure from 2^31 on. -/
theorem wp_wtOpenStream_opened (hopens : ¬ b.Refuses env eid conn sessionId bidi) :
    wp (wtOpenStream env eid conn sessionId bidi) b fun v b' =>
      (v < 0 ↔ ¬ b.HandleFits eid) ∧ b.StreamOpened b' := by
  simp only [Refuses, not_forall] at hopens
  obtain ⟨havail, s, hs, hopens⟩ := hopens
  simp only [wtOpenStream, withEndpointMut, wp_bind, wp_get, if_pos havail, hs]
  obtain ⟨v, t, hrun, ⟨hrefuses, -⟩ | ⟨-, hspace, rfl, hopened⟩⟩ :=
    openStream_outcome env s conn sessionId bidi
  · exact absurd hrefuses hopens
  · simp only [hrun, wp_bind, wp_set, wp_pure]
    refine ⟨?_, eid, s, t, hs, by simp, hopened⟩
    have hfits : b.HandleFits eid ↔ s.nextStream < 2 ^ 31 := by simp [HandleFits, hs]
    rw [hfits, not_lt]
    exact asI32_neg_iff hspace

/-- The host can tell from the value of `wt_open_stream` whether a stream was opened
    exactly if the next handle is below 2^31 or the call is refused. -/
theorem wtOpenStream_faithful_iff (env : Env W) (b : Bridge W) (eid conn sessionId : Nat)
    (bidi : Bool) :
    OpensFaithfully env b eid conn sessionId bidi ↔
      b.HandleFits eid ∨ b.Refuses env eid conn sessionId bidi := by
  by_cases hrefuses : b.Refuses env eid conn sessionId bidi
  · simp only [hrefuses, or_true, iff_true]
    refine wp_mono (wp_wtOpenStream_refused hrefuses) ?_
    rintro v b' ⟨hneg, hkeeps⟩
    exact ⟨iff_of_true hneg hkeeps.not_opened, fun _ => hkeeps⟩
  · simp only [hrefuses, or_false]
    obtain ⟨v, b', hrun, hv, hopened⟩ := wp_wtOpenStream_opened hrefuses
    constructor
    · rintro ⟨v', t, hrun', hiff, -⟩
      rw [hrun] at hrun'
      cases hrun'
      by_contra hfits
      exact hiff.mp (hv.mpr hfits) hopened
    · intro hfits
      have hpos : ¬ v < 0 := fun hneg => hv.mp hneg hfits
      exact
        ⟨v, b', hrun, iff_of_false hpos (fun hnot => hnot hopened), fun hneg => absurd hneg hpos⟩

/-- A client with an established session on connection 1 whose next stream handle is 2^31,
    before quinn-proto opens stream 4. -/
def halfSpaceUsed : Except String (WtEndpoint (List Answer)) := do
  let s ← WtEndpoint.new [.opened 4] false false {} {}
  let session := { Session.new "" .disabled 0 with connectStream := some 0, established := true }
  let (_, registry) ← Registry.empty.register 0 (by decide)
    { side := .client, streams := [0], connected := true } session
  return { s with registry, nextStream := 2 ^ 31 }

/-- The stream is open and the host is told that it is not. -/
theorem opened_stream_negative : ∃ s, halfSpaceUsed = .ok s ∧
    ¬ OpensFaithfully scripted ⟨true, (∅ : Map Nat _).insert 1 s⟩ 1 1 0 true := by
  refine ⟨_, rfl, ?_⟩
  rintro ⟨v, b', hrun, hiff, -⟩
  have hv : v = -2 ^ 31 := (Option.some.inj (congrArg (Option.map Prod.fst) hrun)).symm
  have hstreams : (b'.endpoints.get? 1).map (quicStreams · 0) = some [4, 0] :=
    (some.inj (congrArg
      (Option.map fun r => (r.2.endpoints.get? 1).map (quicStreams · 0)) hrun)).symm
  obtain ⟨t, ht, hstreams⟩ := map_eq_some_iff.mp hstreams
  refine hiff.mp (by omega) ⟨1, _, t, rfl, ht, 0, 4, ?_, ?_⟩
  · decide
  · rw [hstreams]
    decide

end Bridge

end WebTransportBun.Wasm
