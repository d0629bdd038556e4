/-
  WebTransportBun.Facade.HostAccounts

  The manager's books of the payloads it has adopted, against the host tokens of the Rust
  governor that they are kept under.

  A token comes to the manager with the event that carries the payload (`wt_poll_event`)
  and goes back by `releaseHostReservation`.  Only `pump` polls, and it does not nest, so
  no token is issued while a handler or a callback runs: between two calls the live tokens
  are those of the adopted reservations, with the same charge.  What `release_host_token`
  itself sets off in Rust, the admission of waiting payloads, issues no token and is taken
  up behind the call.
-/

import WebTransportBun.Facade.ManagerRegistry
import WebTransportBun.Wasm.Event
import WebTransportBun.Wasm.GovernorExact

namespace WebTransportBun.Facade

open Library Relation Wasm List Option Library.Map Counter GovernorInner

namespace Manager

/-! ## Books -/

/-- What the governor holds for the payload of a reservation. -/
def kind (r : HostReservation) : ReservationKind := .queuedBytes r.conn r.stream r.bytes

/-- The manager's counterpart of a counter of the governor; it keeps its totals of streams
    by handle alone. -/
def total (b : HostBooks) : Counter → Nat
  | .queuedBytesGlobal => b.hostQueuedBytesGlobal
  | .queuedBytesPerSession conn => b.hostQueuedBytesPerSession.count conn
  | .queuedBytesPerStream _ hd => b.hostQueuedBytesPerStream.count hd
  | _ => 0

/-- The counter of a stream is the one of its connection. -/
def Ours (connOf : Nat → Nat) (c : Counter) : Prop :=
  ∀ conn hd, c = .queuedBytesPerStream conn hd → conn = connOf hd

/-- The adopted reservations and the live host tokens are the same payloads. -/
structure Mirrors (connOf : Nat → Nat) (b : HostBooks) (tokens : Map Nat HostToken) : Prop where
  below : ∀ id r, b.hostReservations.get? id = some r → id < b.nextReservation
  live : ∀ id r, b.hostReservations.get? id = some r → tokens.get? r.token = some ⟨kind r⟩
  retained : ∀ token host, tokens.get? token = some host →
    ∃ id r, b.hostReservations.get? id = some r ∧ r.token = token
  sole : ∀ id id' r r', b.hostReservations.get? id = some r →
    b.hostReservations.get? id' = some r' → r.token = r'.token → id = id'
  conns : ∀ id r hd, b.hostReservations.get? id = some r → r.stream = some hd →
    r.conn = connOf hd
  perm : (tokens.values.map HostToken.kind).Perm (b.hostReservations.values.map kind)
  totals : ∀ c, Ours connOf c → total b c = c.due (b.hostReservations.values.map kind)

variable {connOf : Nat → Nat} {m m' : Manager} {tokens : Map Nat HostToken} {id : Nat}

/-- A release takes the charge of its payload off every total. -/
theorem total_release {r : HostReservation} (hr : m.hostReservations.get? id = some r)
    (hconn : ∀ hd, r.stream = some hd → r.conn = connOf hd) {c : Counter} (hc : Ours connOf c) :
    total (m.release id).toHostBooks c = total m.toHostBooks c - c.charge (kind r) := by
  cases c with
  | queuedBytesGlobal => simp only [total, release, hr, kind, charge]
  | queuedBytesPerSession conn =>
    simp only [total, release, hr, kind, charge, count_lower]
    split <;> rfl
  | queuedBytesPerStream conn hd =>
    cases hstream : r.stream with
    | none => simp [total, release, hr, kind, charge, hstream]
    | some hd' =>
      have hconn' := hconn hd' hstream
      have hown := hc conn hd rfl
      simp only [total, release, hr, kind, charge, count_lower, hstream]
      by_cases heq : hd = hd'
      · subst heq
        simp [hown, hconn']
      · simp [heq]
  | _ => simp [total]

theorem Mirrors.release (h : Mirrors connOf m.toHostBooks tokens) {r : HostReservation}
    (hr : m.hostReservations.get? id = some r) :
    Mirrors connOf (m.release id).toHostBooks (tokens.erase r.token) := by
  have hres : (m.release id).hostReservations = m.hostReservations.erase id := by
    simp only [Manager.release, hr]
  have hold : ∀ {id' r'}, (m.release id).hostReservations.get? id' = some r' →
      m.hostReservations.get? id' = some r' ∧ id' ≠ id := by
    intro id' r' hr'
    rw [hres] at hr'
    refine ⟨get?_of_erase hr', ?_⟩
    rintro rfl
    simp at hr'
  have hvalues : (m.hostReservations.values.map kind).Perm
      (kind r :: (m.release id).hostReservations.values.map kind) := by
    rw [hres]
    exact (values_perm_erase hr).map kind
  refine ⟨?_, ?_, ?_, ?_, ?_, ?_, ?_⟩
  · intro id' r' hr'
    have hnext : (m.release id).nextReservation = m.nextReservation := by
      simp only [Manager.release, hr]
    exact hnext ▸ h.below id' r' (hold hr').1
  · intro id' r' hr'
    have hne : r'.token ≠ r.token := fun heq =>
      (hold hr').2 (h.sole id' id r' r (hold hr').1 hr heq)
    rw [get?_erase, if_neg hne]
    exact h.live id' r' (hold hr').1
  · intro token host hhost
    have hne : token ≠ r.token := by
      rintro rfl
      simp at hhost
    obtain ⟨id', r', hr', htoken⟩ := h.retained token host (get?_of_erase hhost)
    refine ⟨id', r', ?_, htoken⟩
    rw [hres, get?_erase, if_neg, hr']
    rintro rfl
    rw [hr] at hr'
    cases hr'
    exact hne htoken.symm
  · exact fun id₁ id₂ r₁ r₂ hr₁ hr₂ => h.sole id₁ id₂ r₁ r₂ (hold hr₁).1 (hold hr₂).1
  · exact fun id' r' hd hr' => h.conns id' r' hd (hold hr').1
  · have htokens := (values_perm_erase (h.live id r hr)).map HostToken.kind
    exact (htokens.symm.trans (h.perm.trans hvalues)).cons_inv
  · intro c hc
    rw [total_release hr (fun hd => h.conns id r hd hr) hc, h.totals c hc, c.due_perm hvalues,
      due_cons, Nat.add_sub_cancel_left]

def freed (tokens : Map Nat HostToken) (calls : List (Option Nat × Nat)) : Map Nat HostToken :=
  calls.foldl (fun tokens call => tokens.erase call.2) tokens

theorem freed_concat (calls : List (Option Nat × Nat)) (call : Option Nat × Nat) :
    freed tokens (calls ++ [call]) = (freed tokens calls).erase call.2 := by
  simp [freed]

/-- The release calls that reservations have made are those of the reservations that were
    adopted to begin with, each with its own token. -/
structure Calls (m m' : Manager) : Prop where
  reservations : ∀ id r, m'.hostReservations.get? id = some r →
    m.hostReservations.get? id = some r
  released : ∀ id token, (some id, token) ∈ m'.released → (some id, token) ∈ m.released ∨
    ∃ r, m.hostReservations.get? id = some r ∧ r.token = token
  raw : ∀ token, (none, token) ∈ m'.released → (none, token) ∈ m.released

/-- Nothing a handler or a callback does parts the books from the tokens. -/
theorem takes_spec {ok : Manager → Nat → Prop} (htakes : Takes ok m m')
    (h : Mirrors connOf m.toHostBooks (freed tokens m.released)) :
    Mirrors connOf m'.toHostBooks (freed tokens m'.released) ∧ m'.limits = m.limits ∧
      Calls m m' := by
  induction htakes with
  | refl => exact ⟨h, rfl, fun _ _ h => h, fun _ _ h => .inl h, fun _ h => h⟩
  | @tail m₁ m₂ _ hatom ih =>
    obtain ⟨hmirrors, hlimits, hcalls⟩ := ih
    cases hatom with
    | release id =>
      cases hr : m₁.hostReservations.get? id with
      | none => grind [release]
      | some r =>
        have hlog : (m₁.release id).released = m₁.released ++ [(some id, r.token)] := by
          simp only [release, hr]
        refine ⟨?_, ?_, ?_, ?_, ?_⟩
        · rw [hlog, freed_concat]
          exact hmirrors.release hr
        · rw [← hlimits]
          simp only [release, hr]
        · intro id' r' hr'
          have hold := (Shrinks.of_takes ((Takes.refl m₁).release id)).reservations id' r' hr'
          exact hcalls.reservations id' r' hold
        · intro id' token hmem
          rw [hlog, mem_append, mem_singleton] at hmem
          rcases hmem with hmem | heq
          · exact hcalls.released id' token hmem
          · cases heq
            exact .inr ⟨r, hcalls.reservations id r hr, rfl⟩
        · intro token hmem
          rw [hlog, mem_append, mem_singleton] at hmem
          rcases hmem with hmem | heq
          · exact hcalls.raw token hmem
          · cases heq
    | releaseStream | updateStream | sessions | unmap =>
      exact ⟨hmirrors, hlimits, hcalls.reservations, hcalls.released, hcalls.raw⟩

/-! ## Adoption -/

/-- `decodeWasmEvent` of an event with a payload, and the callbacks it will meet. -/
def payload (token : Nat) (app : App) : WtEvent → Option Event
  | .datagram conn sid data => some (.datagram conn sid data.length token app)
  | .streamData conn stream fin data => some (.streamData conn stream data.length fin token app)
  | _ => none

variable {e : Event} {token : Nat} {app : App} {ev : WtEvent}

/-- The manager charges a payload what Rust has reserved for it. -/
theorem payload_adopts
    (h : payload token app ev = some e) : e.hostToken = some token ∧
      ∃ conn stream length fin sid, ev.charge = some (conn, stream, accountedBytes length fin) ∧
        ∀ m : Manager, m.adopts e = m.adoptHostReservation conn stream token length fin sid ∧
          m.entered e = (m.adopts e).2 := by
  cases ev with
  | datagram conn sid data =>
    cases h
    refine ⟨rfl, conn, none, data.length, false, some (some sid), ?_, fun _ => ⟨rfl, rfl⟩⟩
    simp [WtEvent.charge, accountedBytes, Nat.max_comm]
  | streamData conn stream fin data =>
    cases h
    refine ⟨rfl, conn, some stream, data.length, fin, none, ?_, fun _ => ⟨rfl, rfl⟩⟩
    cases fin <;> cases data <;> simp [WtEvent.charge, accountedBytes]
  | _ => cases h

/-- A payload with a fresh token is adopted under it, or the token goes back. -/
theorem Mirrors.adopt (h : Mirrors connOf m.toHostBooks tokens) (hlog : m.released = [])
    {conn : Nat} {stream : Option Nat} (hfresh : tokens.get? token = none)
    (hconn : ∀ hd, stream = some hd → conn = connOf hd) (length : Nat) (fin : Bool)
    (sid : Option SessionId)
    (hm' : (m.adoptHostReservation conn stream token length fin sid).2 = m') :
    Mirrors connOf m'.toHostBooks
      (freed (tokens.insert token ⟨.queuedBytes conn stream (accountedBytes length fin)⟩)
        m'.released) := by
  subst hm'
  simp only [adoptHostReservation]
  split
  · simp only [releaseToken, hlog]
    show Mirrors connOf m.toHostBooks ((tokens.insert token _).erase token)
    rwa [erase_insert_of_get?_eq_none _ hfresh]
  · have hid : m.hostReservations.get? m.nextReservation = none := by
      by_contra hsome
      obtain ⟨r, hr⟩ := ne_none_iff_exists'.mp hsome
      exact absurd (h.below _ r hr) (lt_irrefl _)
    have htoken : ∀ {id r}, m.hostReservations.get? id = some r → r.token ≠ token := by
      rintro id r hr rfl
      rw [h.live id r hr] at hfresh
      cases hfresh
    have hvalues := values_insert_of_get?_eq_none
      (⟨conn, stream, token, accountedBytes length fin, sid⟩ : HostReservation) hid
    simp only [hlog]
    show Mirrors connOf _ (tokens.insert token _)
    refine ⟨?_, ?_, ?_, ?_, ?_, ?_, ?_⟩
    · intro id r hr
      rw [get?_insert] at hr
      split at hr
      · next heq => grind
      · exact Nat.lt_succ_of_lt (h.below id r hr)
    · intro id r hr
      rw [get?_insert] at hr
      split at hr
      · cases hr
        simp [kind]
      · rw [get?_insert, if_neg (htoken hr)]
        exact h.live id r hr
    · intro token' host hhost
      rw [get?_insert] at hhost
      split at hhost
      · next heq => exact ⟨_, _, by rw [get?_insert, if_pos rfl], heq.symm⟩
      · obtain ⟨id, r, hr, htok⟩ := h.retained token' host hhost
        refine ⟨id, r, ?_, htok⟩
        rw [get?_insert, if_neg (ne_of_lt (h.below id r hr))]
        exact hr
    · intro id id' r r' hr hr' htok
      rw [get?_insert] at hr hr'
      split at hr <;> split at hr'
      · next heq heq' => exact heq.trans heq'.symm
      · cases hr
        exact absurd htok.symm (htoken hr')
      · cases hr'
        exact absurd htok (htoken hr)
      · exact h.sole id id' r r' hr hr' htok
    · intro id r hd hr hstream
      rw [get?_insert] at hr
      split at hr
      · cases hr
        exact hconn hd hstream
      · exact h.conns id r hd hr hstream
    · rw [Map.values_insert_of_get?_eq_none _ hfresh, hvalues]
      exact h.perm.cons _
    · intro c hc
      rw [hvalues, map_cons, due_cons, ← h.totals c hc]
      cases c with
      | queuedBytesGlobal => exact add_comm _ _
      | queuedBytesPerSession conn' => grind [total, kind, charge, Map.count_insert]
      | queuedBytesPerStream conn' hd =>
        have hown := hc conn' hd rfl
        cases stream with
        | none => simp [total, kind, charge]
        | some hd' => grind [total, kind, charge, Map.count_insert]
      | _ => simp [total, kind, charge]

theorem deliver_threw {retains : Bool} {cb : Callback} (h : (m.deliver id retains cb).2 = true) :
    (m.deliver id retains cb).1.hostReservations.get? id = none := by
  simp only [deliver] at h ⊢
  rw [h, Bool.not_true, Bool.and_false]
  exact release_gone _ id

theorem reservations_none_of_takes (htakes : Takes Unregistered m m')
    (h : m.hostReservations.get? id = none) : m'.hostReservations.get? id = none :=
  (Shrinks.of_takes htakes).reservations_none h

/-- A handler that throws has let go of the payload. -/
theorem handle_threw (hthrew : (m.handle e).2 = true) (hid : (m.adopts e).1 = some id) :
    (m.handle e).1.hostReservations.get? id = none := by
  cases e with
  | datagram conn sid length token app =>
    simp only [handle, onDatagram, adopts] at hthrew hid ⊢
    cases hadopt : m.adoptHostReservation conn none token length false (some (some sid)) with
    | mk adopted m' =>
      rw [hadopt] at hid
      cases hid
      simp only [hadopt] at hthrew ⊢
      cases hs : m'.sessions.get? (conn, some sid) with
      | none => simp [hs] at hthrew
      | some s =>
        cases hcb : s.datagramCb with
        | none =>
          simp only [hs, hcb] at hthrew ⊢
          split at hthrew
          · next hfull =>
            rw [if_pos hfull]
            exact reservations_none_of_takes ((Takes.refl _).thenUnless _ fun _ h =>
              h.closeSessionForInboundPressure conn sid) (release_gone m' id)
          · cases hthrew
        | some retains =>
          simp only [hs, hcb] at hthrew ⊢
          exact deliver_threw hthrew
  | streamData conn hd length fin token app =>
    simp only [handle, onStreamData, adopts] at hthrew hid ⊢
    cases hadopt : m.adoptHostReservation conn (some hd) token length fin none with
    | mk adopted m' =>
      rw [hadopt] at hid
      cases hid
      simp only [hadopt] at hthrew ⊢
      cases hws : m'.streams.get? hd with
      | none => simp [hws] at hthrew
      | some ws =>
        cases hcb : ws.dataCb with
        | none =>
          simp only [hws, pushData, hcb] at hthrew ⊢
          split at hthrew
          · next hfull =>
            rw [if_pos hfull]
            exact reservations_none_of_takes ((Takes.refl _).thenUnless _ fun _ h =>
              h.failInboundPressure hd _) (release_gone m' id)
          · cases hthrew
        | some retains =>
          simp only [hws, pushData, hcb] at hthrew ⊢
          split
          · exact reservations_none_of_takes ((Takes.refl _).endRecv hd) (deliver_threw hthrew)
          · exact deliver_threw hthrew
  | _ => cases hid

/-! ## Calls -/

/-- The release calls of a manager that starts with none: each reservation's with its own
    token, and raw ones of the payload at hand. -/
structure OwnCalls (b : HostBooks) (polled : Option Nat) (m' : Manager) : Prop where
  reserved : ∀ id token, (some id, token) ∈ m'.released →
    (∃ r, b.hostReservations.get? id = some r ∧ r.token = token) ∨
      id = b.nextReservation ∧ polled = some token
  raw : ∀ token, (none, token) ∈ m'.released → polled = some token

theorem Calls.own (h : Calls m m') (hlog : m.released = []) :
    OwnCalls m.toHostBooks none m' := by
  constructor
  · intro id token hmem
    rcases h.released id token hmem with hmem | hown
    · rw [hlog] at hmem
      cases hmem
    · exact .inl hown
  · intro token hmem
    have hmem := h.raw token hmem
    rw [hlog] at hmem
    cases hmem

/-- A payload with a fresh token is dispatched. -/
theorem dispatch_payload (h : Mirrors connOf m.toHostBooks tokens) (hlog : m.released = [])
    {conn bytes : Nat} {stream : Option Nat}
    (he : payload token app ev = some e) (hcharge : ev.charge = some (conn, stream, bytes))
    (hfresh : tokens.get? token = none) (hconn : ∀ hd, stream = some hd → conn = connOf hd) :
    Mirrors connOf (m.dispatch e).toHostBooks
        (freed (tokens.insert token ⟨.queuedBytes conn stream bytes⟩) (m.dispatch e).released) ∧
      (m.dispatch e).limits = m.limits ∧ OwnCalls m.toHostBooks (some token) (m.dispatch e) := by
  obtain ⟨htoken, conn', stream', length, fin, sid, hcharge', hadopt⟩ := payload_adopts he
  rw [hcharge] at hcharge'
  cases hcharge'
  obtain ⟨hadopts, hentered⟩ := hadopt m
  rw [hadopts] at hentered
  have hbooks := h.adopt hlog hfresh hconn length fin sid hentered.symm
  have hlimits : (m.entered e).limits = m.limits := by
    rw [hentered]
    simp only [adoptHostReservation]
    split <;> rfl
  have hcalls : ∀ call ∈ (m.entered e).released, call = (none, token) := by
    rw [hentered]
    simp only [adoptHostReservation]
    split <;> simp [releaseToken, hlog]
  have hadded : ∀ id r, (m.entered e).hostReservations.get? id = some r →
      m.hostReservations.get? id = some r ∨
        (m.adopts e).1 = some id ∧ id = m.nextReservation ∧ r.token = token := by
    intro id r hr
    rw [hentered] at hr
    rw [hadopts]
    exact adopt_reservations hr
  have htakes : Takes (fun _ _ => True) (m.entered e) (m.handle e).1 := by
    refine handle_takes ?_ ?_
    · rintro _ _ _ rfl
      cases htoken
    · rintro _ _ rfl
      cases htoken
  obtain ⟨hmirrors, hsame, hcalls'⟩ := takes_spec htakes hbooks
  have hown : OwnCalls m.toHostBooks (some token) (m.handle e).1 := by
    constructor
    · intro id t hmem
      rcases hcalls'.released id t hmem with hmem | ⟨r, hr, rfl⟩
      · cases hcalls _ hmem
      · grind
    · intro t hmem
      cases hcalls _ (hcalls'.raw t hmem)
      rfl
  simp only [dispatch, htoken]
  cases hthrew : (m.handle e).2 with
  | false => exact ⟨hmirrors, hsame.trans hlimits, hown⟩
  | true =>
    -- the raw release finds the token already given back
    have hgone : (freed (tokens.insert token ⟨.queuedBytes conn stream (accountedBytes length fin)⟩)
        (m.handle e).1.released).get? token = none := by
      by_contra hlive
      obtain ⟨host, hhost⟩ := ne_none_iff_exists'.mp hlive
      obtain ⟨id, r, hr, rfl⟩ := hmirrors.retained token host hhost
      rcases hadded id r (hcalls'.reservations id r hr) with hold | ⟨hid, -⟩
      · rw [h.live id r hold] at hfresh
        cases hfresh
      · rw [handle_threw hthrew hid] at hr
        cases hr
    refine ⟨?_, hsame.trans hlimits, ?_, ?_⟩
    · simp only [releaseToken, freed_concat]
      rwa [erase_of_get?_eq_none hgone]
    · intro id t hmem
      simp only [releaseToken, mem_append] at hmem
      exact hown.reserved id t (hmem.resolve_right (by simp))
    · intro t hmem
      simp only [releaseToken, mem_append, mem_singleton] at hmem
      rcases hmem with hmem | ⟨-, rfl⟩
      · exact hown.raw t hmem
      · rfl

/-- A call that dispatches no payload; the payloads that the pump of a call dispatches
    come before it. -/
def Payloadless : Call → Prop
  | .event ev => ev.hostToken = none
  | .openStream _ _ _ _ dispatched | .connectClient _ dispatched => dispatched = []
  | .act _ => True

theorem perform_payloadless (h : Mirrors connOf m.toHostBooks tokens) (hlog : m.released = [])
    {c : Call} (hc : Payloadless c) :
    Mirrors connOf (m.perform c).toHostBooks (freed tokens (m.perform c).released) ∧
      (m.perform c).limits = m.limits ∧ OwnCalls m.toHostBooks none (m.perform c) := by
  -- what the call adds concerns neither the books nor the tokens
  obtain ⟨m₀, hbooks, hreleased, hlimits, htakes⟩ : ∃ m₀ : Manager,
      m₀.toHostBooks = m.toHostBooks ∧ m₀.released = [] ∧ m₀.limits = m.limits ∧
        Takes (fun _ _ => True) m₀ (m.perform c) := by
    have hensure : ∀ conn sid, (m.ensureSession conn sid).toHostBooks = m.toHostBooks ∧
        (m.ensureSession conn sid).released = [] ∧
          (m.ensureSession conn sid).limits = m.limits := by
      intro conn sid
      unfold ensureSession
      split <;> exact ⟨rfl, hlog, rfl⟩
    cases c with
    | event ev =>
      show ∃ m₀ : Manager, _ ∧ _ ∧ _ ∧ Takes _ m₀ (m.dispatch ev)
      rw [dispatch_of_no_payload m hc]
      cases ev with
      | established conn sid =>
        simp only [handle, onEstablished]
        split
        · refine ⟨_, ?_, ?_, ?_, .refl _⟩ <;> first | rfl | exact hlog
        · exact ⟨_, (hensure _ _).1, (hensure _ _).2.1, (hensure _ _).2.2, .refl _⟩
      | sessionClosed conn sid apps =>
        exact ⟨m, rfl, hlog, rfl, (m.closing_takes conn sid).closeLoop
          (fun h _ => h.closeSessionStream fun _ => trivial) _⟩
      | streamOpened conn sid hd bidi =>
        obtain ⟨h₁, h₂, h₃⟩ := hensure conn (some sid)
        exact ⟨m.entered (.streamOpened conn sid hd bidi), h₁, h₂, h₃,
          handle_takes (by simp) (by simp)⟩
      | datagram => cases hc
      | streamData => cases hc
      | closed conn apps => exact ⟨m, rfl, hlog, rfl, (Takes.refl m).onClosed conn apps⟩
      | streamReset hd cb =>
        exact ⟨m.entered (.streamReset hd cb), rfl, hlog, rfl, handle_takes (by simp) (by simp)⟩
      | streamStopped hd cb =>
        exact ⟨m.entered (.streamStopped hd cb), rfl, hlog, rfl,
          handle_takes (by simp) (by simp)⟩
    | openStream conn sid hd bidi dispatched =>
      cases hc
      refine ⟨_, ?_, ?_, ?_, .refl _⟩ <;> first | rfl | exact hlog
    | connectClient conn dispatched =>
      cases hc
      exact ⟨_, (hensure _ _).1, (hensure _ _).2.1, (hensure _ _).2.2, .refl _⟩
    | act a => exact ⟨m, rfl, hlog, rfl, (Takes.refl m).act a⟩
  have hstart : Mirrors connOf m₀.toHostBooks (freed tokens m₀.released) := by
    rw [hbooks, hreleased]
    exact h
  obtain ⟨hmirrors, hsame, hcalls⟩ := takes_spec htakes hstart
  exact ⟨hmirrors, hsame.trans hlimits, hbooks ▸ hcalls.own hreleased⟩

end Manager

/-! ## Both sides -/

open Manager

/-- The manager and the governor of its endpoint, until the endpoint is freed, with the
    tokens that were issued and those that came back. -/
structure Host where
  m : Manager
  s : Ledger
  issued : List Nat := []
  returned : List Nat := []

namespace Host

inductive Action
  | rust (op : GovernorOp)
  | poll (ev : WtEvent) (app : App)
  | call (c : Call)
  | change

/-- `wt_release_host_reservation`; a token that is not live is ignored. -/
def giveBack (x : Host) (token : Nat) : Host :=
  { x with
    s := ⟨(x.s.gov.releaseHostToken token).2, x.s.held⟩
    returned := if (x.s.gov.hostTokens.get? token).isSome then x.returned ++ [token]
      else x.returned }

def settle (x : Host) : Host := (x.m.released.map Prod.snd).foldl giveBack x

/-- `wt_poll_event` hands out an event and issues the token of its payload. -/
def Polls (connOf : Nat → Nat) (s : Ledger) (ev : WtEvent) (token : Nat) (s' : Ledger) : Prop :=
  ∃ conn stream bytes, ev.charge = some (conn, stream, bytes) ∧
    (∀ hd, stream = some hd → conn = connOf hd) ∧ .queuedBytes conn stream bytes ∈ s.held ∧
    (s.gov.transferToHost (.queuedBytes conn stream bytes)).1 = .ok token ∧
    s' = ⟨(s.gov.transferToHost (.queuedBytes conn stream bytes)).2,
      s.held.erase (.queuedBytes conn stream bytes)⟩

/-- Rust works on its own, the pump dispatches an event with a payload, or the manager is
    called.  Outside the pump a release pumps: the events are dispatched in the middle of
    the call, so that its changes are steps of their own.  `connOf` is the connection a
    stream handle was given out for. -/
inductive Step (connOf : Nat → Nat) (x : Host) : Action → Host → Prop
  | rust {op : GovernorOp} {s' : Ledger} (hop : x.s.Step op s')
      (htokens : s'.gov.hostTokens = x.s.gov.hostTokens) :
      Step connOf x (.rust op) { x with m := { x.m with released := [] }, s := s' }
  | poll {ev : WtEvent} {e : Event} {token : Nat} {s' : Ledger} {app : App}
      (hpolls : Polls connOf x.s ev token s') (he : payload token app ev = some e) :
      Step connOf x (.poll ev app) (settle
        ⟨{ x.m with released := [] }.dispatch e, s', x.issued ++ [token], x.returned⟩)
  | call {c : Call} (hc : Payloadless c) :
      Step connOf x (.call c) (settle { x with m := { x.m with released := [] }.perform c })
  | change {m' : Manager} (hatom : Atom (fun _ _ => True) { x.m with released := [] } m') :
      Step connOf x .change (settle { x with m := m' })

/-- Every token has come back as often as it was issued, but for the time it is live. -/
def Balanced (x : Host) : Prop :=
  ∀ token, x.issued.count token =
    x.returned.count token + if (x.s.gov.hostTokens.get? token).isSome then 1 else 0

structure Agrees (connOf : Nat → Nat) (limits : WasmLimits) (mlimits : ManagerLimits) (x : Host) :
    Prop where
  mirrors : Mirrors connOf x.m.toHostBooks x.s.gov.hostTokens
  exact : x.s.Exact limits
  limits : x.m.limits = mlimits
  balanced : x.Balanced

variable {connOf : Nat → Nat} {limits : WasmLimits} {mlimits : ManagerLimits} {x x' : Host}

theorem settle_agrees (hmirrors : Mirrors connOf x.m.toHostBooks
      (freed x.s.gov.hostTokens x.m.released))
    (hexact : x.s.Exact limits) (hlimits : x.m.limits = mlimits) (hbalanced : x.Balanced) :
    Agrees connOf limits mlimits x.settle ∧ x.settle.m = x.m ∧ x.settle.issued = x.issued := by
  unfold settle
  generalize hcalls : x.m.released = calls at hmirrors
  clear hcalls
  induction calls generalizing x with
  | nil => exact ⟨⟨hmirrors, hexact, hlimits, hbalanced⟩, rfl, rfl⟩
  | cons call calls ih =>
    have herase : (x.s.gov.releaseHostToken call.2).2.hostTokens =
        x.s.gov.hostTokens.erase call.2 := by
      simp only [releaseHostToken, releaseHostTokenWithContext]
      cases hget : x.s.gov.hostTokens.get? call.2 with
      | none => exact (erase_of_get?_eq_none hget).symm
      | some host => exact hostTokens_releaseKind _ _
    refine ih (hexact.step (.releaseHostToken x.s call.2)) hlimits ?_ ?_
    · intro token
      have hbefore := hbalanced token
      simp only [giveBack]
      by_cases heq : token = call.2
      · subst heq
        split <;> simp_all
      · split <;> simp_all [Ne.symm heq]
    · simp only [giveBack, herase]
      exact hmirrors

theorem Polls.spec {token : Nat} {s s' : Ledger} (h : Polls connOf s ev token s')
    (hexact : s.Exact limits) : ∃ conn stream bytes, ev.charge = some (conn, stream, bytes) ∧
      (∀ hd, stream = some hd → conn = connOf hd) ∧ s.gov.hostTokens.get? token = none ∧
      s'.Exact limits ∧
      s'.gov.hostTokens = s.gov.hostTokens.insert token ⟨.queuedBytes conn stream bytes⟩ := by
  obtain ⟨conn, stream, bytes, hcharge, hconn, hheld, hok, rfl⟩ := h
  have hstep := hexact.step (.transferToHost s _ hheld)
  rcases s.gov.transferToHost_cases (.queuedBytes conn stream bytes) with
    ⟨token', next, hfresh, htransfer⟩ | ⟨e, htransfer⟩
  · grind
  · rw [htransfer] at hok
    cases hok

/-- One step keeps the books in agreement and makes no release call but for the payload
    that has the token. -/
theorem Agrees.step {a : Action} (h : Agrees connOf limits mlimits x) (hstep : Step connOf x a x') :
    Agrees connOf limits mlimits x' ∧ ∃ polled : Option Nat, x'.issued = x.issued ++ polled.toList ∧
      (∀ token, polled = some token → x.s.gov.hostTokens.get? token = none) ∧
      OwnCalls x.m.toHostBooks polled x'.m := by
  cases hstep with
  | rust hop htokens =>
    refine ⟨⟨htokens ▸ h.mirrors, h.exact.step hop, h.limits, ?_⟩, none, by simp, by simp, ?_, ?_⟩
    · intro token
      simpa only [htokens] using h.balanced token
    · simp
    · simp
  | @poll ev e token s' cb hpolls he =>
    obtain ⟨conn, stream, bytes, hcharge, hconn, hfresh, hexact, htokens⟩ := hpolls.spec h.exact
    obtain ⟨hmirrors, hlimits, hown⟩ := dispatch_payload (m := { x.m with released := [] })
      h.mirrors rfl he hcharge hfresh hconn
    obtain ⟨hagrees, hm, hissued⟩ := settle_agrees
      (x := ⟨{ x.m with released := [] }.dispatch e, s', x.issued ++ [token], x.returned⟩)
      (htokens ▸ hmirrors) hexact (hlimits.trans h.limits) (by
        intro token'
        have hbefore := h.balanced token'
        by_cases heq : token' = token
        · subst heq
          simp_all
        · simp_all [Ne.symm heq])
    refine ⟨hagrees, some token, hissued, ?_, hm ▸ hown⟩
    rintro _ ⟨⟩
    exact hfresh
  | @call c hc =>
    obtain ⟨hmirrors, hlimits, hown⟩ :=
      perform_payloadless (m := { x.m with released := [] }) h.mirrors rfl hc
    obtain ⟨hagrees, hm, hissued⟩ := settle_agrees (x := { x with m := _ }) hmirrors h.exact
      (hlimits.trans h.limits) h.balanced
    exact ⟨hagrees, none, hissued.trans (append_nil _).symm, by simp, hm ▸ hown⟩
  | @change m' hatom =>
    have hstart : Mirrors connOf x.m.toHostBooks (freed x.s.gov.hostTokens []) := h.mirrors
    obtain ⟨hmirrors, hlimits, hcalls⟩ := takes_spec (.single hatom) hstart
    obtain ⟨hagrees, hm, hissued⟩ := settle_agrees (x := { x with m := m' }) hmirrors h.exact
      (hlimits.trans h.limits) h.balanced
    exact ⟨hagrees, none, hissued.trans (append_nil _).symm, by simp, hm ▸ hcalls.own rfl⟩

theorem agrees_run {gov : GovernorInner} (hnew : GovernorInner.new limits = .ok gov)
    {as : List Action} (hrun : Run (Step connOf) ⟨{ limits := mlimits }, ⟨gov, []⟩, [], []⟩ as x) :
    Agrees connOf limits mlimits x := by
  have htokens : gov.hostTokens = ∅ := by
    obtain ⟨-, rfl⟩ := eq_of_new hnew
    rfl
  refine hrun.invariant
    (fun _ _ _ h hstep => (h.step hstep).1)
    ⟨⟨by simp, by simp, by simp [htokens], by simp, by simp, ?_, ?_⟩, Ledger.exact_new hnew, rfl,
      fun token => by simp [htokens]⟩
  · rw [htokens]
    exact .nil
  · intro c _
    cases c <;> rfl

/-- In every state that any sequence of steps reaches: a token has come back as often as
    it was issued, but for the time it is live; it is live exactly when one adopted
    reservation has it; and whatever the callbacks do, the release calls of the next step
    are each reservation's for its own token, and raw ones for the token just issued. -/
theorem tokens_linear {gov : GovernorInner} (hnew : GovernorInner.new limits = .ok gov)
    {as : List Action} (hrun : Run (Step connOf) ⟨{ limits := mlimits }, ⟨gov, []⟩, [], []⟩ as x) :
    x.Balanced ∧
    (∀ token, (x.s.gov.hostTokens.get? token).isSome ↔
      ∃! id, ∃ r, x.m.hostReservations.get? id = some r ∧ r.token = token) ∧
    ∀ a x', Step connOf x a x' → ∃ polled : Option Nat, x'.issued = x.issued ++ polled.toList ∧
      (∀ token, polled = some token → x.s.gov.hostTokens.get? token = none) ∧
      OwnCalls x.m.toHostBooks polled x'.m := by
  have h := agrees_run hnew hrun
  refine ⟨h.balanced, fun token => ⟨fun hlive => ?_, ?_⟩, fun a x' hstep => (h.step hstep).2⟩
  · obtain ⟨host, hhost⟩ := isSome_iff_exists.mp hlive
    obtain ⟨id, r, hr, htoken⟩ := h.mirrors.retained token host hhost
    refine ⟨id, ⟨r, hr, htoken⟩, ?_⟩
    rintro id' ⟨r', hr', htoken'⟩
    exact h.mirrors.sole id' id r' r hr' hr (htoken'.trans htoken.symm)
  · rintro ⟨id, ⟨r, hr, rfl⟩, -⟩
    rw [h.mirrors.live id r hr]
    rfl

/-- A callback that releases its payload and throws: the token is given back by the
    reservation and once more by the `catch` block, and comes back once. -/
theorem tokens_linear_release_and_throw :
    ∃ gov as x, GovernorInner.new {} = .ok gov ∧
      Run (Step fun _ => 0) ⟨{ limits := {} }, ⟨gov, []⟩, [], []⟩ as x ∧
      x.m.released = [(some 0, 1), (none, 1)] ∧ x.issued = [1] ∧ x.returned = [1] ∧
      x.Balanced := by
  have hnew : new {} = .ok { limits := {} } := rfl
  have hrun : Run (Step fun _ => 0) ⟨{ limits := {} }, ⟨{ limits := {} }, []⟩, [], []⟩ _ _ :=
    (((Run.single (.call (c := .event (.established 1 4)) rfl)).snoc
      (.call (c := .act (.onDatagram 1 4 false)) trivial)).snoc
      (.rust (.reserveEventBytes _ 1 none 3) rfl)).snoc
      (.poll
        ⟨1, none, 3, rfl, by simp, by decide +kernel, by decide +kernel, rfl⟩
        (show payload 1 { subscriber := ⟨[.release 0], true⟩ } (.datagram 1 4 [7, 8, 9]) = _
          from rfl))
  exact ⟨_, _, _, hnew, hrun, by decide +kernel, by decide +kernel, by decide +kernel,
    (tokens_linear hnew hrun).1⟩

theorem Agrees.total_le (h : Agrees connOf limits mlimits x) {c : Counter} (hc : Ours connOf c) :
    total x.m.toHostBooks c ≤ x.s.gov.value c := by
  rw [h.mirrors.totals c hc, h.exact.value_eq c trivial, Ledger.outstanding, due_append,
    c.due_perm h.mirrors.perm]
  exact Nat.le_add_left _ _

def managerLimits (limits : WasmLimits) : ManagerLimits where
  maxStreamsPerSessionBidi := limits.maxStreamsPerSessionBidi.toNat
  maxStreamsPerSessionUni := limits.maxStreamsPerSessionUni.toNat
  maxQueuedBytesGlobal := limits.maxQueuedBytesGlobal.toNat
  maxQueuedBytesPerSession := limits.maxQueuedBytesPerSession.toNat
  maxQueuedBytesPerStream := limits.maxQueuedBytesPerStream.toNat

/-- With the limits of the governor, the manager adopts what the governor has admitted. -/
theorem Agrees.adopts (h : Agrees connOf limits (managerLimits limits) x) {e : Event}
    {token : Nat} {s' : Ledger} {app : App} (hpolls : Polls connOf x.s ev token s')
    (he : payload token app ev = some e) : (x.m.adopts e).1 = some x.m.nextReservation := by
  obtain ⟨conn, stream, bytes, hcharge, hconn, hfresh, hexact, htokens⟩ := hpolls.spec h.exact
  obtain ⟨-, conn', stream', length, fin, sid, hcharge', hadopts⟩ := payload_adopts he
  rw [hcharge] at hcharge'
  cases hcharge'
  -- the governor holds the new token beside those of the adopted reservations
  have hroom : ∀ c : Counter, Ours connOf c →
      total x.m.toHostBooks c + c.charge (.queuedBytes conn stream (accountedBytes length fin)) ≤
        c.limit limits := by
    intro c hc
    have hle := hexact.le_limit c trivial
    rw [hexact.value_eq c trivial, Ledger.outstanding, htokens,
      values_insert_of_get?_eq_none _ hfresh, due_append, map_cons,
      due_cons, c.due_perm h.mirrors.perm, ← h.mirrors.totals c hc] at hle
    dsimp only at hle
    omega
  have hglobal := hroom .queuedBytesGlobal (by rintro _ _ ⟨⟩)
  have hsession := hroom (.queuedBytesPerSession conn) (by rintro _ _ ⟨⟩)
  simp only [charge] at hglobal hsession
  rw [(hadopts x.m).1]
  simp only [adoptHostReservation]
  rw [if_neg]
  rw [h.limits]
  rintro (hfull | hfull | ⟨hd, hmem, hfull⟩)
  · exact absurd hfull (not_lt.mpr hglobal)
  · exact absurd hfull (not_lt.mpr hsession)
  · cases hmem
    have hstream := hroom (.queuedBytesPerStream conn hd) (by rintro _ _ ⟨⟩; exact hconn hd rfl)
    simp only [total, charge] at hstream
    exact absurd hfull (not_lt.mpr hstream)

/-- In every state that any sequence of steps reaches: the governor holds for the token of
    an adopted payload what the manager charges for it, each total of the manager is within
    the governor's, and with equal limits no polled payload is refused. -/
theorem accounts_never_over_reject {gov : GovernorInner}
    (hnew : GovernorInner.new limits = .ok gov) {as : List Action}
    (hrun : Run (Step connOf) ⟨{ limits := mlimits }, ⟨gov, []⟩, [], []⟩ as x) :
    (∀ id r, x.m.hostReservations.get? id = some r →
      x.s.gov.hostTokens.get? r.token = some ⟨.queuedBytes r.conn r.stream r.bytes⟩) ∧
    x.m.hostQueuedBytesGlobal ≤ x.s.gov.value .queuedBytesGlobal ∧
    (∀ conn, x.m.hostQueuedBytesPerSession.count conn ≤
      x.s.gov.value (.queuedBytesPerSession conn)) ∧
    (∀ hd, x.m.hostQueuedBytesPerStream.count hd ≤
      x.s.gov.value (.queuedBytesPerStream (connOf hd) hd)) ∧
    (mlimits = managerLimits limits → ∀ ev token s' app e, Polls connOf x.s ev token s' →
      payload token app ev = some e → (x.m.adopts e).1 = some x.m.nextReservation) := by
  have h := agrees_run hnew hrun
  refine ⟨h.mirrors.live, h.total_le (c := .queuedBytesGlobal) (by rintro _ _ ⟨⟩), fun conn =>
    h.total_le (c := .queuedBytesPerSession conn) (by rintro _ _ ⟨⟩), fun hd =>
    h.total_le (c := .queuedBytesPerStream (connOf hd) hd) (by rintro _ _ ⟨⟩; rfl), ?_⟩
  rintro rfl ev token s' app e hpolls he
  exact h.adopts hpolls he

/-- A datagram of three bytes waits in its session. -/
theorem accounts_never_over_reject_queued :
    ∃ gov as x, GovernorInner.new {} = .ok gov ∧
      Run (Step fun _ => 0) ⟨{ limits := managerLimits {} }, ⟨gov, []⟩, [], []⟩ as x ∧
      x.m.hostQueuedBytesGlobal = 3 ∧
      x.m.hostQueuedBytesGlobal ≤ x.s.gov.value .queuedBytesGlobal ∧
      x.s.gov.hostTokens.get? 1 = some ⟨.queuedBytes 1 none 3⟩ := by
  have hnew : new {} = .ok { limits := {} } := rfl
  have hrun : Run (Step fun _ => 0) ⟨{ limits := managerLimits {} }, ⟨{ limits := {} }, []⟩, [], []⟩
      _ _ :=
    ((Run.single (.call (c := .event (.established 1 4)) rfl)).snoc
      (.rust (.reserveEventBytes _ 1 none 3) rfl)).snoc
      (.poll
        ⟨1, none, 3, rfl, by simp, by decide +kernel, by decide +kernel, rfl⟩
        (show payload 1 {} (.datagram 1 4 [7, 8, 9]) = _ from rfl))
  obtain ⟨hcharge, hglobal, -⟩ := accounts_never_over_reject hnew hrun
  exact ⟨_, _, _, hnew, hrun, by decide +kernel, hglobal,
    hcharge 0 ⟨1, none, 1, 3, some (some 4)⟩ (by decide +kernel)⟩

end Host

end WebTransportBun.Facade
