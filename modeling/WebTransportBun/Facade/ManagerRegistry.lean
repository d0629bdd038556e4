/-
  WebTransportBun.Facade.ManagerRegistry

  The registries of the manager against what the endpoint told it: which streams were
  opened for which session, and which sessions and connections were closed.

  A stream leaves `streams` and `streamSessionIds` together, except in the loop of
  `onSessionClosed`: it finds its handles by session id alone, and session ids repeat
  across connections, so it also unmaps the streams of other connections.  And a call that
  opens a stream or a session registers the object behind the events that its own pump
  dispatched, when the session may be gone.  An `onCallbackError` hook that throws ends the
  loops over the streams of a closed session or connection before the rest is closed.
-/

import WebTransportBun.Facade.Manager

namespace WebTransportBun.Facade.Manager

open Library Relation List Option Manager Map

/-! ## What the manager takes away -/

/-- `m'` is `m` with entries taken out; a stream that stays keeps its connection and its
    session. -/
structure Shrinks (m m' : Manager) : Prop where
  streams : ∀ hd ws', m'.streams.get? hd = some ws' →
    m'.streamSessionIds.get? hd = m.streamSessionIds.get? hd ∧
      ∃ ws, m.streams.get? hd = some ws ∧ ws'.conn = ws.conn
  ids : ∀ hd sid, m'.streamSessionIds.get? hd = some sid → m.streamSessionIds.get? hd = some sid
  reservations : ∀ id r, m'.hostReservations.get? id = some r →
    m.hostReservations.get? id = some r
  sessions : ∀ key, m'.sessions.contains key = true → m.sessions.contains key = true

/-- The single changes that handlers and callbacks are made of; `ok` says of which
    handles the loop of `onSessionClosed` drops the session id. -/
inductive Atom (ok : Manager → Nat → Prop) (m : Manager) : Manager → Prop
  | release (id : Nat) : Atom ok m (m.release id)
  | releaseStream (hd : Nat) : Atom ok m (m.releaseStream hd)
  | updateStream (hd : Nat) {f : WasmStream → WasmStream} (hf : ∀ ws, (f ws).conn = ws.conn) :
      Atom ok m (m.updateStream hd f)
  | sessions {sessions : Map (Nat × SessionId) WasmSession}
      (h : ∀ key, sessions.contains key = true → m.sessions.contains key = true) :
      Atom ok m { m with sessions }
  | unmap (hd : Nat) (h : ok m hd) :
      Atom ok m { m with streamSessionIds := m.streamSessionIds.erase hd }

def Takes (ok : Manager → Nat → Prop) : Manager → Manager → Prop := ReflTransGen (Atom ok)

def Unregistered (m : Manager) (hd : Nat) : Prop := m.streams.get? hd = none

namespace Shrinks

variable {m m' m'' : Manager}

theorem refl (m : Manager) : Shrinks m m :=
  ⟨fun _ ws h => ⟨rfl, ws, h, rfl⟩, fun _ _ h => h, fun _ _ h => h, fun _ h => h⟩

theorem trans (h : Shrinks m m') (h' : Shrinks m' m'') : Shrinks m m'' where
  streams hd ws'' hws'' := by
    obtain ⟨hid', ws', hws', hconn'⟩ := h'.streams hd ws'' hws''
    obtain ⟨hid, ws, hws, hconn⟩ := h.streams hd ws' hws'
    exact ⟨hid'.trans hid, ws, hws, hconn'.trans hconn⟩
  ids hd sid hsid := h.ids hd sid (h'.ids hd sid hsid)
  reservations id r hr := h.reservations id r (h'.reservations id r hr)
  sessions key hkey := h.sessions key (h'.sessions key hkey)

variable {hd : Nat}

theorem streams_none (h : Shrinks m m') (hnone : m.streams.get? hd = none) :
    m'.streams.get? hd = none := by
  by_contra hsome
  obtain ⟨ws', hws'⟩ := ne_none_iff_exists'.mp hsome
  obtain ⟨-, ws, hws, -⟩ := h.streams hd ws' hws'
  rw [hnone] at hws
  cases hws

theorem reservations_none {id : Nat} (h : Shrinks m m')
    (hnone : m.hostReservations.get? id = none) : m'.hostReservations.get? id = none := by
  by_contra hsome
  obtain ⟨r, hr⟩ := ne_none_iff_exists'.mp hsome
  rw [h.reservations id r hr] at hnone
  cases hnone

variable {m' : Manager}

theorem atom (h : Atom Unregistered m m') : Shrinks m m' := by
  cases h with
  | release id =>
    unfold release
    split
    · exact refl m
    · exact { refl m with reservations := fun _ _ hr => get?_of_erase hr }
  | releaseStream hd =>
    refine { refl m with streams := fun hd' ws h => ?_, ids := fun _ _ h => get?_of_erase h }
    have hne : hd' ≠ hd := by
      rintro rfl
      simp [releaseStream] at h
    refine ⟨?_, ws, get?_of_erase h, rfl⟩
    simp [releaseStream, hne]
  | updateStream hd hf =>
    refine { refl m with streams := fun hd' ws' h => ⟨rfl, ?_⟩ }
    simp only [updateStream, get?_modify] at h
    split at h
    · obtain ⟨ws, hws, rfl⟩ := map_eq_some_iff.mp h
      exact ⟨ws, hws, hf ws⟩
    · exact ⟨ws', h, rfl⟩
  | sessions hss => exact { refl m with sessions := hss }
  | unmap hd hnone =>
    refine { refl m with streams := fun hd' ws h => ⟨?_, ws, h, rfl⟩
                         ids := fun _ _ h => get?_of_erase h }
    have hne : hd' ≠ hd := by grind [Unregistered]
    simp [hne]

theorem of_takes (h : Takes Unregistered m m') : Shrinks m m' := by
  induction h with
  | refl => exact refl m
  | tail _ hatom ih => exact ih.trans (atom hatom)

end Shrinks

namespace Takes
variable {ok : Manager → Nat → Prop} {m₀ m : Manager}

@[grind ←] theorem refl (m : Manager) : Takes ok m m := ReflTransGen.refl

section

variable (h : Takes ok m₀ m)

include h

@[grind ←] theorem release (id : Nat) : Takes ok m₀ (m.release id) := h.tail (.release id)

@[grind ←] theorem releaseStream (hd : Nat) : Takes ok m₀ (m.releaseStream hd) :=
  h.tail (.releaseStream hd)

@[grind ←] theorem updateStream (hd : Nat) {f : WasmStream → WasmStream}
    (hf : ∀ ws, (f ws).conn = ws.conn) :
    Takes ok m₀ (m.updateStream hd f) :=
  h.tail (.updateStream hd hf)

@[grind ←] theorem updateSession (conn sid : Nat) (f : WasmSession → WasmSession) :
    Takes ok m₀ (m.updateSession conn sid f) :=
  h.tail (.sessions fun key hkey => by rwa [contains_modify] at hkey)

@[grind ←] theorem deleteSession (conn : Nat) (sid : SessionId) :
    Takes ok m₀ (m.deleteSession conn sid) :=
  h.tail (.sessions fun _ => contains_of_erase)

theorem foldl {α : Type} {step : Manager → α → Manager}
    (hstep : ∀ {m}, Takes ok m₀ m → ∀ a, Takes ok m₀ (step m a)) (as : List α) :
    Takes ok m₀ (as.foldl step m) := by
  induction as generalizing m with
  | nil => exact h
  | cons a as ih => exact ih (hstep h a)

@[grind ←] theorem releaseAll (ids : List Nat) : Takes ok m₀ (m.releaseAll ids) :=
  foldl h release ids

@[grind ←] theorem maybeRelease (hd : Nat) : Takes ok m₀ (m.maybeRelease hd) := by
  grind [Manager.maybeRelease]

@[grind ←] theorem dropRetained (hd : Nat) : Takes ok m₀ (m.dropRetained hd) := by
  grind [Manager.dropRetained]

@[grind ←] theorem endSend (hd : Nat) : Takes ok m₀ (m.endSend hd) := by
  grind [Manager.endSend]

@[grind ←] theorem endRecv (hd : Nat) : Takes ok m₀ (m.endRecv hd) := by
  grind [Manager.endRecv]

@[grind ←] theorem dropRecv (hd : Nat) : Takes ok m₀ (m.dropRecv hd) := by
  grind [Manager.dropRecv]

@[grind ←] theorem act (a : Act) : Takes ok m₀ (m.act a) := by
  cases a <;> grind [Manager.act]

@[grind ←] theorem acts (as : List Act) : Takes ok m₀ (m.acts as) := foldl h act as

@[grind ←] theorem deliver (id : Nat) (retains : Bool) (cb : Callback) :
    Takes ok m₀ (m.deliver id retains cb).1 := by
  grind [Manager.deliver]

@[grind ←] theorem thenUnless (cb : Callback) {next : Manager → Manager × Bool}
    (hnext : ∀ m, Takes ok m₀ m → Takes ok m₀ (next m).1) :
    Takes ok m₀ (m.thenUnless cb next).1 := by
  grind [Manager.thenUnless]

@[grind ←] theorem failInboundPressure (hd : Nat) (reset : Callback) :
    Takes ok m₀ (m.failInboundPressure hd reset).1 := by
  have hended := h.updateStream hd (f := fun ws => { ws with recvDone := true }) fun _ => rfl
  grind [Manager.failInboundPressure]

@[grind ←] theorem pushData (hd : Nat) (ws : WasmStream) (length : Nat) (fin : Bool)
    (id bytes : Nat) (app : App) : Takes ok m₀ (m.pushData hd ws length fin id bytes app).1 := by
  grind [Manager.pushData]

@[grind ←] theorem closeFromConnection (hd : Nat) (ws : WasmStream) (reset : Callback) :
    Takes ok m₀ (m.closeFromConnection hd ws reset).1 := by
  have hended :=
    (h.dropRetained hd).updateStream hd (f := fun ws => { ws with recvDone := true }) fun _ => rfl
  grind [Manager.closeFromConnection]

@[grind ←] theorem closeStream (hd : Nat) (ws : WasmStream) (app : App) :
    Takes ok m₀ (m.closeStream hd ws app).1 := by
  grind [Manager.closeStream]

@[grind ←] theorem closeConnStream (apps : List (Nat × App)) (hd : Nat) :
    Takes ok m₀ (closeConnStream apps m hd).1 := by
  grind [Manager.closeConnStream]

@[grind ←] theorem closeSessionForInboundPressure (conn sid : Nat) :
    Takes ok m₀ (m.closeSessionForInboundPressure conn sid) :=
  (h.deleteSession conn _).releaseAll _

theorem closeLoop {turn : Manager → Nat → Manager × Bool}
    (hturn : ∀ {m}, Takes ok m₀ m → ∀ hd, Takes ok m₀ (turn m hd).1) (hds : List Nat) :
    Takes ok m₀ (closeLoop turn hds m).1 := by
  induction hds generalizing m with
  | nil => exact h
  | cons hd hds ih => grind [Manager.closeLoop]

@[grind ←] theorem onClosed (conn : Nat) (apps : List (Nat × App)) :
    Takes ok m₀ (m.onClosed conn apps).1 := by
  refine closeLoop (releaseAll (h.tail (.sessions fun key hkey => ?_)) _)
    (fun h hd => closeConnStream h apps hd) _
  grind [Map.contains_iff, get?_filter, filter_eq_some_iff]

@[grind ←] theorem pushIncomingStream (conn sid hd : Nat) (bidi : Bool) :
    Takes ok m₀ (m.pushIncomingStream conn sid hd bidi) := by
  grind [Manager.pushIncomingStream]

theorem closeSessionStream {conn hd : Nat} {apps : List (Nat × App)}
    (hok : (∀ ws, m.streams.get? hd = some ws → ws.conn ≠ conn) → ok m hd) :
    Takes ok m₀ (closeSessionStream apps m hd conn).1 := by
  have hunmap : ok m hd → Takes ok m₀ { m with streamSessionIds := m.streamSessionIds.erase hd } :=
    fun hok => h.tail (.unmap hd hok)
  grind [Manager.closeSessionStream]

end

end Takes

/-- Where a reset callback throws, the hook does not. -/
def App.Contained (app : App) : Prop := app.reset.throws = true → app.hook.throws = false

theorem closeStream_gone (m : Manager) (hd : Nat) (ws : WasmStream) {app : App}
    (happ : app.Contained) : (m.closeStream hd ws app).1.streams.get? hd = none ∧
      (m.closeStream hd ws app).2 = false := by
  have hgone : ∀ m : Manager, (m.releaseStream hd).streams.get? hd = none := by
    simp [releaseStream]
  simp only [closeStream]
  split
  · next hthrew =>
    have hreset : app.reset.throws = true := by grind [closeFromConnection, thenUnless]
    rw [thenUnless, if_neg (by rw [happ hreset]; exact Bool.false_ne_true)]
    exact ⟨hgone _, rfl⟩
  · exact ⟨hgone _, rfl⟩

/-- A loop none of whose turns ends it, and each of which takes its handle out, takes out all
    of them. -/
theorem closeLoop_gone {turn : Manager → Nat → Manager × Bool} {P : Manager → Nat → Prop}
    (hturn : ∀ m hd, P m hd → Shrinks m (turn m hd).1 ∧
      (turn m hd).1.streams.get? hd = none ∧ (turn m hd).2 = false)
    (hkeeps : ∀ m m' hd, Shrinks m m' → P m hd → P m' hd) {hds : List Nat} {m : Manager}
    (hP : ∀ hd ∈ hds, P m hd) :
    Shrinks m (closeLoop turn hds m).1 ∧
      ∀ hd ∈ hds, (closeLoop turn hds m).1.streams.get? hd = none := by
  induction hds generalizing m with
  | nil => exact ⟨.refl m, by simp⟩
  | cons hd hds ih =>
    obtain ⟨hfirst, hgone, hon⟩ := hturn m hd (hP hd mem_cons_self)
    obtain ⟨hshrinks, hrest⟩ := ih fun hd' hmem =>
      hkeeps _ _ hd' hfirst (hP hd' (mem_cons_of_mem _ hmem))
    have hloop : closeLoop turn (hd :: hds) m = closeLoop turn hds (turn m hd).1 := by
      grind [closeLoop]
    rw [hloop]
    exact ⟨hfirst.trans hshrinks, forall_mem_cons.mpr ⟨hshrinks.streams_none hgone, hrest⟩⟩

theorem contained_lookup {apps : List (Nat × App)} (happs : ∀ p ∈ apps, p.2.Contained) (hd : Nat) :
    ((apps.lookup hd).getD {}).Contained := by
  induction apps with
  | nil => exact fun h => by cases h
  | cons p apps ih =>
    obtain ⟨happ, hrest⟩ := forall_mem_cons.mp happs
    rw [lookup_cons]
    split
    · exact happ
    · exact ih hrest

variable {conn : Nat} {m : Manager}

/-- The loop of `onSessionClosed`, when the handles it finds are of the connection. -/
theorem closeSessionStreams {apps : List (Nat × App)} {hds : List Nat}
    (happs : ∀ p ∈ apps, p.2.Contained)
    (hown : ∀ hd ∈ hds, ∀ ws, m.streams.get? hd = some ws → ws.conn = conn) :
    Shrinks m (closeLoop (closeSessionStream apps · · conn) hds m).1 ∧
      ∀ hd ∈ hds,
        (closeLoop (closeSessionStream apps · · conn) hds m).1.streams.get? hd = none := by
  refine closeLoop_gone
    (P := fun m hd => ∀ ws, m.streams.get? hd = some ws → ws.conn = conn) ?_ ?_ hown
  · intro m hd hown
    refine ⟨.of_takes ((Takes.refl m).closeSessionStream fun hother => ?_), ?_⟩
    · by_contra hsome
      obtain ⟨ws, hws⟩ := ne_none_iff_exists'.mp hsome
      exact hother ws hws (hown ws hws)
    · simp only [closeSessionStream]
      split
      · next ws hws =>
        rw [if_pos (hown ws hws)]
        exact m.closeStream_gone hd ws (contained_lookup happs hd)
      · next hnone => exact ⟨hnone, rfl⟩
  · intro m m' hd hshrinks hown ws' hws'
    obtain ⟨-, ws, hws, hconn⟩ := hshrinks.streams hd ws' hws'
    exact hconn.trans (hown ws hws)

theorem release_gone (m : Manager) (id : Nat) : (m.release id).hostReservations.get? id = none := by
  unfold release
  split
  · assumption
  · simp

/-! ## What an event adds -/

section

variable (m : Manager)

/-- The handle is mapped to a session id that streams of this connection alone have. -/
def OwnStreams : Event → Prop
  | .sessionClosed conn sid _ => ∀ hd ws, m.streamSessionIds.get? hd = some (some sid) →
      m.streams.get? hd = some ws → ws.conn = conn
  | _ => True

/-- Where the reset callback of a stream that is closed throws, the hook does not. -/
def Event.Contained : Event → Prop
  | .closed _ apps | .sessionClosed _ _ apps => ∀ p ∈ apps, p.2.Contained
  | _ => True

def adopts : Event → Option Nat × Manager
  | .datagram conn sid length token _ =>
    m.adoptHostReservation conn none token length false (some (some sid))
  | .streamData conn hd length fin token _ =>
    m.adoptHostReservation conn (some hd) token length fin none
  | _ => (none, m)

/-- The manager with what an event can add to it. -/
def entered : Event → Manager
  | .established conn sid => { m with sessions := m.sessions.insert (conn, some sid) {} }
  | .streamOpened conn sid hd bidi =>
    (m.ensureSession conn (some sid)).register conn (some sid) hd bidi true
  | ev => (m.adopts ev).2

/-- `onSessionClosed` before it looks for the session's streams. -/
def closing (conn sid : Nat) : Manager :=
  (m.deleteSession conn (some sid)).releaseSessionHostReservations conn (some sid)

def mappedTo (sid : Nat) : List Nat :=
  (m.streamSessionIds.filter fun _ owner => owner = some sid).keys

end

theorem mem_mappedTo {hd sid : Nat} :
    hd ∈ m.mappedTo sid ↔ m.streamSessionIds.get? hd = some (some sid) := by
  simp [mappedTo, Map.mem_keys]

theorem closing_takes {ok : Manager → Nat → Prop} (m : Manager) (conn sid : Nat) :
    Takes ok m (m.closing conn sid) :=
  ((Takes.refl m).deleteSession conn _).releaseAll _

theorem closing_shrinks (m : Manager) (conn sid : Nat) : Shrinks m (m.closing conn sid) :=
  .of_takes (m.closing_takes conn sid)

theorem closing_own {sid : Nat} {apps : List (Nat × App)}
    (hown : m.OwnStreams (.sessionClosed conn sid apps)) :
    ∀ hd ∈ (m.closing conn sid).mappedTo sid, ∀ ws,
      (m.closing conn sid).streams.get? hd = some ws → ws.conn = conn := by
  intro hd hmem ws hws
  obtain ⟨hid, ws₀, hws₀, hconn⟩ := (m.closing_shrinks conn sid).streams hd ws hws
  exact hconn.trans (hown hd ws₀ (hid ▸ mem_mappedTo.mp hmem) hws₀)

section

variable (m : Manager)

theorem onEstablished_shrinks (conn sid : Nat) :
    Shrinks (m.entered (.established conn sid)) (m.onEstablished conn sid) := by
  have hnew : (m.sessions.insert (conn, some sid) {}).contains (conn, some sid) = true := by
    simp [Map.contains]
  unfold onEstablished ensureSession
  split
  · refine ⟨fun _ ws h => ⟨rfl, ws, h, rfl⟩, fun _ _ h => h, fun _ _ h => h, fun key h => ?_⟩
    rcases eq_or_contains_of_insert h with rfl | hold
    · exact hnew
    · exact contains_insert_of (contains_of_erase hold)
  · split
    · exact ⟨fun _ ws h => ⟨rfl, ws, h, rfl⟩, fun _ _ h => h, fun _ _ h => h,
        fun _ h => contains_insert_of h⟩
    · exact .refl _

theorem ensureSession_same (conn : Nat) (sid : SessionId) :
    (m.ensureSession conn sid).streams = m.streams ∧
      (m.ensureSession conn sid).streamSessionIds = m.streamSessionIds := by
  unfold ensureSession
  split <;> exact ⟨rfl, rfl⟩

theorem ensureSession_sessions (conn : Nat) (sid : SessionId)
    (key : Nat × SessionId) (h : (m.ensureSession conn sid).sessions.contains key = true) :
    key = (conn, sid) ∨ m.sessions.contains key = true := by
  unfold ensureSession at h
  split at h
  · exact .inr h
  · exact eq_or_contains_of_insert h

theorem adopts_same (ev : Event) : (m.adopts ev).2.streams = m.streams ∧
    (m.adopts ev).2.streamSessionIds = m.streamSessionIds ∧
    (m.adopts ev).2.sessions = m.sessions := by
  cases ev with
  | datagram | streamData =>
    simp only [adopts, adoptHostReservation]
    split <;> exact ⟨rfl, rfl, rfl⟩
  | _ => exact ⟨rfl, rfl, rfl⟩

end

theorem adopt_reservations {token length id : Nat} {stream : Option Nat}
    {fin : Bool} {sessionId : Option SessionId} {r : HostReservation}
    (h : (m.adoptHostReservation conn stream token length fin
      sessionId).2.hostReservations.get? id =
      some r) : m.hostReservations.get? id = some r ∨
      (m.adoptHostReservation conn stream token length fin sessionId).1 = some id ∧
        id = m.nextReservation ∧ r.token = token := by
  simp only [adoptHostReservation] at h ⊢
  split at h
  · exact .inl h
  · next hroom => grind [get?_insert]

variable {ev : Event}

/-- A handler takes away from what the event adds, the loop of `onSessionClosed` given. -/
theorem handle_takes {ok : Manager → Nat → Prop}
    (hother : ∀ conn sid apps, ev ≠ .sessionClosed conn sid apps)
    (hnew : ∀ conn sid, ev ≠ .established conn sid) :
    Takes ok (m.entered ev) (m.handle ev).1 := by
  cases ev with
  | established conn sid => exact absurd rfl (hnew conn sid)
  | sessionClosed conn sid apps => exact absurd rfl (hother conn sid apps)
  | datagram conn sid length token app =>
    simp only [handle, onDatagram, entered, adopts]
    cases m.adoptHostReservation conn none token length false (some (some sid))
    grind
  | closed conn apps => exact Takes.onClosed (.refl _) conn apps
  | streamOpened conn sid hd bidi => exact Takes.pushIncomingStream (.refl _) conn sid hd bidi
  | streamData conn hd length fin token app =>
    simp only [handle, onStreamData, entered, adopts]
    cases m.adoptHostReservation conn (some hd) token length fin none
    grind
  | streamReset stream cb => grind [handle, onStreamReset, entered, adopts]
  | streamStopped stream cb => grind [handle, onStreamStopped, entered, adopts]

theorem dispatch_eq (m : Manager) (ev : Event) :
    m.dispatch ev = { (m.handle ev).1 with released := (m.dispatch ev).released } := by
  simp only [dispatch]
  split <;> rfl

theorem dispatch_of_no_payload (m : Manager) (h : ev.hostToken = none) :
    m.dispatch ev = (m.handle ev).1 := by
  simp only [dispatch, h]
  cases (m.handle ev).2 <;> rfl

theorem dispatch_shrinks (hown : m.OwnStreams ev) (hev : ev.Contained) :
    Shrinks (m.entered ev) (m.dispatch ev) := by
  have hhandle : Shrinks (m.entered ev) (m.handle ev).1 := by
    cases ev with
    | established conn sid => exact m.onEstablished_shrinks conn sid
    | sessionClosed conn sid apps =>
      exact (closing_shrinks m conn sid).trans (closeSessionStreams hev (closing_own hown)).1
    | _ => exact .of_takes (handle_takes (by simp) (by simp))
  rw [dispatch_eq]
  exact { hhandle with }

/-! ## What the endpoint told -/

/-- The manager with what it was told: the connection and the session each stream handle
    was registered for, and the sessions and connections whose end it has processed. -/
structure World where
  m : Manager := {}
  opened : Map Nat (Nat × SessionId) := ∅
  closedSessions : List (Nat × Nat) := []
  closedConns : List Nat := []

namespace World

section

variable (w : World)

def note : Event → World
  | .streamOpened conn sid hd _ => { w with opened := w.opened.insert hd (conn, some sid) }
  | .closed conn _ => { w with closedConns := conn :: w.closedConns }
  | .sessionClosed conn sid _ => { w with closedSessions := (conn, sid) :: w.closedSessions }
  | _ => w

def dispatch (ev : Event) : World := { w.note ev with m := w.m.dispatch ev }

def dispatchAll (evs : List Event) : World := evs.foldl dispatch w

def openStream (conn : Nat) (sid : SessionId) (hd : Nat) (bidi : Bool) : World :=
  { w with
    m := w.m.register conn sid hd bidi false
    opened := w.opened.insert hd (conn, sid) }

def connectClient (conn : Nat) : World := { w with m := w.m.ensureSession conn none }

def perform : Call → World
  | .event ev => w.dispatch ev
  | .openStream conn sid hd bidi dispatched =>
    (w.dispatchAll dispatched).openStream conn sid hd bidi
  | .connectClient conn dispatched => (w.dispatchAll dispatched).connectClient conn
  | c => { w with m := w.m.perform c }

end

/-- The events meet `ok`, each in the state in which it is dispatched. -/
def Along (ok : World → Event → Prop) (w : World) : List Event → Prop
  | [] => True
  | ev :: evs => ok w ev ∧ Along ok (w.dispatch ev) evs

/-- The endpoint gives out a stream handle once, and sends a stream's data with its
    connection. -/
def Genuine (w : World) : Event → Prop
  | .streamOpened _ _ hd _ => w.opened.get? hd = none
  | .streamData conn hd _ _ _ _ => ∀ o, w.opened.get? hd = some o → o.1 = conn
  | _ => True

/-- What the endpoint does in a call; that of `openStream` succeeds on a live session only. -/
def GenuineCall (w : World) : Call → Prop
  | .event ev => w.Genuine ev
  | .openStream conn sid hd _ dispatched => w.Along Genuine dispatched ∧
      (w.dispatchAll dispatched).opened.get? hd = none ∧
      conn ∉ w.closedConns ∧ ∀ s ∈ sid, (conn, s) ∉ w.closedSessions
  | .connectClient _ dispatched => w.Along Genuine dispatched
  | _ => True

def Step (w : World) (c : Call) (w' : World) : Prop := w.GenuineCall c ∧ w' = w.perform c

variable {w : World}

theorem along_invariant {P : World → Prop} {ok : World → Event → Prop}
    (hstep : ∀ w ev, P w → ok w ev → P (w.dispatch ev)) {evs : List Event} (hP : P w)
    (hok : w.Along ok evs) : P (w.dispatchAll evs) := by
  induction evs generalizing w with
  | nil => exact hP
  | cons ev evs ih => exact ih (hstep w ev hP hok.1) hok.2

/-! ## The registries agree -/

/-- A registered stream is mapped to the session it was opened for, and an entry of the map
    is the session of the handle. -/
structure Registered (w : World) : Prop where
  streams : ∀ hd ws, w.m.streams.get? hd = some ws →
    ∃ sid, w.opened.get? hd = some (ws.conn, sid) ∧ w.m.streamSessionIds.get? hd = some sid
  ids : ∀ hd sid, w.m.streamSessionIds.get? hd = some sid →
    ∃ conn, w.opened.get? hd = some (conn, sid)

theorem Registered.shrink (h : Registered w) (hshrinks : Shrinks w.m m') :
    Registered { w with m := m' } where
  streams hd ws' hws' := by
    obtain ⟨hid, ws, hws, hconn⟩ := hshrinks.streams hd ws' hws'
    obtain ⟨sid, hopened, hsid⟩ := h.streams hd ws hws
    exact ⟨sid, hconn ▸ hopened, hid.trans hsid⟩
  ids hd sid hsid := h.ids hd sid (hshrinks.ids hd sid hsid)

variable {conn : Nat} {sid : SessionId}

theorem Registered.register {bidi incoming : Bool}
    (h : Registered w) : Registered { w with
      m := w.m.register conn sid hd bidi incoming
      opened := w.opened.insert hd (conn, sid) } where
  streams hd' ws hws := by
    simp only [Manager.register, get?_insert] at hws ⊢
    split at hws
    · next heq =>
      cases hws
      exact ⟨sid, by simp [heq, WasmStream.new], by simp [heq]⟩
    · next hne =>
      simp only [if_neg hne]
      exact h.streams hd' ws hws
  ids hd' sid' hsid := by
    simp only [Manager.register, get?_insert] at hsid ⊢
    split at hsid
    · next heq =>
      cases hsid
      exact ⟨conn, by simp [heq]⟩
    · next hne =>
      simp only [if_neg hne]
      exact h.ids hd' sid' hsid

theorem Registered.of_eq (h : Registered w) (hstreams : m'.streams = w.m.streams)
    (hids : m'.streamSessionIds = w.m.streamSessionIds) : Registered { w with m := m' } :=
  ⟨by simpa only [hstreams, hids] using h.streams, by simpa only [hids] using h.ids⟩

theorem Registered.dispatch (h : Registered w) (hown : w.m.OwnStreams ev) (hev : ev.Contained) :
    Registered (w.dispatch ev) := by
  obtain ⟨hstreams, hids, -⟩ := w.m.adopts_same ev
  have hentered : Registered { w.note ev with m := w.m.entered ev } := by
    cases ev with
    | streamOpened conn sid hd bidi =>
      obtain ⟨hstreams, hids⟩ := w.m.ensureSession_same conn (some sid)
      exact (h.of_eq hstreams hids).register
    | established conn sid => exact ⟨h.streams, h.ids⟩
    | _ =>
      have hsame := h.of_eq hstreams hids
      exact ⟨hsame.streams, hsame.ids⟩
  exact hentered.shrink (dispatch_shrinks hown hev)

/-! ## What is closed is gone -/

section

variable (w : World)

/-- A session or a stream of the session `sid` of `conn` may come: neither is closed. -/
def Open (conn : Nat) (sid : SessionId) : Prop :=
  conn ∉ w.closedConns ∧ ∀ s ∈ sid, (conn, s) ∉ w.closedSessions

/-- No object is held for a session whose end, or whose connection's end, was processed. -/
def Gone : Prop :=
  ∀ conn sid, ¬ w.Open conn sid → w.m.sessions.contains (conn, sid) = false ∧
    ∀ hd ws, w.m.streams.get? hd = some ws → w.opened.get? hd ≠ some (conn, sid)

/-- The event opens nothing for what is closed already, closes a session whose id no other
    connection's streams are mapped to, and no hook throws while it closes streams. -/
def Orderly (ev : Event) : Prop :=
  w.m.OwnStreams ev ∧ ev.Contained ∧
    (∀ conn sid, ev = .established conn sid → w.Open conn (some sid)) ∧
    ∀ conn sid hd bidi, ev = .streamOpened conn sid hd bidi → w.Open conn (some sid)

/-- The events of the call are orderly, and those that its own pump dispatches do not close
    what it is about to register. -/
def OrderlyCall : Call → Prop
  | .event ev => w.Orderly ev
  | .openStream conn sid _ _ dispatched => w.Along Orderly dispatched ∧
      (∀ apps, .closed conn apps ∉ dispatched) ∧
      ∀ s ∈ sid, ∀ apps, .sessionClosed conn s apps ∉ dispatched
  | .connectClient conn dispatched => w.Along Orderly dispatched ∧
      conn ∉ w.closedConns ∧ ∀ apps, .closed conn apps ∉ dispatched
  | _ => True

end

theorem Gone.shrink (h : Gone w) (hshrinks : Shrinks w.m m') :
    Gone { w with m := m' } := by
  intro conn sid hclosed
  obtain ⟨hsession, hstreams⟩ := h conn sid hclosed
  refine ⟨Bool.eq_false_iff.mpr fun hkey => ?_, fun hd ws' hws' => ?_⟩
  · exact Bool.eq_false_iff.mp hsession (hshrinks.sessions _ hkey)
  · obtain ⟨-, ws, hws, -⟩ := hshrinks.streams hd ws' hws'
    exact hstreams hd ws hws

theorem Gone.addSession (h : Gone w)
    (hopen : w.Open conn sid) (hstreams : m'.streams = w.m.streams)
    (hsessions : ∀ key, m'.sessions.contains key = true →
      key = (conn, sid) ∨ w.m.sessions.contains key = true) : Gone { w with m := m' } := by
  intro conn' sid' hclosed
  obtain ⟨hsession, hnone⟩ := h conn' sid' hclosed
  refine ⟨Bool.eq_false_iff.mpr fun hkey => ?_, by simpa only [hstreams] using hnone⟩
  rcases hsessions _ hkey with heq | hold
  · cases heq
    exact hclosed hopen
  · exact Bool.eq_false_iff.mp hsession hold

theorem Gone.register {bidi incoming : Bool} (h : Gone w) (hopen : w.Open conn sid) :
    Gone { w with
      m := w.m.register conn sid hd bidi incoming
      opened := w.opened.insert hd (conn, sid) } := by
  intro conn' sid' hclosed
  obtain ⟨hsession, hnone⟩ := h conn' sid' hclosed
  refine ⟨hsession, fun hd' ws hws => ?_⟩
  simp only [Manager.register, get?_insert] at hws ⊢
  split
  · intro heq
    cases heq
    exact hclosed hopen
  · next hne => grind

theorem onClosed_gone (m : Manager) (conn : Nat) {apps : List (Nat × App)}
    (happs : ∀ p ∈ apps, p.2.Contained) :
    (∀ sid, (m.onClosed conn apps).1.sessions.contains (conn, sid) = false) ∧
      ∀ hd ws, (m.onClosed conn apps).1.streams.get? hd = some ws → ws.conn ≠ conn := by
  simp only [onClosed]
  generalize hm : { m with sessions := m.sessions.filter fun key _ => key.1 ≠ conn } = m₁
  have hfirst : ∀ sid, m₁.sessions.contains (conn, sid) = false := by
    intro sid
    rw [← hm]
    cases hs : m.sessions.get? (conn, sid) <;> simp [Map.contains]
  generalize hm₂ : m₁.releaseConnectionHostReservations conn = m₂
  have hrest : Shrinks m₁ m₂ := hm₂ ▸ .of_takes ((Takes.refl m₁).releaseAll _)
  have hturn : ∀ m hd, Shrinks m (closeConnStream apps m hd).1 ∧
      (closeConnStream apps m hd).1.streams.get? hd = none ∧
      (closeConnStream apps m hd).2 = false := by
    refine fun m hd => ⟨.of_takes ((Takes.refl m).closeConnStream apps hd), ?_⟩
    unfold closeConnStream
    split
    · next ws hws => exact m.closeStream_gone hd ws (contained_lookup happs hd)
    · next hnone => exact ⟨hnone, rfl⟩
  obtain ⟨hloop, hgone⟩ := closeLoop_gone (P := fun _ _ => True) (fun m hd _ => hturn m hd)
    (fun _ _ _ _ _ => trivial) (m := m₂) (fun _ _ => trivial : ∀ hd ∈ m₂.streamsOf conn, True)
  refine ⟨fun sid => Bool.eq_false_iff.mpr fun hkey => ?_, ?_⟩
  · exact Bool.eq_false_iff.mp (hfirst sid) ((hrest.trans hloop).sessions _ hkey)
  · rintro hd ws' hws' rfl
    obtain ⟨-, ws, hws, hconn⟩ := hloop.streams hd ws' hws'
    have hmem : hd ∈ m₂.streamsOf ws'.conn := by
      simp [streamsOf, Map.mem_keys, hws, hconn]
    rw [hgone hd hmem] at hws'
    cases hws'

theorem onSessionClosed_gone {sid : Nat} {apps : List (Nat × App)} (h : Registered w)
    (hown : w.m.OwnStreams (.sessionClosed conn sid apps)) (happs : ∀ p ∈ apps, p.2.Contained) :
    (w.m.onSessionClosed conn sid apps).1.sessions.contains (conn, some sid) = false ∧
      ∀ hd ws, (w.m.onSessionClosed conn sid apps).1.streams.get? hd = some ws →
        w.opened.get? hd ≠ some (conn, some sid) := by
  obtain ⟨hloop, hgone⟩ := closeSessionStreams happs (closing_own hown)
  have hclosing := w.m.closing_shrinks conn sid
  refine ⟨Bool.eq_false_iff.mpr fun hkey => ?_, fun hd ws hws hopened => ?_⟩
  · have hrest : Shrinks (w.m.deleteSession conn (some sid))
        (w.m.onSessionClosed conn sid apps).1 :=
      (Shrinks.of_takes ((Takes.refl _).releaseAll _)).trans hloop
    have hleft := hrest.sessions _ hkey
    simp [deleteSession, Map.contains] at hleft
  · obtain ⟨hid, ws₁, hws₁, -⟩ := hloop.streams hd ws hws
    obtain ⟨hid', ws₀, hws₀, -⟩ := hclosing.streams hd ws₁ hws₁
    obtain ⟨sid', hopened', hsid'⟩ := h.streams hd ws₀ hws₀
    obtain ⟨-, rfl⟩ := Prod.mk.inj (Option.some.inj (hopened'.symm.trans hopened))
    have hmem := mem_mappedTo.mpr (hid'.trans hsid')
    rw [show (w.m.onSessionClosed conn sid apps).1.streams.get? hd = none from
      hgone hd hmem] at hws
    cases hws

theorem Gone.dispatch (h : Gone w) (hreg : Registered w) (hord : w.Orderly ev) :
    Gone (w.dispatch ev) := by
  have hshrinks := dispatch_shrinks hord.1 hord.2.1
  obtain ⟨hstreams, -, hsessions⟩ := w.m.adopts_same ev
  have hadopts : Gone { w with m := (w.m.adopts ev).2 } := by
    simpa only [Gone, Open, hstreams, hsessions] using h
  cases ev with
  | established conn sid =>
    have hentered : Gone { w with m := w.m.entered (.established conn sid) } :=
      h.addSession (hord.2.2.1 conn sid rfl) rfl fun _ hkey => eq_or_contains_of_insert hkey
    exact hentered.shrink hshrinks
  | closed conn apps =>
    intro conn' sid' hclosed
    by_cases hopen : w.Open conn' sid'
    · obtain rfl : conn' = conn := by
        by_contra hne
        exact hclosed ⟨fun hmem => (mem_cons.mp hmem).elim hne hopen.1, hopen.2⟩
      obtain ⟨hnone, hother⟩ := onClosed_gone w.m conn' hord.2.1
      have hm : (w.dispatch (.closed conn' apps)).m = (w.m.onClosed conn' apps).1 :=
        dispatch_of_no_payload w.m (show (Event.closed conn' apps).hostToken = none from rfl)
      rw [← hm] at hnone hother
      refine ⟨hnone sid', fun hd ws hws hopened => ?_⟩
      obtain ⟨sid, hown, -⟩ := (hreg.dispatch hord.1 hord.2.1).streams hd ws hws
      cases hown.symm.trans hopened
      exact hother hd ws hws rfl
    · exact h.shrink hshrinks conn' sid' hopen
  | sessionClosed conn sid apps =>
    intro conn' sid' hclosed
    by_cases hopen : w.Open conn' sid'
    · obtain ⟨rfl, rfl⟩ : conn' = conn ∧ sid' = some sid := by
        by_contra hne
        refine hclosed ⟨hopen.1, fun s hs hmem => ?_⟩
        rcases mem_cons.mp hmem with heq | hin
        · cases heq
          exact hne ⟨rfl, hs⟩
        · exact hopen.2 s hs hin
      have htoken : (Event.sessionClosed conn' sid apps).hostToken = none := rfl
      rw [show (w.dispatch (.sessionClosed conn' sid apps)).m =
        (w.m.onSessionClosed conn' sid apps).1 from dispatch_of_no_payload w.m htoken]
      exact onSessionClosed_gone hreg hord.1 hord.2.1
    · exact h.shrink hshrinks conn' sid' hopen
  | streamOpened conn sid hd bidi =>
    have hopen := hord.2.2.2 conn sid hd bidi rfl
    obtain ⟨hstreams, -⟩ := w.m.ensureSession_same conn (some sid)
    have hsession := h.addSession hopen hstreams (w.m.ensureSession_sessions conn (some sid))
    exact (Gone.register hsession hopen).shrink hshrinks
  | _ => exact hadopts.shrink hshrinks

/-- The ends processed behind a list of events were processed before or are in the list. -/
theorem dispatchAll_closed (evs : List Event) (w : World) :
    (∀ conn, conn ∈ (w.dispatchAll evs).closedConns →
        conn ∈ w.closedConns ∨ ∃ apps, .closed conn apps ∈ evs) ∧
      ∀ conn sid, (conn, sid) ∈ (w.dispatchAll evs).closedSessions →
        (conn, sid) ∈ w.closedSessions ∨ ∃ apps, .sessionClosed conn sid apps ∈ evs := by
  induction evs generalizing w with
  | nil => exact ⟨fun _ h => .inl h, fun _ _ h => .inl h⟩
  | cons ev evs ih =>
    obtain ⟨hconns, hsessions⟩ := ih (w.dispatch ev)
    refine ⟨fun conn hmem => ?_, fun conn sid hmem => ?_⟩
    · rcases hconns conn hmem with hin | ⟨apps, hin⟩
      · cases ev with
        | closed conn' apps =>
          rcases mem_cons.mp hin with rfl | hold
          · exact .inr ⟨apps, mem_cons_self⟩
          · exact .inl hold
        | _ => exact .inl hin
      · exact .inr ⟨apps, mem_cons_of_mem _ hin⟩
    · rcases hsessions conn sid hmem with hin | ⟨apps, hin⟩
      · cases ev with
        | sessionClosed conn' sid' apps =>
          rcases mem_cons.mp hin with heq | hold
          · cases heq
            exact .inr ⟨apps, mem_cons_self⟩
          · exact .inl hold
        | _ => exact .inl hin
      · exact .inr ⟨apps, mem_cons_of_mem _ hin⟩

/-- In every run whose calls are orderly, the manager holds no session or stream object
    for a session whose `SessionClosed`, or for a connection whose `ConnectionClosed`, it
    has processed. -/
theorem registries_follow_endpoint {calls : List Call}
    (hrun : Run (restrict OrderlyCall Step) {} calls w) : Gone w := by
  have hinv : Gone w ∧ Registered w := by
    refine hrun.invariant (P := fun w => Gone w ∧ Registered w) ?_ ⟨?_, ?_, ?_⟩
    · rintro w c - ⟨hgone, hreg⟩ ⟨hord, hgenuine, rfl⟩
      have hevents : ∀ evs, w.Along Orderly evs →
          Gone (w.dispatchAll evs) ∧ Registered (w.dispatchAll evs) := fun evs =>
        along_invariant (P := fun w => Gone w ∧ Registered w)
          (fun w ev h hord => ⟨h.1.dispatch h.2 hord, h.2.dispatch hord.1 hord.2.1⟩) ⟨hgone, hreg⟩
      cases c with
      | event ev => exact ⟨hgone.dispatch hreg hord, hreg.dispatch hord.1 hord.2.1⟩
      | openStream conn sid hd bidi evs =>
        obtain ⟨halong, hconn, hsession⟩ := hord
        obtain ⟨-, -, hlive, hlive'⟩ := hgenuine
        obtain ⟨hgone', hreg'⟩ := hevents evs halong
        obtain ⟨hconns, hsessions⟩ := w.dispatchAll_closed evs
        refine ⟨hgone'.register ⟨fun hmem => ?_, fun s hs hmem => ?_⟩, hreg'.register⟩
        · exact (hconns conn hmem).elim hlive (not_exists.mpr hconn)
        · exact (hsessions conn s hmem).elim (hlive' s hs) (not_exists.mpr (hsession s hs))
      | connectClient conn evs =>
        obtain ⟨halong, hlive, hconn⟩ := hord
        obtain ⟨hgone', hreg'⟩ := hevents evs halong
        obtain ⟨hstreams, hids⟩ := (w.dispatchAll evs).m.ensureSession_same conn none
        refine ⟨hgone'.addSession ⟨fun hmem => ?_, by simp⟩ hstreams
          (ensureSession_sessions _ conn none), hreg'.of_eq hstreams hids⟩
        exact ((w.dispatchAll_closed evs).1 conn hmem).elim hlive (not_exists.mpr hconn)
      | act a =>
        have hshrinks := Shrinks.of_takes ((Takes.refl w.m).act a)
        exact ⟨hgone.shrink hshrinks, hreg.shrink hshrinks⟩
    all_goals simp [Gone, Open]
  exact hinv.1

def performAll (calls : List Call) : World := calls.foldl perform {}

/-- A stream opened and closed with its session: the manager keeps neither. -/
theorem registries_follow_endpoint_stream :
    ∃ w, Run (restrict OrderlyCall Step) {} [.event (.established 1 0),
        .openStream 1 (some 0) 7 true [], .event (.sessionClosed 1 0)] w ∧
      (1, 0) ∈ w.closedSessions ∧ w.m.streams.get? 7 = none := by
  have hsession : restrict OrderlyCall Step {} (.event (.established 1 0))
      (performAll [.event (.established 1 0)]) :=
    ⟨⟨trivial, trivial, by simp [Open], by simp⟩, trivial, rfl⟩
  have hstream : restrict OrderlyCall Step (performAll [.event (.established 1 0)])
      (.openStream 1 (some 0) 7 true [])
      (performAll [.event (.established 1 0), .openStream 1 (some 0) 7 true []]) :=
    ⟨⟨trivial, by simp, by simp⟩, ⟨trivial, by decide, by decide, by decide⟩, rfl⟩
  have hclose : restrict OrderlyCall Step
      (performAll [.event (.established 1 0), .openStream 1 (some 0) 7 true []])
      (.event (.sessionClosed 1 0)) (performAll [.event (.established 1 0),
        .openStream 1 (some 0) 7 true [], .event (.sessionClosed 1 0)]) := by
    refine ⟨⟨fun hd ws _ hws => ?_, by simp [Event.Contained], by simp, by simp⟩, trivial, rfl⟩
    have hstreams : (performAll [.event (.established 1 0),
        .openStream 1 (some 0) 7 true []]).m.streams = insert ∅ 7 (.new 1 true false) := rfl
    rw [hstreams, get?_insert] at hws
    split at hws
    · cases hws
      rfl
    · cases hws
  have hrun := ((Run.single hsession).snoc hstream).snoc hclose
  have hgone := registries_follow_endpoint hrun
  refine ⟨_, hrun, by decide, eq_none_iff_forall_ne_some.mpr fun ws hws => ?_⟩
  exact (hgone 1 (some 0) fun hopen => hopen.2 0 rfl (by decide)).2 7 ws hws (by decide)

/-- The session ends in the pump of `openStream`, the connection in that of
    `connectClient`, a session of another connection with the same id before this one, and a
    stream's reset callback and the hook throw: each time an object of the closed session or
    connection stays registered. -/
theorem registered_after_close :
    (∃ w, Run Step {} [.event (.established 1 0),
        .openStream 1 (some 0) 7 true [.sessionClosed 1 0]] w ∧ ¬ Gone w) ∧
      (∃ w, Run Step {} [.connectClient 1 [.closed 1]] w ∧ ¬ Gone w) ∧
      (∃ w, Run Step {} [.event (.streamOpened 1 0 7 true), .event (.sessionClosed 2 0),
        .event (.sessionClosed 1 0)] w ∧ ¬ Gone w) ∧
      ∃ w, Run Step {} [.event (.streamOpened 1 0 7 true), .event (.closed 1
        [(7, { reset := { throws := true }, hook := { throws := true } })])] w ∧ ¬ Gone w := by
  refine ⟨⟨_, ((Run.nil _).snoc ⟨trivial, rfl⟩).snoc ⟨?_, rfl⟩, fun h => ?_⟩,
    ⟨_, (Run.nil _).snoc ⟨⟨trivial, trivial⟩, rfl⟩, fun h => ?_⟩,
    ⟨_, (((Run.nil _).snoc ⟨?_, rfl⟩).snoc ⟨trivial, rfl⟩).snoc ⟨trivial, rfl⟩,
      fun h => ?_⟩,
    ⟨_, ((Run.nil _).snoc ⟨?_, rfl⟩).snoc ⟨trivial, rfl⟩, fun h => ?_⟩⟩
  · exact ⟨⟨trivial, trivial⟩, by decide, by decide, by decide⟩
  · exact (h 1 (some 0) fun hopen => hopen.2 0 rfl (by decide)).2 7 (.new 1 true false) rfl
      (by decide)
  · exact absurd (h 1 none fun hopen => hopen.1 (by decide)).1 (by decide)
  · exact (h 1 (some 0) fun hopen => hopen.2 0 rfl (by decide)).2 7 (.new 1 true true) rfl
      (by decide)
  · exact (h 1 (some 0) fun hopen => hopen.1 (by decide)).2 7
      { WasmStream.new 1 true true with recvDone := true } rfl (by decide)
  all_goals exact (by decide : ({} : World).opened.get? 7 = none)

end World

end WebTransportBun.Facade.Manager
