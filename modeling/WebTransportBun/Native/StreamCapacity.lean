/-
  WebTransportBun.Native.StreamCapacity

  Waiting for stream capacity: `wait_stream_kind_capacity_with_timeout` in
  `crates/native/src/session.rs`, with the opening of streams in `lib.rs` and the drop of
  their `StreamGuard` in `client_stream.rs`.

  One call waits; streams of its own and of other sessions come and go.  A step is one load
  or update of one counter, one registration, one notification, or the waiter's way from its
  check into the wait.  Times are milliseconds.
-/

import WebTransportBun.Library.Fair
import WebTransportBun.Library.Notify
import WebTransportBun.Native.Config

namespace WebTransportBun.Native.StreamCapacity

open Library

inductive Kind
  | bidi
  | uni
  deriving DecidableEq, Repr

def maxPerSession (limits : Limits) : Kind → Nat
  | .bidi => limits.maxStreamsPerSessionBidi
  | .uni => limits.maxStreamsPerSessionUni

/-! ## Streams -/

/-- Where a stream stands between its request and the end of its guard's drop. -/
inductive Stage
  | asked
  | globalSeen
  | admitted
  | globalCounted
  | live
  /-- The guard is being dropped: the global counter is given back. -/
  | leaving
  /-- So is the session's counter; the notification is left. -/
  | left
  | gone
  deriving DecidableEq, Repr

/-- The drop of the guard has begun, and its notification is still to come. -/
def Stage.Dropping (stage : Stage) : Prop := stage = .leaving ∨ stage = .left

instance (stage : Stage) : Decidable stage.Dropping := inferInstanceAs (Decidable (_ ∨ _))

structure Stream where
  session : Nat
  kind : Kind
  stage : Stage
  deriving DecidableEq, Repr

/-- `streams_bidi_active` and `streams_uni_active` of the sessions. -/
abbrev Active := Nat → Kind → Nat

def Active.modify (active : Active) (session : Nat) (kind : Kind) (f : Nat → Nat) : Active :=
  fun session' kind' =>
    if session' = session ∧ kind' = kind then f (active session' kind') else active session' kind'

/-! ## The waiter -/

/-- `StreamCapacityView`, without the limits and the notifier. -/
structure View where
  globalActive : Nat
  bidiActive : Nat
  uniActive : Nat
  deriving DecidableEq, Repr

def View.hasCapacity (limits : Limits) (kind : Kind) (view : View) : Bool :=
  view.globalActive < limits.maxStreamsGlobal &&
    match kind with
    | .bidi => view.bidiActive < limits.maxStreamsPerSessionBidi
    | .uni => view.uniActive < limits.maxStreamsPerSessionUni

/-- What the wait returns; the errors are `E_BACKPRESSURE_TIMEOUT` and `E_SESSION_CLOSED`. -/
inductive Outcome
  | ok
  | backpressureTimeout
  | sessionClosed
  deriving DecidableEq, Repr

inductive Phase
  | idle
  /-- At the head of the loop. -/
  | loading
  | globalLoaded (globalActive : Nat)
  | bidiLoaded (globalActive bidiActive : Nat)
  | viewed (view : View)
  | registered (view : View)
  | suspended
  | returned (outcome : Outcome)
  deriving DecidableEq, Repr

def Phase.Examining : Phase → Prop
  | .globalLoaded _ | .bidiLoaded .. | .viewed _ | .registered _ => True
  | .idle | .loading | .suspended | .returned _ => False

instance : (phase : Phase) → Decidable phase.Examining
  | .globalLoaded _ | .bidiLoaded .. | .viewed _ | .registered _ => inferInstanceAs (Decidable True)
  | .idle | .loading | .suspended | .returned _ => inferInstanceAs (Decidable False)

structure Waiter where
  session : Nat
  kind : Kind
  deadline : Nat
  wake : Wake
  phase : Phase
  deriving DecidableEq, Repr

structure State where
  /-- `streams_active` of the server. -/
  globalActive : Nat
  active : Active
  streams : List Stream
  waiter : Waiter
  /-- The waiter's session is in the registry. -/
  present : Bool
  now : Nat

def State.init : State := ⟨0, fun _ _ => 0, [], ⟨0, .bidi, 0, .none, .idle⟩, true, 0⟩

inductive Op
  | call (session : Nat) (kind : Kind) (timeoutMs : Nat)
  | waiter
  | «open» (session : Nat) (kind : Kind)
  /-- The next step of the opening of a stream. -/
  | opening (i : Nat)
  /-- The guard of a live stream is dropped. -/
  | close (i : Nat)
  /-- The next step of the drop. -/
  | closing (i : Nat)
  /-- The waiter's session is closed and removed from the registry. -/
  | remove
  | tick (now : Nat)
  deriving DecidableEq, Repr

namespace State

def Available (limits : Limits) (s : State) : Prop :=
  s.globalActive < limits.maxStreamsGlobal ∧
    s.active s.waiter.session s.waiter.kind < maxPerSession limits s.waiter.kind

instance (limits : Limits) (s : State) : Decidable (s.Available limits) :=
  inferInstanceAs (Decidable (_ ∧ _))

def advance (limits : Limits) (s : State) : Option Waiter :=
  let w := s.waiter
  match w.phase with
  | .idle => none
  | .loading =>
    if s.present then some { w with phase := .globalLoaded s.globalActive }
    else some { w with phase := .returned .sessionClosed }
  | .globalLoaded g => some { w with phase := .bidiLoaded g (s.active w.session .bidi) }
  | .bidiLoaded g b => some { w with phase := .viewed ⟨g, b, s.active w.session .uni⟩ }
  | .viewed view => some { w with wake := .registered, phase := .registered view }
  | .registered view =>
    if view.hasCapacity limits w.kind then some { w with wake := .none, phase := .returned .ok }
    else if w.deadline ≤ s.now then
      some { w with wake := .none, phase := .returned .backpressureTimeout }
    else some { w with phase := .suspended }
  | .suspended =>
    -- a timeout looks at its future before it looks at the clock
    if w.wake = .notified then some { w with wake := .none, phase := .loading }
    else if w.deadline ≤ s.now then
      some { w with wake := .none, phase := .returned .backpressureTimeout }
    else none
  | .returned _ => none

def notify (s : State) (session : Nat) : State :=
  if session = s.waiter.session then
    { s with waiter := { s.waiter with wake := s.waiter.wake.notify } }
  else s

def putStream (s : State) (i : Nat) (st : Stream) : State :=
  { s with streams := s.streams.set i st }

def openStream (limits : Limits) (s : State) (i : Nat) (st : Stream) : Option State :=
  match st.stage with
  | .asked =>
    let stage := if s.globalActive < limits.maxStreamsGlobal then .globalSeen else .gone
    some (s.putStream i { st with stage })
  | .globalSeen =>
    let stage :=
      if s.active st.session st.kind < maxPerSession limits st.kind then .admitted else .gone
    some (s.putStream i { st with stage })
  | .admitted =>
    some { s.putStream i { st with stage := .globalCounted } with
      globalActive := s.globalActive + 1 }
  | .globalCounted =>
    some { s.putStream i { st with stage := .live } with
      active := s.active.modify st.session st.kind (· + 1) }
  | _ => none

def dropGuard (s : State) (i : Nat) (st : Stream) : Option State :=
  match st.stage with
  | .live =>
    some { s.putStream i { st with stage := .leaving } with
      globalActive := s.globalActive - 1 }
  | .leaving =>
    some { s.putStream i { st with stage := .left } with
      active := s.active.modify st.session st.kind (· - 1) }
  | .left => some ((s.putStream i { st with stage := .gone }).notify st.session)
  | _ => none

def exec (limits : Limits) (s : State) : Op → Option State
  | .call session kind timeoutMs =>
    if s.waiter.phase = .idle then
      some { s with waiter := ⟨session, kind, s.now + timeoutMs, .none, .loading⟩ }
    else none
  | .waiter => (s.advance limits).map fun w => { s with waiter := w }
  | .open session kind => some { s with streams := s.streams ++ [⟨session, kind, .asked⟩] }
  | .opening i => s.streams[i]?.bind (s.openStream limits i)
  | .close i => (s.streams[i]?.filter (·.stage = .live)).bind (s.dropGuard i)
  | .closing i => (s.streams[i]?.filter (·.stage ≠ .live)).bind (s.dropGuard i)
  | .remove => some ({ s with present := false }.notify s.waiter.session)
  | .tick now => if now < s.now then none else some { s with now }

def Step (limits : Limits) (s : State) (op : Op) (t : State) : Prop := s.exec limits op = some t

/-- A stream of the waiter's session has yet to notify. -/
def Owed (s : State) : Prop :=
  ∃ st ∈ s.streams, st.session = s.waiter.session ∧ st.stage.Dropping

instance (s : State) : Decidable s.Owed := inferInstanceAs (Decidable (∃ _ ∈ _, _))

/-- A step of stream `i` that makes room does not fall between the waiter's first load and its
    wait, and if it finds the waiter asleep it is one of the waiter's own session. -/
def Watched (limits : Limits) (s : State) (i : Nat) (next : Option State) : Prop :=
  ¬ s.Available limits → next.any (fun t => decide (t.Available limits)) →
    ¬ s.waiter.phase.Examining ∧
      (s.waiter.phase = .suspended →
        s.waiter.wake = .notified ∨ s.streams[i]?.any (·.session = s.waiter.session))

instance (limits : Limits) (s : State) (i : Nat) (next : Option State) :
    Decidable (s.Watched limits i next) :=
  inferInstanceAs (Decidable (_ → _ → _))

/-- The wait runs out of time while a notification is owed to it. -/
def Overtaken (s : State) : Prop :=
  s.waiter.phase = .suspended ∧ s.waiter.wake ≠ .notified ∧ s.waiter.deadline ≤ s.now ∧ s.Owed

instance (s : State) : Decidable s.Overtaken := inferInstanceAs (Decidable (_ ∧ _))

/-- The condition on the steps under which no wakeup is lost. -/
def Prompt (limits : Limits) (s : State) : Op → Prop
  | .close i => s.Watched limits i (s.exec limits (.close i))
  | .closing i => s.Watched limits i (s.exec limits (.closing i))
  | .waiter => ¬ s.Overtaken
  | .remove => False
  | .call .. | .open .. | .opening _ | .tick _ => True

instance (limits : Limits) (s : State) : (op : Op) → Decidable (s.Prompt limits op)
  | .close i => inferInstanceAs (Decidable (s.Watched limits i _))
  | .closing i => inferInstanceAs (Decidable (s.Watched limits i _))
  | .waiter => inferInstanceAs (Decidable (¬ s.Overtaken))
  | .remove => inferInstanceAs (Decidable False)
  | .call .. | .open .. | .opening _ | .tick _ => inferInstanceAs (Decidable True)

end State

end WebTransportBun.Native.StreamCapacity
