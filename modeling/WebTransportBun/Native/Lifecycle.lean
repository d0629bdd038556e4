/-
  WebTransportBun.Native.Lifecycle

  Receiving on a native session while it is closed: `accept_bidi_stream_for_session`,
  `accept_uni_stream_for_session` and `recv_datagram_slot` in `crates/native/src/session.rs`
  against `mark_state_closed_and_notify` in `session_registry.rs`.

  A step is one read or write of the closed flag, one registration, one notification, one
  operation on a channel or on the mutex around its receiver.  The mutex serves its callers
  in order.  The accept loops are given the notifier that datagram credit is released on, so
  they also wake up for that.
-/

import Mathlib.Data.List.Nodup
import Mathlib.Logic.Function.Basic
import WebTransportBun.Library.Fair
import WebTransportBun.Library.Map
import WebTransportBun.Library.Notify

namespace WebTransportBun.Native.Lifecycle

open Library List Option Function

inductive Kind
  | bidi
  | uni
  | datagram
  deriving DecidableEq, Repr

inductive Notifier
  /-- `datagram_capacity_notify`. -/
  | capacity
  /-- `datagram_lifecycle_notify`. -/
  | lifecycle
  deriving DecidableEq, Repr

def Kind.notifier : Kind → Notifier
  | .bidi | .uni => .capacity
  | .datagram => .lifecycle

inductive Phase
  | arrived
  /-- An accept call that found its session. -/
  | looked
  /-- In the queue of the receiver's mutex. -/
  | locking
  /-- A datagram call with the lock, before its first look at the flag. -/
  | entered
  /-- The flag was clear; the channel is tried next. -/
  | trying
  /-- At the head of the loop. -/
  | heading
  /-- An accept call that saw the flag clear and is not registered yet. -/
  | checked
  /-- A datagram call that is registered and looks at the flag next. -/
  | enrolled
  /-- In the `select!`. -/
  | waiting
  | returned (item : Option Nat)
  deriving DecidableEq, Repr

structure Call where
  kind : Kind
  phase : Phase
  wake : Wake
  deriving DecidableEq, Repr

/-- What is left to do of one run of `mark_state_closed_and_notify`. -/
inductive Closer
  | stored
  | capacityRung
  | done
  deriving DecidableEq, Repr

structure State where
  /-- `datagram_lifecycle_closed`. -/
  closed : Bool
  closers : List Closer
  /-- A closer has come to this notifier. -/
  rung : Notifier → Bool
  /-- The session is in the registry. -/
  present : Bool
  /-- What waits in the channels. -/
  items : Kind → List Nat
  /-- Everything that was ever sent to them. -/
  sent : Kind → List Nat
  /-- The channels still have senders. -/
  connected : Kind → Bool
  /-- Who holds the receivers' mutexes, and who waits for them. -/
  queue : Kind → List Nat
  calls : List Call

def State.init : State :=
  ⟨false, [], fun _ => false, true, fun _ => [], fun _ => [], fun _ => true, fun _ => [], []⟩

inductive Op
  | issue (kind : Kind)
  /-- The next step of a call; `recvFirst` is the branch an unbiased `select!` polls first. -/
  | call (i : Nat) (recvFirst : Bool)
  /-- A closer stores the flag. -/
  | store
  /-- The next notification of a closer. -/
  | closer (j : Nat)
  /-- Datagram credit is released. -/
  | credit
  | send (kind : Kind) (item : Nat)
  | disconnect (kind : Kind)
  | remove
  deriving DecidableEq, Repr

namespace State

section

variable (s : State)

section

variable (i : Nat)

section

variable (c : Call)

def put : State := { s with calls := s.calls.set i c }

def skip : State :=
  s.put i { c with wake := .none, phase := .returned none }

def join : State :=
  { s.put i { c with phase := .locking } with
    queue := update s.queue c.kind (s.queue c.kind ++ [i]) }

def leave (item : Option Nat) : State :=
  { s.put i { c with wake := .none, phase := .returned item } with
    queue := update s.queue c.kind (s.queue c.kind).tail }

def receive : Option State :=
  match s.items c.kind with
  | item :: items =>
    some { s.leave i c (some item) with items := update s.items c.kind items }
  | [] => if s.connected c.kind then none else some (s.leave i c none)

def advance (recvFirst : Bool) : Option State :=
  match c.phase with
  | .arrived =>
    if s.present = false then some (s.skip i c)
    else if c.kind = .datagram then some (s.join i c)
    else some (s.put i { c with phase := .looked })
  | .looked => if s.closed then some (s.skip i c) else some (s.join i c)
  | .locking =>
    if (s.queue c.kind).head? = some i then
      some (s.put i { c with phase := if c.kind = .datagram then .entered else .heading })
    else none
  | .entered =>
    if s.closed then some (s.leave i c none) else some (s.put i { c with phase := .trying })
  | .trying => (s.receive i c).or (some (s.put i { c with phase := .heading }))
  | .heading =>
    if c.kind = .datagram then
      some (s.put i { c with wake := .registered, phase := .enrolled })
    else if s.closed then some (s.leave i c none)
    else some (s.put i { c with phase := .checked })
  | .checked => some (s.put i { c with wake := .registered, phase := .waiting })
  | .enrolled =>
    if s.closed then some (s.leave i c none) else some (s.put i { c with phase := .waiting })
  | .waiting =>
    let again := if c.wake = .notified then
      some (s.put i { c with wake := .none, phase := .heading }) else none
    -- the datagram loop is biased towards the notification
    if c.kind ≠ .datagram ∧ recvFirst then (s.receive i c).or again
    else again.or (s.receive i c)
  | .returned _ => none

end

end

def notify (notifier : Notifier) : State :=
  { s with calls := s.calls.map fun c =>
      if c.kind.notifier = notifier then { c with wake := c.wake.notify } else c }

def ring (j : Nat) : Closer → Option State
  | .stored => some { s.notify .capacity with
      closers := s.closers.set j .capacityRung
      rung := update s.rung .capacity true }
  | .capacityRung => some { s.notify .lifecycle with
      closers := s.closers.set j .done
      rung := update s.rung .lifecycle true }
  | .done => none

def exec : Op → Option State
  | .issue kind => some { s with calls := s.calls ++ [⟨kind, .arrived, .none⟩] }
  | .call i recvFirst => s.calls[i]?.bind fun c => s.advance i c recvFirst
  | .store => some { s with closed := true, closers := s.closers ++ [.stored] }
  | .closer j => s.closers[j]?.bind (s.ring j)
  | .credit => some (s.notify .capacity)
  | .send kind item =>
    if s.connected kind then
      some { s with
        items := update s.items kind (s.items kind ++ [item])
        sent := update s.sent kind (s.sent kind ++ [item]) }
    else none
  | .disconnect kind => some { s with connected := update s.connected kind false }
  | .remove => some { s with present := false }

def Step (op : Op) (t : State) : Prop := s.exec op = some t

/-- A closer does not come to the accept loops' notifier between a call's look at the flag and
    its registration. -/
def Seen : Op → Prop
  | .closer j => s.closers[j]? = some .stored → ∀ c ∈ s.calls, c.phase ≠ .checked
  | _ => True

end

instance (s : State) : (op : Op) → Decidable (s.Seen op)
  | .closer _ => inferInstanceAs (Decidable (_ → ∀ _ ∈ _, _))
  | .issue _ | .call .. | .store | .credit | .send .. | .disconnect _ | .remove =>
    inferInstanceAs (Decidable True)

end State

/-! ## The lock -/

/-- Where a call stands with respect to its receiver's mutex. -/
inductive Place
  | outside
  | queued
  | holding
  | done
  deriving DecidableEq, Repr

def Phase.place : Phase → Place
  | .arrived | .looked => .outside
  | .locking => .queued
  | .entered | .trying | .heading | .checked | .enrolled | .waiting => .holding
  | .returned _ => .done

def Call.standing (c : Call) : Kind × Place := (c.kind, c.phase.place)

namespace State

variable {s t : State} {i j : Nat} {c : Call} {op : Op}

/-- A step of a call that neither queues up nor returns. -/
inductive Shift (closed : Bool) (kind : Kind) (wake : Wake) : Phase → Phase → Wake → Prop
  | look : Shift closed kind wake .arrived .looked wake
  | enter (hopen : closed ≠ true) : Shift closed kind wake .entered .trying wake
  | retry : Shift closed kind wake .trying .heading wake
  | enroll : Shift closed kind wake .heading .enrolled .registered
  | check (hopen : closed ≠ true) (hkind : kind ≠ .datagram) :
      Shift closed kind wake .heading .checked wake
  | register : Shift closed kind wake .checked .waiting .registered
  | sleep (hopen : closed ≠ true) : Shift closed kind wake .enrolled .waiting wake
  | awake : Shift closed kind wake .waiting .heading .none

theorem Shift.place_eq {closed : Bool} {kind : Kind} {wake wake' : Wake} {phase phase' : Phase}
    (h : Shift closed kind wake phase phase' wake') : phase'.place = phase.place := by
  cases h <;> rfl

inductive CallEffect (s : State) (i : Nat) (c : Call) : State → Prop
  | shift (phase : Phase) (wake : Wake) (hshift : Shift s.closed c.kind c.wake c.phase phase wake) :
      CallEffect s i c (s.put i { c with phase, wake })
  | skip (hplace : c.phase.place = .outside) : CallEffect s i c (s.skip i c)
  | join (hplace : c.phase.place = .outside) : CallEffect s i c (s.join i c)
  | acquire (phase : Phase) (hlocking : c.phase = .locking)
      (hhead : (s.queue c.kind).head? = some i) (hphase : phase = .entered ∨ phase = .heading) :
      CallEffect s i c (s.put i { c with phase })
  | leave (item : Option Nat) (items : Kind → List Nat) (hplace : c.phase.place = .holding)
      (hitem : ∀ x, item = some x → x ∈ s.items c.kind)
      (hitems : ∀ k, ∀ x ∈ items k, x ∈ s.items k) :
      CallEffect s i c { s.leave i c item with items }

theorem leave_effect (hplace : c.phase.place = .holding) : CallEffect s i c (s.leave i c none) :=
  .leave none s.items hplace nofun fun _ _ hx => hx

attribute [local grind] Shift CallEffect Phase.place
attribute [local grind ←] leave_effect

theorem receive_effect (h : s.receive i c = some t) (hplace : c.phase.place = .holding) :
    CallEffect s i c t := by
  unfold receive at h
  split at h
  · cases h
    refine .leave _ _ hplace ?_ ?_ <;> grind [update_apply]
  · grind

attribute [local grind →] receive_effect

theorem advance_effect {recvFirst : Bool} (h : s.advance i c recvFirst = some t) :
    CallEffect s i c t := by
  unfold advance at h
  cases hphase : c.phase <;> grind [or_eq_some_iff]

def standing (s : State) (i : Nat) : Option (Kind × Place) := s.calls[i]?.map Call.standing

theorem standing_of_getElem? (hc : s.calls[i]? = some c) : s.standing i = some c.standing := by
  rw [standing, hc]
  rfl

theorem standing_put (hc : s.calls[i]? = some c) (c' : Call) :
    (s.put i c').standing = update s.standing i (some c'.standing) := by
  obtain ⟨hi, -⟩ := List.getElem?_eq_some_iff.mp hc
  funext j
  by_cases hji : j = i
  · subst hji
    rw [update_self, standing, put, getElem?_set_self hi]
    rfl
  · rw [update_of_ne hji, standing, put, getElem?_set_ne (Ne.symm hji)]
    rfl

theorem standing_notify (s : State) (notifier : Notifier) :
    (s.notify notifier).standing = s.standing := by
  funext i
  rw [standing, standing, notify, List.getElem?_map]
  cases s.calls[i]? with
  | none => rfl
  | some c =>
    simp only [map_some]
    split <;> rfl

/-- The mutexes are held by those at the head of their queues. -/
structure Locked (s : State) : Prop where
  holder : ∀ i k, s.standing i = some (k, .holding) → (s.queue k).head? = some i
  mem_iff : ∀ i k, i ∈ s.queue k ↔
    s.standing i = some (k, .queued) ∨ s.standing i = some (k, .holding)
  nodup : ∀ k, (s.queue k).Nodup

theorem Locked.init : State.init.Locked := by
  refine ⟨fun i k hi => ?_, fun i k => ⟨fun hi => ?_, ?_⟩, fun k => nodup_nil⟩
  · cases hi
  · cases hi
  · rintro (hi | hi) <;> cases hi

theorem Locked.congr (h : s.Locked) (hqueue : t.queue = s.queue)
    (hstanding : t.standing = s.standing) : t.Locked := by
  refine ⟨fun i k hi => ?_, fun i k => ?_, fun k => ?_⟩
  · rw [hqueue]
    exact h.holder i k (hstanding ▸ hi)
  · rw [hqueue, hstanding]
    exact h.mem_iff i k
  · rw [hqueue]
    exact h.nodup k

section Moves

variable (h : s.Locked) {k : Kind}
include h

theorem Locked.not_mem {k' : Kind} {place : Place} (hi : s.standing i = some (k, place))
    (hk : k' ≠ k) : i ∉ s.queue k' := by
  rw [h.mem_iff, hi]
  rintro (heq | heq) <;> cases heq <;> exact hk rfl

/-- Call `i` gets a new place, and the queue of one kind changes with it. -/
theorem Locked.update {new : Option (Kind × Place)} {q : List Nat}
    (hqueue : t.queue = update s.queue k q)
    (hstanding : t.standing = update s.standing i new)
    (hother : ∀ k' ≠ k, i ∉ s.queue k' ∧ new ≠ some (k', .queued) ∧ new ≠ some (k', .holding))
    (hi : i ∈ q ↔ new = some (k, .queued) ∨ new = some (k, .holding))
    (hmem : ∀ j ≠ i, j ∈ q ↔ j ∈ s.queue k) (hhead : new = some (k, .holding) → q.head? = some i)
    (hheads : ∀ j ≠ i, (s.queue k).head? = some j → q.head? = some j) (hnodup : q.Nodup) :
    t.Locked := by
  refine ⟨fun j k' hj => ?_, fun j k' => ?_, fun k' => ?_⟩
  · rw [hstanding, update_apply] at hj
    rw [hqueue, update_apply]
    by_cases hji : j = i
    · grind
    · rw [if_neg hji] at hj
      split
      · next hk => exact hheads j hji (hk ▸ h.holder j k' hj)
      · exact h.holder j k' hj
  · rw [hqueue, hstanding, update_apply, update_apply]
    by_cases hji : j = i
    · grind
    · rw [if_neg hji, ← h.mem_iff]
      split
      · next hk => exact hk ▸ hmem j hji
      · rfl
  · rw [hqueue, update_apply]
    split
    · exact hnodup
    · exact h.nodup k'

theorem Locked.outside {old new : Option (Kind × Place)} (hi : s.standing i = old)
    (hold : ∀ k, old ≠ some (k, .queued) ∧ old ≠ some (k, .holding))
    (hnew : ∀ k, new ≠ some (k, .queued) ∧ new ≠ some (k, .holding))
    (hqueue : t.queue = s.queue) (hstanding : t.standing = Function.update s.standing i new) :
    t.Locked := by
  have hnot : ∀ k, i ∉ s.queue k := fun k => by
    rw [h.mem_iff, hi]
    exact not_or.mpr (hold k)
  refine h.update (k := .datagram) (hqueue.trans (update_eq_self _ _).symm) hstanding
    (fun k' _ => ⟨hnot k', hnew k'⟩) (iff_of_false (hnot _) (not_or.mpr (hnew _)))
    (fun _ _ => Iff.rfl) (fun heq => absurd heq (hnew _).2) (fun _ _ hhead => hhead) (h.nodup _)

theorem Locked.join (hi : s.standing i = some (k, .outside))
    (hqueue : t.queue = Function.update s.queue k (s.queue k ++ [i]))
    (hstanding : t.standing = Function.update s.standing i (some (k, .queued))) : t.Locked := by
  have hnot : i ∉ s.queue k := by
    rw [h.mem_iff, hi]
    rintro (heq | heq) <;> cases heq
  refine h.update hqueue hstanding (fun k' hk => ⟨h.not_mem hi hk, ?_, by simp⟩) (by simp) ?_
    (nofun) (fun j _ hhead => by rw [head?_append, hhead]; rfl) ?_
  · rintro ⟨⟩
    exact hk rfl
  · intro j hji
    rw [mem_append, mem_singleton, or_iff_left hji]
  · exact concat_eq_append ▸ (h.nodup k).concat hnot

theorem Locked.acquire (hi : s.standing i = some (k, .queued))
    (hhead : (s.queue k).head? = some i) (hqueue : t.queue = s.queue)
    (hstanding : t.standing = Function.update s.standing i (some (k, .holding))) : t.Locked := by
  refine h.update (hqueue.trans (update_eq_self _ _).symm) hstanding
    (fun k' hk => ⟨h.not_mem hi hk, by simp, ?_⟩)
    (iff_of_true ((h.mem_iff i k).mpr (.inl hi)) (.inr rfl)) (fun _ _ => Iff.rfl)
    (fun _ => hhead) (fun _ _ hhead => hhead) (h.nodup k)
  rintro ⟨⟩
  exact hk rfl

theorem Locked.leave (hi : s.standing i = some (k, .holding))
    (hqueue : t.queue = Function.update s.queue k (s.queue k).tail)
    (hstanding : t.standing = Function.update s.standing i (some (k, .done))) : t.Locked := by
  have hhead := h.holder i k hi
  obtain ⟨rest, hrest⟩ := head?_eq_some_iff.mp hhead
  have hnodup := h.nodup k
  rw [hrest, nodup_cons] at hnodup
  rw [hrest, tail_cons] at hqueue
  refine h.update hqueue hstanding (fun k' hk => ⟨h.not_mem hi hk, by simp, by simp⟩)
    (iff_of_false hnodup.1 (by simp)) (fun j hji => ?_) (nofun)
    (fun j hji hheadj => ?_) hnodup.2
  · rw [hrest, mem_cons, or_iff_right hji]
  · -- the lock has one holder
    rw [hhead] at hheadj
    exact absurd (Option.some.inj hheadj).symm hji

end Moves

theorem Locked.effect (h : s.Locked) (hc : s.calls[i]? = some c) (heffect : CallEffect s i c t) :
    t.Locked := by
  have hi := standing_of_getElem? hc
  unfold Call.standing at hi
  cases heffect with
  | shift phase wake hshift =>
    refine h.congr rfl ?_
    rw [standing_put hc, Call.standing, hshift.place_eq, ← hi]
    exact update_eq_self ..
  | skip hplace =>
    rw [hplace] at hi
    exact h.outside hi (fun _ => by constructor <;> nofun) (fun _ => by constructor <;> nofun) rfl
      (standing_put hc _)
  | join hplace =>
    rw [hplace] at hi
    exact h.join hi rfl (standing_put hc _)
  | acquire phase hlocking hhead hphase =>
    rw [hlocking] at hi
    refine h.acquire hi hhead rfl ?_
    rw [standing_put hc]
    rcases hphase with rfl | rfl <;> rfl
  | leave item items hplace =>
    rw [hplace] at hi
    exact h.leave hi rfl (standing_put hc _)

theorem Locked.step (h : s.Locked) (hstep : Step s op t) : t.Locked := by
  cases op with
  | issue kind =>
    cases hstep
    have hi : s.standing s.calls.length = none := by
      rw [standing, getElem?_eq_none le_rfl]
      rfl
    have hnew : State.standing { s with calls := s.calls ++ [⟨kind, .arrived, .none⟩] } =
        Function.update s.standing s.calls.length (some (kind, .outside)) := by
      funext j
      rw [standing, getElem?_concat, update_apply]
      split <;> rfl
    exact h.outside hi (fun _ => ⟨nofun, nofun⟩) (fun _ => by constructor <;> nofun) rfl hnew
  | call i recvFirst =>
    obtain ⟨c, hc, hadvance⟩ := bind_eq_some_iff.mp hstep
    exact h.effect hc (advance_effect hadvance)
  | store | disconnect | remove =>
    cases hstep
    exact h.congr rfl rfl
  | closer j =>
    obtain ⟨closer, -, hring⟩ := bind_eq_some_iff.mp hstep
    cases closer with
    | stored | capacityRung =>
      cases hring
      exact h.congr rfl (standing_notify ..)
    | done => cases hring
  | credit =>
    cases hstep
    exact h.congr rfl (standing_notify ..)
  | send kind item =>
    obtain ⟨-, ht⟩ := ite_none_right_eq_some.mp hstep
    cases ht
    exact h.congr rfl rfl

end State

end WebTransportBun.Native.Lifecycle
