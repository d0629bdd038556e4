/-
  WebTransportBun.Native.LifecycleClose

  What a close does to the calls that receive on a session.  The closers' notifications
  reach every call that is registered; a call that looks at the flag later sees it set.  What
  is left between the two is the accept loops' step from their look at the flag to their
  registration.
-/

import Mathlib.Data.List.GetD
import WebTransportBun.Native.Lifecycle

namespace WebTransportBun.Native.Lifecycle

open Library List Option Function Nat Trace

/-! ## The close -/

/-- The notifications a closer has still to send. -/
def Closer.Owes : Closer → Notifier → Prop
  | .stored, _ => True
  | .capacityRung, notifier => notifier = .lifecycle
  | .done, _ => False

namespace State

variable {s t : State} {i j : Nat} {c : Call} {op : Op}

/-- What holds of a call with respect to the close, given what was rung and sent. -/
structure Told (rung : Notifier → Bool) (sent : Kind → List Nat) (c : Call) : Prop where
  enrolled : c.phase = .enrolled ∨ c.phase = .waiting → c.wake ≠ .none
  /-- After the notification nobody is about to register, and nobody sleeps. -/
  checked : rung c.kind.notifier = true → c.phase ≠ .checked
  waiting : rung c.kind.notifier = true → c.phase = .waiting → c.wake = .notified
  returned : ∀ item, c.phase = .returned (some item) → item ∈ sent c.kind
  accepts : c.phase = .checked → c.kind ≠ .datagram

structure Closing (s : State) : Prop where
  closers : s.closers ≠ [] → s.closed = true
  rung : ∀ notifier, s.rung notifier = true → s.closed = true
  owed : s.closed = true → ∀ notifier, s.rung notifier = true ∨
    ∃ (j : Nat) (closer : Closer), s.closers[j]? = some closer ∧ closer.Owes notifier
  items : ∀ kind, ∀ item ∈ s.items kind, item ∈ s.sent kind
  calls : ∀ c ∈ s.calls, Told s.rung s.sent c

theorem Closing.init : State.init.Closing where
  closers h := absurd rfl h
  rung notifier h := by cases h
  owed h := by cases h
  items kind item h := by cases h
  calls c h := by cases h

theorem Closing.put (h : s.Closing) (hc : Told s.rung s.sent c) : (s.put i c).Closing where
  closers := h.closers
  rung := h.rung
  owed := h.owed
  items := h.items
  calls c' hc' := by
    rcases mem_or_eq_of_mem_set hc' with hmem | rfl
    · exact h.calls c' hmem
    · exact hc

theorem Closing.leave (h : s.Closing) {item : Option Nat}
    (hitem : ∀ x, item = some x → x ∈ s.sent c.kind) : (s.leave i c item).Closing := by
  have hput : (s.put i { c with wake := .none, phase := .returned item }).Closing := by
    refine h.put ⟨?_, fun _ hphase => ?_, fun _ hphase => ?_, fun x hphase => ?_, fun hphase => ?_⟩
    · rintro (hphase | hphase) <;> cases hphase
    · cases hphase
    · cases hphase
    · cases hphase
      exact hitem x rfl
    · cases hphase
  exact { hput with }

theorem Told.of_phase {rung : Notifier → Bool} {sent : Kind → List Nat} {c : Call}
    (h₁ : c.phase ≠ .enrolled) (h₂ : c.phase ≠ .waiting) (h₃ : c.phase ≠ .checked)
    (h₄ : ∀ item, c.phase ≠ .returned (some item)) : Told rung sent c :=
  ⟨fun h => absurd h (not_or.mpr ⟨h₁, h₂⟩), fun _ => h₃, fun _ h => absurd h h₂,
    fun item h => absurd h (h₄ item), fun h => absurd h h₃⟩

section

variable (h : s.Closing)

include h

theorem Closing.join : (s.join i c).Closing := by
  have hput : (s.put i { c with phase := .locking }).Closing :=
    h.put (Told.of_phase nofun nofun nofun nofun)
  exact { hput with }

theorem Closing.skip : (s.skip i c).Closing :=
  h.put (Told.of_phase nofun nofun nofun nofun)

/-- What holds of a call after a step in its loop. -/
theorem Told.shift (hc : Told s.rung s.sent c) {phase : Phase} {wake : Wake}
    (hshift : Shift s.closed c.kind c.wake c.phase phase wake) :
    Told s.rung s.sent { c with phase, wake } := by
  -- with the flag clear nothing was rung
  have hclear : s.closed ≠ true → ∀ {notifier}, s.rung notifier = true → False :=
    fun hopen _ hrung => hopen (h.rung _ hrung)
  generalize hphase : c.phase = old at hshift
  cases hshift with
  | look | enter | retry | awake => exact Told.of_phase nofun nofun nofun nofun
  | enroll => exact ⟨fun _ => nofun, fun _ => nofun, fun _ => nofun, nofun, nofun⟩
  | check hopen hkind =>
    exact ⟨nofun, fun hrung => (hclear hopen hrung).elim, fun _ => nofun, nofun, fun _ => hkind⟩
  | register =>
    refine ⟨fun _ => nofun, fun _ => nofun, fun hrung => ?_, nofun, nofun⟩
    exact absurd hphase (hc.checked hrung)
  | sleep hopen =>
    exact ⟨fun _ => hc.enrolled (.inl hphase), fun _ => nofun,
      fun hrung => (hclear hopen hrung).elim, nofun, nofun⟩

theorem Closing.effect (hc : Told s.rung s.sent c)
    (heffect : CallEffect s i c t) : t.Closing := by
  cases heffect with
  | shift phase wake hshift => exact h.put (hc.shift h hshift)
  | skip => exact h.skip
  | join => exact h.join
  | acquire phase _ _ hphase =>
    rcases hphase with rfl | rfl <;> exact h.put (Told.of_phase nofun nofun nofun nofun)
  | leave item items _ hitem hitems =>
    have hleave := h.leave (i := i) fun x hx => h.items c.kind x (hitem x hx)
    exact ⟨hleave.closers, hleave.rung, hleave.owed,
      fun k x hx => h.items k x (hitems k x hx), hleave.calls⟩

end

variable {notifier : Notifier}

theorem mem_notify (hc : c ∈ (s.notify notifier).calls) :
    ∃ c' ∈ s.calls, c.kind = c'.kind ∧ c.phase = c'.phase ∧
      c.wake = if c.kind.notifier = notifier then c'.wake.notify else c'.wake := by
  obtain ⟨c', hmem, rfl⟩ := mem_map.mp hc
  refine ⟨c', hmem, ?_⟩
  by_cases hkind : c'.kind.notifier = notifier
  · simp [hkind]
  · simp [hkind]

theorem Told.notify (h : s.Closing) (hc : c ∈ (s.notify notifier).calls) :
    Told s.rung s.sent c := by
  obtain ⟨c', hmem, hkind, hphase, hwake⟩ := mem_notify hc
  have htold := h.calls c' hmem
  refine ⟨fun hor => ?_, fun hrung => ?_, fun hrung hwaiting => ?_, fun item hreturned => ?_,
    fun hchecked => ?_⟩
  · have hsome := htold.enrolled (hphase ▸ hor)
    rw [hwake]
    split
    · rw [Ne, Wake.notify_eq_none]
      exact hsome
    · exact hsome
  · rw [hphase]
    exact htold.checked (hkind ▸ hrung)
  · rw [hwake, htold.waiting (hkind ▸ hrung) (hphase ▸ hwaiting)]
    split <;> rfl
  · rw [hkind]
    exact htold.returned item (hphase ▸ hreturned)
  · rw [hkind]
    exact htold.accepts (hphase ▸ hchecked)

/-- A closer comes to a notifier while no call on it is about to register. -/
theorem Closing.ring (h : s.Closing) {closer closer' : Closer}
    (hclosed : s.closed = true) (hj : s.closers[j]? = some closer)
    (howes : ∀ n, n ≠ notifier → closer.Owes n → closer'.Owes n)
    (hnone : ∀ c ∈ s.calls, c.kind.notifier = notifier → c.phase ≠ .checked) :
    { s.notify notifier with
      closers := s.closers.set j closer'
      rung := update s.rung notifier true }.Closing where
  closers _ := hclosed
  rung _ _ := hclosed
  owed _ n := by
    by_cases hn : n = notifier
    · subst hn
      exact .inl (update_self ..)
    · rcases h.owed hclosed n with hrung | ⟨k, owing, hk, howing⟩
      · exact .inl ((update_of_ne hn ..).trans hrung)
      · refine .inr ?_
        by_cases hkj : k = j
        · grind [getElem?_set_self]
        · exact ⟨k, owing, (getElem?_set_ne (Ne.symm hkj)).trans hk, howing⟩
  items := h.items
  calls c hc := by
    have htold := Told.notify h hc
    obtain ⟨c', hmem, hkind, hphase, hwake⟩ := mem_notify hc
    refine ⟨htold.enrolled, fun hrung => ?_, fun hrung hwaiting => ?_, htold.returned,
      htold.accepts⟩
    · by_cases hn : c.kind.notifier = notifier
      · rw [hphase]
        exact hnone c' hmem (hkind ▸ hn)
      · exact htold.checked ((update_of_ne hn ..).symm.trans hrung)
    · by_cases hn : c.kind.notifier = notifier
      · have hregistered := (h.calls c' hmem).enrolled (.inr (hphase ▸ hwaiting))
        rw [hwake, if_pos hn]
        cases hold : c'.wake with
        | none => exact absurd hold hregistered
        | registered | notified => rfl
      · exact htold.waiting ((update_of_ne hn ..).symm.trans hrung) hwaiting

theorem mem_update_append {f : Kind → List Nat} {k k' : Kind} {x y : Nat} :
    x ∈ Function.update f k (f k ++ [y]) k' ↔ x ∈ f k' ∨ k' = k ∧ x = y := by
  by_cases hk : k' = k
  · subst hk
    simp
  · simp [hk]

theorem Closing.step (h : s.Closing) (hstep : restrict Seen Step s op t) : t.Closing := by
  obtain ⟨hseen, hstep⟩ := hstep
  cases op with
  | issue kind =>
    cases hstep
    refine { h with calls := ?_ }
    refine forall_mem_append.mpr ⟨h.calls, forall_mem_singleton.mpr ?_⟩
    exact Told.of_phase nofun nofun nofun nofun
  | call i recvFirst =>
    obtain ⟨c, hc, hadvance⟩ := bind_eq_some_iff.mp hstep
    exact h.effect (h.calls c (mem_of_getElem? hc)) (advance_effect hadvance)
  | store =>
    cases hstep
    refine ⟨fun _ => rfl, fun _ _ => rfl, fun _ notifier => .inr ?_, h.items, h.calls⟩
    exact ⟨s.closers.length, .stored, getElem?_concat_length, trivial⟩
  | closer j =>
    obtain ⟨closer, hj, hring⟩ := bind_eq_some_iff.mp hstep
    have hclosed : s.closed = true := by
      refine h.closers fun hnil => ?_
      rw [hnil] at hj
      cases hj
    cases closer with
    | stored =>
      cases hring
      refine h.ring hclosed hj (fun n hn _ => ?_) (fun c hc _ => hseen hj c hc)
      cases n with
      | capacity => exact absurd rfl hn
      | lifecycle => rfl
    | capacityRung =>
      cases hring
      refine h.ring hclosed hj (fun n hn howes => absurd howes hn) (fun c hc hkind hphase => ?_)
      have hdatagram := (h.calls c hc).accepts hphase
      cases hkind' : c.kind with
      | bidi | uni =>
        rw [hkind'] at hkind
        cases hkind
      | datagram => exact hdatagram hkind'
    | done => cases hring
  | credit =>
    cases hstep
    exact { h with calls := fun c hc => Told.notify (s := s) h hc }
  | send kind item =>
    obtain ⟨-, ht⟩ := ite_none_right_eq_some.mp hstep
    cases ht
    refine ⟨h.closers, h.rung, h.owed, fun k x hx => ?_, fun c hc => ?_⟩
    · rcases mem_update_append.mp hx with hold | hnew
      · exact mem_update_append.mpr (.inl (h.items k x hold))
      · exact mem_update_append.mpr (.inr hnew)
    · have htold := h.calls c hc
      exact ⟨htold.enrolled, htold.checked, htold.waiting,
        fun x hx => mem_update_append.mpr (.inl (htold.returned x hx)), htold.accepts⟩
  | disconnect | remove =>
    cases hstep
    exact { h with }

/-! ## Every call returns -/

def IsCall (i : Nat) (op : Op) : Prop := ∃ recvFirst, op = .call i recvFirst

theorem IsCall.effect (hop : IsCall i op) (hstep : Step s op t) (hc : s.calls[i]? = some c) :
    CallEffect s i c t := by
  obtain ⟨recvFirst, rfl⟩ := hop
  obtain ⟨c', hc', hadvance⟩ := bind_eq_some_iff.mp hstep
  cases hc.symm.trans hc'
  exact advance_effect hadvance

/-- A step of others leaves a call where it is; it may be notified. -/
theorem call_of_other (hstep : Step s op t) (hop : ¬ IsCall i op) (hc : s.calls[i]? = some c) :
    ∃ wake, t.calls[i]? = some { c with wake } := by
  have hnotify : ∀ notifier, ∃ wake, (s.notify notifier).calls[i]? = some { c with wake } := by
    intro notifier
    rw [State.notify, getElem?_map, hc]
    by_cases hkind : c.kind.notifier = notifier
    · exact ⟨c.wake.notify, by simp [hkind]⟩
    · exact ⟨c.wake, by simp [hkind]⟩
  cases op with
  | issue kind =>
    cases hstep
    obtain ⟨hlt, -⟩ := List.getElem?_eq_some_iff.mp hc
    exact ⟨c.wake, (getElem?_append_left hlt).trans hc⟩
  | call j recvFirst =>
    obtain ⟨c', hc', hadvance⟩ := bind_eq_some_iff.mp hstep
    have hji : j ≠ i := fun hji => hop ⟨recvFirst, congrArg (Op.call · recvFirst) hji⟩
    have hset : ∃ new, t.calls = s.calls.set j new := by
      cases advance_effect hadvance <;> exact ⟨_, rfl⟩
    obtain ⟨new, hset⟩ := hset
    exact ⟨c.wake, by rw [hset, getElem?_set_ne hji, hc]⟩
  | store | disconnect | remove =>
    cases hstep
    exact ⟨c.wake, hc⟩
  | closer j =>
    obtain ⟨closer, -, hring⟩ := bind_eq_some_iff.mp hstep
    cases closer with
    | stored | capacityRung =>
      cases hring
      exact hnotify _
    | done => cases hring
  | credit =>
    cases hstep
    exact hnotify _
  | send kind item =>
    obtain ⟨-, ht⟩ := ite_none_right_eq_some.mp hstep
    cases ht
    exact ⟨c.wake, hc⟩

variable {k : Kind}

/-- As long as the holder of a lock does not move, its queue only grows. -/
theorem queue_of_other (h : s.Locked) (hstep : Step s op t)
    (hhead : (s.queue k).head? = some i) (hop : ¬ IsCall i op) : s.queue k <+: t.queue k := by
  cases op with
  | call j recvFirst =>
    obtain ⟨c, hc, hadvance⟩ := bind_eq_some_iff.mp hstep
    have hji : j ≠ i := fun hji => hop ⟨recvFirst, congrArg (Op.call · recvFirst) hji⟩
    cases advance_effect hadvance with
    | shift | skip | acquire => exact prefix_rfl
    | join hplace =>
      show s.queue k <+: update s.queue c.kind (s.queue c.kind ++ [j]) k
      by_cases hk : k = c.kind
      · grind
      · exact (update_of_ne hk _ _).symm ▸ prefix_rfl
    | leave item items hplace =>
      have hholds : s.standing j = some (c.kind, .holding) := by
        rw [standing_of_getElem? hc, Call.standing, hplace]
      have hk : k ≠ c.kind := by
        rintro rfl
        exact hji (some.inj ((h.holder j c.kind hholds).symm.trans hhead))
      show s.queue k <+: update s.queue c.kind (s.queue c.kind).tail k
      exact (update_of_ne hk _ _).symm ▸ prefix_rfl
  | issue | store | credit | disconnect | remove =>
    cases hstep
    exact prefix_rfl
  | closer j =>
    obtain ⟨closer, -, hring⟩ := bind_eq_some_iff.mp hstep
    cases closer with
    | stored | capacityRung =>
      cases hring
      exact prefix_rfl
    | done => cases hring
  | send kind item =>
    obtain ⟨-, ht⟩ := ite_none_right_eq_some.mp hstep
    cases ht
    exact prefix_rfl

/-- What was closed and rung stays so. -/
theorem flags_of_step (hstep : Step s op t) : (s.closed = true → t.closed = true) ∧
      ∀ notifier, s.rung notifier = true → t.rung notifier = true := by
  cases op with
  | call j recvFirst =>
    obtain ⟨c, hc, hadvance⟩ := bind_eq_some_iff.mp hstep
    cases advance_effect hadvance <;> exact ⟨id, fun _ => id⟩
  | store =>
    cases hstep
    exact ⟨fun _ => rfl, fun _ => id⟩
  | issue | credit | disconnect | remove =>
    cases hstep
    exact ⟨id, fun _ => id⟩
  | closer j =>
    obtain ⟨closer, -, hring⟩ := bind_eq_some_iff.mp hstep
    have hupdate : ∀ notifier notifier', s.rung notifier' = true →
        update s.rung notifier true notifier' = true := by
      intro notifier notifier' hrung
      by_cases hn : notifier' = notifier
      · subst hn
        exact update_self ..
      · exact (update_of_ne hn ..).trans hrung
    cases closer with
    | stored | capacityRung =>
      cases hring
      exact ⟨id, hupdate _⟩
    | done => cases hring
  | send kind item =>
    obtain ⟨-, ht⟩ := ite_none_right_eq_some.mp hstep
    cases ht
    exact ⟨id, fun _ => id⟩

end State

/-- How many steps the call at the head of a queue is away from its return, after the close. -/
def Phase.rank : Phase → Nat
  | .locking => 6
  | .entered | .trying | .waiting => 5
  | .heading | .checked => 4
  | .enrolled => 3
  | .looked => 1
  | .arrived => 2
  | .returned _ => 0

namespace State

variable {s t : State} {i j : Nat} {c : Call} {op : Op}

/-- The call's next step brings it closer to its return, and does not cost it its lock. -/
def Nearer (s : State) (i : Nat) (c : Call) (t : State) : Prop :=
  t.queue = s.queue ∧
    ∃ phase wake, t.calls[i]? = some { c with phase, wake } ∧ phase.rank < c.phase.rank

/-- The call has returned and has passed on the lock. -/
def Left (s : State) (i : Nat) (c : Call) (t : State) : Prop :=
  t.queue c.kind = (s.queue c.kind).tail ∧ t.standing i = some (c.kind, .done)

section

variable (hc : s.calls[i]? = some c)

include hc

theorem getElem?_put_self (c' : Call) :
    (s.put i c').calls[i]? = some c' := by
  obtain ⟨hi, -⟩ := List.getElem?_eq_some_iff.mp hc
  exact getElem?_set_self hi

theorem nearer_put {phase : Phase} {wake : Wake}
    (hrank : phase.rank < c.phase.rank) : s.Nearer i c (s.put i { c with phase, wake }) :=
  ⟨rfl, phase, wake, getElem?_put_self hc _, hrank⟩

theorem left_leave (item : Option Nat) (items : Kind → List Nat) :
    s.Left i c { s.leave i c item with items } := by
  refine ⟨update_self .., ?_⟩
  exact (congrFun (standing_put hc _) i).trans (update_self ..)

end

/-- After the close, a call in a queue that takes a step returns or comes closer to it. -/
theorem effect_of_rung (hclosed : s.closed = true) (hc : s.calls[i]? = some c)
    (htold : Told s.rung s.sent c) (hrung : s.rung c.kind.notifier = true)
    (hplace : c.phase.place = .queued ∨ c.phase.place = .holding)
    (heffect : CallEffect s i c t) : s.Left i c t ∨ s.Nearer i c t := by
  have houtside : c.phase.place ≠ .outside := by grind
  cases heffect with
  | shift phase wake hshift =>
    refine .inr (nearer_put hc ?_)
    generalize hphase : c.phase = old at hshift
    cases hshift with
    | look =>
      rw [hphase] at houtside
      exact absurd rfl houtside
    | enter hopen | check hopen | sleep hopen => exact absurd hclosed hopen
    | register => exact absurd hphase (htold.checked hrung)
    | retry | enroll | awake => decide
  | skip hout | join hout => exact absurd hout houtside
  | acquire phase hlocking _ hphase =>
    refine .inr (nearer_put hc ?_)
    rw [hlocking]
    rcases hphase with rfl | rfl <;> decide
  | leave item items => exact .inl (left_leave hc item items)

/-- A call can take a step unless it waits for the lock or for a notification, or is done. -/
theorem enabled_of_ready (hc : s.calls[i]? = some c) (hdone : c.phase.place ≠ .done)
    (hlock : c.phase = .locking → (s.queue c.kind).head? = some i)
    (hwait : c.phase = .waiting → c.wake = .notified) : Enabled Step (IsCall i) s := by
  have hsome : (s.advance i c false).isSome := by
    unfold advance
    cases hphase : c.phase with
    | locking => simp only [if_pos (hlock hphase), isSome_some]
    | looked | entered | enrolled =>
      simp only
      split <;> rfl
    | trying => simp only [isSome_or, isSome_some, Bool.or_true]
    | arrived | heading => grind
    | checked => rfl
    | waiting =>
      simp only [if_pos (hwait hphase)]
      split <;> simp
    | returned =>
      rw [hphase] at hdone
      exact absurd rfl hdone
  obtain ⟨t, ht⟩ := isSome_iff_exists.mp hsome
  refine ⟨.call i false, t, ⟨false, rfl⟩, ?_⟩
  show s.calls[i]?.bind _ = _
  rw [hc]
  exact ht

/-- The close has reached the calls of kind `k`. -/
structure Settled (k : Kind) (s : State) : Prop where
  locked : s.Locked
  closing : s.Closing
  rung : s.rung k.notifier = true

theorem Settled.step (h : s.Settled k) (hseen : s.Seen op) (hstep : Step s op t) :
    t.Settled k :=
  ⟨h.locked.step hstep, h.closing.step ⟨hseen, hstep⟩, (flags_of_step hstep).2 _ h.rung⟩

theorem Settled.call (h : s.Settled k) (hmem : i ∈ s.queue k) :
    ∃ c, s.calls[i]? = some c ∧ c.kind = k ∧
      (c.phase.place = .queued ∨ c.phase.place = .holding) ∧ Told s.rung s.sent c := by
  have hplaces := (h.locked.mem_iff i k).mp hmem
  have hstands :
      ∃ place, s.standing i = some (k, place) ∧ (place = .queued ∨ place = .holding) := by grind
  obtain ⟨place, hstanding, hplace⟩ := hstands
  obtain ⟨c, hc, heq⟩ := map_eq_some_iff.mp hstanding
  obtain ⟨hkind, hphase⟩ := Prod.mk.inj heq
  exact ⟨c, hc, hkind, hphase ▸ hplace, h.closing.calls c (mem_of_getElem? hc)⟩

variable {σ : Trace Step} {k : Kind} {n p : Nat}

/-- The head of a queue gives way to those behind it. -/
theorem head_leaves {head : Nat} (hseen : σ.Meets Seen) (hfair : σ.Fair (IsCall head))
    (hsettled : (σ.state n).Settled k) (hhead : ((σ.state n).queue k).head? = some head)
    (hi : ((σ.state n).queue k)[p]? = some i) : ∃ m ≥ n, (σ.state m).Settled k ∧
      (p = 0 ∧ (σ.state m).standing i = some (k, .done) ∨
        ∃ q, p = q + 1 ∧ ((σ.state m).queue k)[q]? = some i) := by
  refine eventually_while hfair hseen (I := fun _ => True)
    (P := fun s => s.Settled k ∧ (s.queue k).head? = some head ∧ (s.queue k)[p]? = some i)
    (Q := fun s => s.Settled k ∧ (p = 0 ∧ s.standing i = some (k, .done) ∨
      ∃ q, p = q + 1 ∧ (s.queue k)[q]? = some i))
    (fun s => s.calls[head]?.elim 0 (·.phase.rank)) ?_ ?_ (fun _ _ => trivial)
    ⟨hsettled, hhead, hi⟩
  · rintro s op t ⟨hsettled, hhead, hi⟩ - hok hstep
    have hsettled' := hsettled.step hok hstep
    obtain ⟨c, hc, hkind, hplace, htold⟩ := hsettled.call (mem_of_head? hhead)
    subst hkind
    by_cases hop : IsCall head op
    · have hclosed := hsettled.closing.rung _ hsettled.rung
      rcases effect_of_rung hclosed hc htold hsettled.rung hplace (hop.effect hstep hc) with
        ⟨hqueue, hdone⟩ | ⟨hqueue, phase, wake, hmoved, hrank⟩
      · refine .inl ⟨hsettled', ?_⟩
        obtain ⟨rest, hrest⟩ := head?_eq_some_iff.mp hhead
        rw [hrest] at hi hqueue
        cases p with
        | zero =>
          cases hi
          exact .inl ⟨rfl, hdone⟩
        | succ q => exact .inr ⟨q, rfl, hqueue ▸ hi⟩
      · grind
    · obtain ⟨wake, hsame⟩ := call_of_other hstep hop hc
      obtain ⟨more, hmore⟩ := queue_of_other hsettled.locked hstep hhead hop
      refine .inr ⟨⟨hsettled', ?_, ?_⟩, ?_, fun hcall => absurd hcall hop⟩
      · rw [← hmore, head?_append, hhead]
        rfl
      · rw [← hmore, List.getElem?_append_left (List.getElem?_eq_some_iff.mp hi).1, hi]
      · rw [hsame, hc]
        exact le_rfl
  · rintro s ⟨hsettled, hhead, -⟩
    obtain ⟨c, hc, hkind, hplace, htold⟩ := hsettled.call (mem_of_head? hhead)
    subst hkind
    refine enabled_of_ready hc ?_ (fun _ => hhead) (htold.waiting hsettled.rung)
    rcases hplace with hplace | hplace <;> rw [hplace] <;> decide

/-- So every call in a queue returns, by induction on its position. -/
theorem queued_returns (hseen : σ.Meets Seen) (hfair : ∀ i, σ.Fair (IsCall i))
    (hsettled : (σ.state n).Settled k) (hi : ((σ.state n).queue k)[p]? = some i) :
    ∃ m ≥ n, (σ.state m).Settled k ∧ (σ.state m).standing i = some (k, .done) := by
  induction p generalizing n with
  | zero =>
    have hhead : ((σ.state n).queue k).head? = some i := by
      rw [head?_eq_getElem?]
      exact hi
    obtain ⟨m, hm, hsettled', ⟨-, hdone⟩ | ⟨q, hq, -⟩⟩ :=
      head_leaves hseen (hfair i) hsettled hhead hi
    · exact ⟨m, hm, hsettled', hdone⟩
    · cases hq
  | succ p ih =>
    have hne : (σ.state n).queue k ≠ [] := by grind
    obtain ⟨m, hm, hsettled', ⟨hzero, -⟩ | ⟨q, hq, hi'⟩⟩ :=
      head_leaves hseen (hfair _) hsettled (head?_eq_some_head hne) hi
    · cases hzero
    · grind

/-- What the next step of a call outside the queues does. -/
theorem effect_outside (hc : s.calls[i]? = some c) (hplace : c.phase.place = .outside)
    (heffect : CallEffect s i c t) :
    t.standing i = some (c.kind, .done) ∨ i ∈ t.queue c.kind ∨
      t.standing i = some (c.kind, .outside) ∧ s.Nearer i c t := by
  cases heffect with
  | skip => exact .inl ((congrFun (standing_put hc _) i).trans (update_self ..))
  | join =>
    refine .inr (.inl ?_)
    show i ∈ update s.queue c.kind (s.queue c.kind ++ [i]) c.kind
    rw [update_self]
    exact mem_append_right _ (mem_singleton_self i)
  | shift phase wake hshift =>
    refine .inr (.inr ⟨?_, nearer_put hc ?_⟩)
    · rw [standing_put hc, update_self, Call.standing, hshift.place_eq, hplace]
    · generalize c.phase = old at hshift hplace
      cases hshift with
      | look => decide
      | _ => cases hplace
  | acquire phase hlocking =>
    rw [hlocking] at hplace
    cases hplace
  | leave _ _ hholding =>
    rw [hholding] at hplace
    cases hplace

/-- A call that has not queued up yet returns or does so. -/
theorem outside_moves (hseen : σ.Meets Seen) (hfair : σ.Fair (IsCall i))
    (hsettled : (σ.state n).Settled k) (hi : (σ.state n).standing i = some (k, .outside)) :
    ∃ m ≥ n, (σ.state m).Settled k ∧
      ((σ.state m).standing i = some (k, .done) ∨ i ∈ (σ.state m).queue k) := by
  refine eventually_while hfair hseen (I := fun _ => True)
    (P := fun s => s.Settled k ∧ s.standing i = some (k, .outside))
    (Q := fun s => s.Settled k ∧ (s.standing i = some (k, .done) ∨ i ∈ s.queue k))
    (fun s => s.calls[i]?.elim 0 (·.phase.rank)) ?_ ?_ (fun _ _ => trivial) ⟨hsettled, hi⟩
  · rintro s op t ⟨hsettled, hi⟩ - hok hstep
    have hsettled' := hsettled.step hok hstep
    obtain ⟨c, hc, heq⟩ := map_eq_some_iff.mp hi
    obtain ⟨hkind, hplace⟩ := Prod.mk.inj heq
    subst hkind
    by_cases hop : IsCall i op
    · rcases effect_outside hc hplace (hop.effect hstep hc) with
        hdone | hjoined | ⟨houtside, -, phase, wake, hmoved, hrank⟩
      · exact .inl ⟨hsettled', .inl hdone⟩
      · exact .inl ⟨hsettled', .inr hjoined⟩
      · grind
    · obtain ⟨wake, hsame⟩ := call_of_other hstep hop hc
      refine .inr ⟨⟨hsettled', ?_⟩, ?_, fun hcall => absurd hcall hop⟩
      · rw [standing_of_getElem? hsame, Call.standing, hplace]
      · rw [hsame, hc]
        exact le_rfl
  · rintro s ⟨-, hi⟩
    obtain ⟨c, hc, heq⟩ := map_eq_some_iff.mp hi
    have hplace := (Prod.mk.inj heq).2
    refine enabled_of_ready hc ?_ (fun hphase => ?_) fun hphase => ?_
    · rw [hplace]
      decide
    all_goals
      rw [hphase] at hplace
      cases hplace

/-- A call never changes its kind. -/
theorem kind_of_step (hstep : Step s op t) (hi : ∃ place, s.standing i = some (k, place)) :
    ∃ place, t.standing i = some (k, place) := by
  obtain ⟨place, hi⟩ := hi
  obtain ⟨c, hc, heq⟩ := map_eq_some_iff.mp hi
  obtain ⟨rfl, rfl⟩ := Prod.mk.inj heq
  by_cases hop : IsCall i op
  · have hput : ∀ phase wake, ∃ place,
        (s.put i { c with phase, wake }).standing i = some (c.kind, place) := fun phase wake =>
      ⟨phase.place, standing_of_getElem? (getElem?_put_self hc _)⟩
    cases hop.effect hstep hc with
    | shift | skip | acquire => exact hput _ _
    | join => exact hput .locking c.wake
    | leave item => exact hput (.returned item) .none
  · obtain ⟨wake, hsame⟩ := call_of_other hstep hop hc
    exact ⟨_, (standing_of_getElem? hsame).trans rfl⟩

/-- Wherever a call stands when the close has reached it, it returns. -/
theorem settled_returns (hseen : σ.Meets Seen) (hfair : ∀ i, σ.Fair (IsCall i))
    (hsettled : (σ.state n).Settled k) {place : Place}
    (hi : (σ.state n).standing i = some (k, place)) :
    ∃ m ≥ n, (σ.state m).Settled k ∧ (σ.state m).standing i = some (k, .done) := by
  have hqueued : ∀ m ≥ n, (σ.state m).Settled k → i ∈ (σ.state m).queue k →
      ∃ m' ≥ n, (σ.state m').Settled k ∧ (σ.state m').standing i = some (k, .done) := by
    intro m hm hsettled hmem
    obtain ⟨p, hp⟩ := mem_iff_getElem?.mp hmem
    obtain ⟨m', hm', hdone⟩ := queued_returns hseen hfair hsettled hp
    exact ⟨m', le_trans hm hm', hdone⟩
  cases place with
  | outside =>
    obtain ⟨m, hm, hsettled', hdone | hmem⟩ := outside_moves hseen (hfair i) hsettled hi
    · exact ⟨m, hm, hsettled', hdone⟩
    · exact hqueued m hm hsettled' hmem
  | queued =>
    exact hqueued n (le_refl n) hsettled ((hsettled.locked.mem_iff i k).mpr (.inl hi))
  | holding =>
    exact hqueued n (le_refl n) hsettled ((hsettled.locked.mem_iff i k).mpr (.inr hi))
  | done => exact ⟨n, le_refl n, hsettled, hi⟩

/-- How many notifications a closer is away from being done. -/
def ringRank (j : Nat) (s : State) : Nat :=
  s.closers[j]?.elim 0 fun closer => if closer = .stored then 2 else 1

theorem closer_of_other {closer : Closer} (hstep : Step s op t) (hop : op ≠ .closer j)
    (hj : s.closers[j]? = some closer) : t.closers[j]? = some closer := by
  cases op with
  | call i recvFirst =>
    obtain ⟨c, hc, hadvance⟩ := bind_eq_some_iff.mp hstep
    cases advance_effect hadvance <;> exact hj
  | store =>
    cases hstep
    obtain ⟨hlt, -⟩ := List.getElem?_eq_some_iff.mp hj
    exact (getElem?_append_left hlt).trans hj
  | issue | credit | disconnect | remove =>
    cases hstep
    exact hj
  | closer j' =>
    obtain ⟨closer', -, hring⟩ := bind_eq_some_iff.mp hstep
    have hne : j' ≠ j := fun heq => hop (congrArg _ heq)
    cases closer' with
    | stored | capacityRung =>
      cases hring
      exact (getElem?_set_ne hne).trans hj
    | done => cases hring
  | send kind item =>
    obtain ⟨-, ht⟩ := ite_none_right_eq_some.mp hstep
    cases ht
    exact hj

/-- A close that has begun comes to the notifier. -/
theorem rung_eventually (notifier : Notifier) (hseen : σ.Meets Seen)
    (hfair : ∀ j, σ.Fair (· = .closer j)) (hlocked : (σ.state n).Locked)
    (hclosing : (σ.state n).Closing) (hclosed : (σ.state n).closed = true) :
    ∃ m ≥ n, (σ.state m).Locked ∧ (σ.state m).Closing ∧ (σ.state m).rung notifier = true := by
  rcases hclosing.owed hclosed notifier with hrung | ⟨j, closer, hj, howes⟩
  · exact ⟨n, le_refl n, hlocked, hclosing, hrung⟩
  · refine eventually_while (hfair j) hseen (I := fun _ => True)
      (P := fun s => s.Locked ∧ s.Closing ∧
        ∃ closer, s.closers[j]? = some closer ∧ closer.Owes notifier)
      (Q := fun s => s.Locked ∧ s.Closing ∧ s.rung notifier = true) (ringRank j) ?_ ?_
      (fun _ _ => trivial) ⟨hlocked, hclosing, closer, hj, howes⟩
    · rintro s op t ⟨hlocked, hclosing, closer, hj, howes⟩ - hok hstep
      have hlocked' := hlocked.step hstep
      have hclosing' := hclosing.step ⟨hok, hstep⟩
      by_cases hop : op = .closer j
      · subst hop
        obtain ⟨closer', hj', hring⟩ := bind_eq_some_iff.mp hstep
        obtain rfl := some.inj (hj.symm.trans hj')
        obtain ⟨hlt, -⟩ := List.getElem?_eq_some_iff.mp hj
        cases closer with
        | stored =>
          cases hring
          cases notifier with
          | capacity => exact .inl ⟨hlocked', hclosing', rfl⟩
          | lifecycle =>
            refine .inr ⟨⟨hlocked', hclosing', .capacityRung, getElem?_set_self hlt, rfl⟩, ?_⟩
            rw [ringRank, ringRank, hj, getElem?_set_self hlt]
            exact ⟨le_succ 1, fun _ => lt_succ_self 1⟩
        | capacityRung =>
          cases hring
          cases howes
          exact .inl ⟨hlocked', hclosing', rfl⟩
        | done => exact howes.elim
      · have hsame := closer_of_other hstep hop hj
        refine .inr ⟨⟨hlocked', hclosing', closer, hsame, howes⟩, ?_,
          fun hcloser => absurd hcloser hop⟩
        exact le_of_eq (by rw [ringRank, ringRank, hsame, hj])
    · rintro s ⟨-, -, closer, hj, howes⟩
      have hsome : (s.ring j closer).isSome := by
        cases closer with
        | stored | capacityRung => rfl
        | done => exact howes.elim
      obtain ⟨t, ht⟩ := isSome_iff_exists.mp hsome
      refine ⟨.closer j, t, rfl, ?_⟩
      show s.closers[j]?.bind _ = _
      rw [hj]
      exact ht

end State

open State

/-- If no close comes to the accept loops' notifier between a call's look at the flag and its
    registration, then every call that is pending at the close or issued later returns `None`
    or an item that was sent. -/
theorem calls_end_with_session {σ : Trace Step} (hstart : σ.state 0 = .init)
    (hseen : σ.Meets Seen) (hcalls : ∀ i, σ.Fair (IsCall i))
    (hclosers : ∀ j, σ.Fair (· = .closer j)) {n i : Nat} {c : Call}
    (hclosed : (σ.state n).closed = true) (hc : (σ.state n).calls[i]? = some c) :
    ∃ m ≥ n, ∃ c' item, (σ.state m).calls[i]? = some c' ∧ c'.phase = .returned item ∧
      ∀ x, item = some x → x ∈ (σ.state m).sent c'.kind := by
  have hinv : ∀ m, (σ.state m).Locked ∧ (σ.state m).Closing := by
    intro m
    refine (σ.restricted hseen).invariant (P := fun s => s.Locked ∧ s.Closing) ?_
      (zero_le m) ?_
    · rintro s op t ⟨hlocked, hclosing⟩ hstep
      exact ⟨hlocked.step hstep.2, hclosing.step hstep⟩
    · show (σ.state 0).Locked ∧ (σ.state 0).Closing
      rw [hstart]
      exact ⟨Locked.init, Closing.init⟩
  obtain ⟨m, hm, hlocked, hclosing, hrung⟩ :=
    rung_eventually c.kind.notifier hseen hclosers (hinv n).1 (hinv n).2 hclosed
  have hsettled : (σ.state m).Settled c.kind := ⟨hlocked, hclosing, hrung⟩
  obtain ⟨place, hi⟩ : ∃ place, (σ.state m).standing i = some (c.kind, place) :=
    σ.invariant (fun _ _ _ h hstep => kind_of_step hstep h) hm ⟨_, standing_of_getElem? hc⟩
  obtain ⟨m', hm', hsettled', hdone⟩ := settled_returns hseen hcalls hsettled hi
  obtain ⟨c', hc', heq⟩ := map_eq_some_iff.mp hdone
  obtain ⟨-, hplace⟩ := Prod.mk.inj heq
  have htold := hsettled'.closing.calls c' (mem_of_getElem? hc')
  cases hphase : c'.phase with
  | returned item =>
    refine ⟨m', le_trans hm hm', c', item, hc', hphase, fun x hx => ?_⟩
    exact htold.returned x (hx ▸ hphase)
  | arrived | looked | locking | entered | trying | heading | checked | enrolled | waiting =>
    rw [hphase] at hplace
    cases hplace

/-! ## Two runs -/

variable {s : State}

theorem exec_remove_self (h : s.present = false) : s.exec .remove = some s := by
  show some { s with present := false } = some s
  rw [← h]

theorem not_enabled_call (hone : s.calls.length = 1)
    (hnone : ∀ recvFirst, (s.exec (.call 0 recvFirst)).isNone) (i : Nat) :
    ¬ Enabled Step (IsCall i) s := by
  rintro ⟨op, t, ⟨recvFirst, rfl⟩, hstep⟩
  cases i with
  | zero =>
    have hnone := hnone recvFirst
    rw [show s.exec (.call 0 recvFirst) = some t from hstep] at hnone
    cases hnone
  | succ i =>
    obtain ⟨c, hc, -⟩ := bind_eq_some_iff.mp hstep
    obtain ⟨hlt, -⟩ := List.getElem?_eq_some_iff.mp hc
    omega

theorem not_enabled_closer (hdone : ∀ closer ∈ s.closers, closer = .done) (j : Nat) :
    ¬ Enabled Step (· = .closer j) s := by
  rintro ⟨op, t, rfl, hstep⟩
  obtain ⟨closer, hj, hring⟩ := bind_eq_some_iff.mp hstep
  rw [hdone closer (mem_of_getElem? hj)] at hring
  cases hring

/-- `close_session` without another closer: `mark_state_closed_and_notify` runs before and
    after the session leaves the registry. -/
def closeSession : List Op :=
  [.store, .closer 0, .closer 0, .remove, .store, .closer 1, .closer 1]

def closedWaiting (n : Nat) : Op :=
  ([.issue .bidi] ++ replicate 5 (.call 0 false) ++ closeSession ++
    replicate 2 (.call 0 false) : List Op).getD n .remove

theorem calls_end_with_session_waiting :
    ∃ σ : Trace Step, σ.state 0 = .init ∧ (σ.state 6).calls = [⟨.bidi, .waiting, .registered⟩] ∧
      ∃ m ≥ 7, ∃ c' item, (σ.state m).calls[0]? = some c' ∧ c'.phase = .returned item ∧
        ∀ x, item = some x → x ∈ (σ.state m).sent c'.kind := by
  have hls : ∀ n ≥ 15, closedWaiting n = .remove := fun n hn =>
    getD_eq_default _ _ hn
  have hloop : exec (following exec closedWaiting .init 15) .remove = some _ :=
    exec_remove_self (by decide +kernel)
  refine ⟨follow (fun _ _ _ => id) closedWaiting .init, rfl, by decide +kernel, ?_⟩
  refine calls_end_with_session rfl (follow_meets fun n => ?_) (fun i => ?_) (fun j => ?_)
    (by decide +kernel) (c := ⟨.bidi, .waiting, .registered⟩) (by decide +kernel)
  · have hfew : ∀ k < 15, (following exec closedWaiting .init k).Seen (closedWaiting k) := by
      decide +kernel
    by_cases hn : n < 15
    · exact hfew n hn
    · rw [hls n (Nat.le_of_not_lt hn)]
      exact trivial
  · exact follow_fair_of_not_enabled hls hloop
      (not_enabled_call (by decide +kernel) (by decide +kernel) i)
  · exact follow_fair_of_not_enabled hls hloop (not_enabled_closer (by decide +kernel) j)

/-- The session is closed after an accept call has looked at the flag and before it registers. -/
def closedUnseen (n : Nat) : Op :=
  ([.issue .bidi] ++ replicate 4 (.call 0 false) ++ closeSession ++
    [.call 0 false] : List Op).getD n .remove

/-- Both rounds of notifications fall into that gap: the call registers after them and waits
    for ever, for a session that is closed and gone. -/
theorem accept_outlives_close :
    ∃ σ : Trace Step, σ.state 0 = .init ∧ (∀ i, σ.Fair (IsCall i)) ∧
      (∀ j, σ.Fair (· = .closer j)) ∧ (σ.state 12).closed = true ∧
      (σ.state 12).present = false ∧ (σ.state 12).closers = [.done, .done] ∧
      ∀ m ≥ 13, (σ.state m).calls = [⟨.bidi, .waiting, .registered⟩] := by
  have hls : ∀ n ≥ 13, closedUnseen n = .remove := fun n hn =>
    getD_eq_default _ _ hn
  have hloop : exec (following exec closedUnseen .init 13) .remove = some _ :=
    exec_remove_self (by decide +kernel)
  refine ⟨follow (fun _ _ _ => id) closedUnseen .init, rfl, fun i => ?_, fun j => ?_,
    by decide +kernel, by decide +kernel, by decide +kernel, fun m hm => ?_⟩
  · exact follow_fair_of_not_enabled hls hloop
      (not_enabled_call (by decide +kernel) (by decide +kernel) i)
  · exact follow_fair_of_not_enabled hls hloop (not_enabled_closer (by decide +kernel) j)
  · show (following _ closedUnseen State.init m).calls = _
    rw [following_stay (same_of_loop hls hloop) hm]
    decide +kernel

end WebTransportBun.Native.Lifecycle
