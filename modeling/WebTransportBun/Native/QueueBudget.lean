/-
  WebTransportBun.Native.QueueBudget

  The byte budget of a native server: `StreamBudget` in `crates/native/src/client_stream.rs`,
  `reserve_datagram_capacity` in `session_registry.rs` and the counters of
  `server_metrics.rs`.  A request draws on the global counter, on its session's and, for a
  stream, on the stream's own.

  Every call is a task, and one step of a task is one update of one counter, or the code
  between two of them.  Times are milliseconds.  The statistics counters are left out.
-/

import Mathlib.Data.List.Nodup
import WebTransportBun.Library.Budget
import WebTransportBun.Library.Notify
import WebTransportBun.Library.Run
import WebTransportBun.Native.Config

namespace WebTransportBun.Native.QueueBudget

open Library List Option Function Nat

inductive Tier
  | global
  | session (id : Nat)
  | stream (id : Nat)
  deriving DecidableEq, Repr

abbrev Counters := Tier → Nat

/-- The limit of a tier, a `u64`. -/
def maxBytes (limits : Limits) : Tier → Nat
  | .global => limits.maxQueuedBytesGlobal % 2 ^ 64
  | .session _ => limits.maxQueuedBytesPerSession % 2 ^ 64
  | .stream _ => limits.maxQueuedBytesPerStream % 2 ^ 64

theorem maxBytes_lt (limits : Limits) (tier : Tier) : maxBytes limits tier < 2 ^ 64 := by
  cases tier <;> exact mod_lt _ (by decide)

def budgetPollInterval : Nat := 50

/-- The closure given to `fetch_update`: `checked_add`, then the limit. -/
def fetchUpdate (max n current : Nat) : Option Nat :=
  (if current + n < 2 ^ 64 then some (current + n) else none).filter (· ≤ max)

theorem fetchUpdate_eq {max : Nat} (hmax : max < 2 ^ 64) (n current : Nat) :
    fetchUpdate max n current = if current + n ≤ max then some (current + n) else none := by
  unfold fetchUpdate
  by_cases hfits : current + n ≤ max
  · rw [if_pos (lt_of_le_of_lt hfits hmax)]
    simp [hfits]
  · rw [if_neg hfits]
    split
    · simp [Nat.lt_of_not_le hfits]
    · rfl

/-- A reservation that is asked for.  Datagrams have no stream; `waits` tells the calls that
    park from those that give up at once. -/
structure Request where
  session : Nat
  stream : Option Nat
  bytes : Nat
  waits : Bool
  deriving DecidableEq, Repr

/-- The calls of `reserve_datagram_capacity`. -/
def Request.IsDatagramSend (r : Request) : Prop := r.stream = none ∧ r.waits = true

instance (r : Request) : Decidable r.IsDatagramSend := inferInstanceAs (Decidable (_ ∧ _))

/-- The counters in the order in which they are updated. -/
def Request.tiers (r : Request) : List Tier :=
  [.global, .session r.session] ++ r.stream.toList.map .stream

theorem Request.nodup_tiers (r : Request) : r.tiers.Nodup := by
  cases hstream : r.stream <;> simp [Request.tiers, hstream]

/-- No tier's limit is below the request. -/
def Request.Fits (limits : Limits) (r : Request) : Prop :=
  ∀ tier ∈ r.tiers, r.bytes ≤ maxBytes limits tier

instance (limits : Limits) (r : Request) : Decidable (r.Fits limits) :=
  inferInstanceAs (Decidable (∀ _ ∈ _, _))

/-- `try_reserve` and `try_reserve_queued_bytes_with_session`, with nothing in between: the
    counters afterwards, if the attempt succeeds.  A refused attempt takes back what it took. -/
def tryReserve (limits : Limits) (n : Nat) : List Tier → Counters → Option Counters
  | [], c => some c
  | tier :: tiers, c =>
    match fetchUpdate (maxBytes limits tier) n (c tier) with
    | some next => tryReserve limits n tiers (update c tier next)
    | none => none

theorem tryReserve_eq (limits : Limits) (n : Nat) (tiers : List Tier) (c : Counters) :
    tryReserve limits n tiers c = reserve (maxBytes limits) n tiers c := by
  induction tiers generalizing c with
  | nil => rfl
  | cons tier tiers ih =>
    rw [tryReserve, reserve, fetchUpdate_eq (maxBytes_lt limits tier)]
    by_cases hfits : c tier + n ≤ maxBytes limits tier
    · rw [if_pos hfits, if_pos hfits]
      exact ih _
    · rw [if_neg hfits, if_neg hfits]

/-! ## Tasks -/

inductive Result
  | released
  | timedOut
  | closed
  | refused
  | dropped
  deriving DecidableEq, Repr

/-- Where a call stands.  `taken` are the counters that carry its bytes, the last one first. -/
inductive Phase
  /-- At the head of the loop. -/
  | arrived
  /-- An attempt; `wait` is set in the second attempt of a stream, before it parks. -/
  | reserving (wait : Option Nat) (taken todo : List Tier)
  /-- The attempt was refused and is taken back. -/
  | undoing (wait : Option Nat) (taken : List Tier)
  /-- A datagram looks once more whether its session was closed. -/
  | confirming (taken : List Tier)
  | suspended (wakeAt : Nat)
  | held (taken : List Tier)
  | releasing (taken : List Tier) (result : Result)
  | ended (result : Result)
  deriving DecidableEq, Repr

def Phase.taken : Phase → List Tier
  | .reserving _ taken _ | .undoing _ taken | .confirming taken | .held taken
  | .releasing taken _ => taken
  | .arrived | .suspended _ | .ended _ => []

structure Task where
  request : Request
  deadline : Nat
  wake : Wake
  phase : Phase
  deriving DecidableEq, Repr

def Task.hold (t : Task) : Hold Tier := ⟨t.phase.taken, t.request.bytes⟩

/-- A task has taken the first counters of its request, and all of them when it holds the
    reservation. -/
def Task.Ordered (t : Task) : Prop :=
  match t.phase with
  | .reserving _ taken todo => taken.reverse ++ todo = t.request.tiers
  | .confirming taken | .held taken => taken.reverse = t.request.tiers
  | .undoing _ taken | .releasing taken _ => taken.reverse <+: t.request.tiers
  | .arrived | .suspended _ | .ended _ => True

structure State where
  counters : Counters
  /-- `lifecycle_closed` of the sessions. -/
  closed : List Nat
  tasks : List Task
  now : Nat

def State.init : State := ⟨fun _ => 0, [], [], 0⟩

inductive Op
  /-- A call.  A stream's deadline is computed at its start, a datagram's by its caller. -/
  | call (request : Request) (deadline : Nat)
  /-- The next step of a task. -/
  | step (i : Nat)
  /-- The owner of a reservation gives it back. -/
  | release (i : Nat)
  /-- A parked call is abandoned by its caller. -/
  | drop (i : Nat)
  | close (session : Nat)
  | tick (now : Nat)
  deriving DecidableEq, Repr

namespace State

def put (s : State) (i : Nat) (t : Task) : State := { s with tasks := s.tasks.set i t }

/-- `notify_waiters` at the end of a release: a stream wakes the waiters on its own notifier,
    a datagram those of every session. -/
def notify (s : State) (r : Request) : State :=
  { s with tasks := s.tasks.map fun t =>
      if t.request.stream = r.stream then { t with wake := t.wake.notify } else t }

def refused (s : State) (t : Task) (wait : Option Nat) : Task :=
  if !t.request.waits then { t with phase := .ended .refused }
  else
    match t.request.stream, wait with
    | some _, none =>
      if t.deadline ≤ s.now then { t with phase := .ended .timedOut }
      else
        { t with
          wake := .registered
          phase := .reserving (some (min (t.deadline - s.now) budgetPollInterval)) []
            t.request.tiers }
    | some _, some wait => { t with phase := .suspended (s.now + wait) }
    | none, _ =>
      if t.deadline ≤ s.now then { t with phase := .ended .timedOut }
      else { t with phase := .suspended t.deadline }

section

variable (limits : Limits)

def advance (s : State) (i : Nat) (t : Task) : Option State :=
  match t.phase with
  | .arrived =>
    if t.request.IsDatagramSend ∧ t.request.session ∈ s.closed then
      some (s.put i { t with phase := .ended .closed })
    else
      -- a datagram registers before it looks; a stream only before its second attempt
      some (s.put i { t with
        wake := if t.request.IsDatagramSend then .registered else .none
        phase := .reserving none [] t.request.tiers })
  | .reserving wait taken (tier :: todo) =>
    match fetchUpdate (maxBytes limits tier) t.request.bytes (s.counters tier) with
    | some next =>
      some { s.put i { t with phase := .reserving wait (tier :: taken) todo } with
        counters := update s.counters tier next }
    | none => some (s.put i { t with phase := .undoing wait taken })
  | .reserving _ taken [] =>
    if t.request.IsDatagramSend then some (s.put i { t with phase := .confirming taken })
    else some (s.put i { t with phase := .held taken })
  | .undoing wait (tier :: taken) =>
    some { s.put i { t with phase := .undoing wait taken } with
      counters := update s.counters tier (s.counters tier - t.request.bytes) }
  | .undoing wait [] => some (s.put i (s.refused t wait))
  | .confirming taken =>
    if t.request.session ∈ s.closed then
      some (s.put i { t with phase := .releasing taken .closed })
    else some (s.put i { t with phase := .held taken })
  | .suspended wakeAt =>
    -- a timeout looks at its future before it looks at the clock
    if t.wake = .notified then some (s.put i { t with wake := .none, phase := .arrived })
    else if s.now < wakeAt then none
    else if t.request.stream = none then
      some (s.put i { t with
        phase := .ended (if t.request.session ∈ s.closed then .closed else .timedOut) })
    else some (s.put i { t with wake := .none, phase := .arrived })
  | .held _ => none
  | .releasing (tier :: taken) result =>
    some { s.put i { t with phase := .releasing taken result } with
      counters := update s.counters tier (s.counters tier - t.request.bytes) }
  | .releasing [] result =>
    some ((s.put i { t with wake := .none, phase := .ended result }).notify t.request)
  | .ended _ => none

def exec (s : State) : Op → Option State
  | .call request deadline =>
    let deadline :=
      if request.stream = none then deadline else s.now + limits.backpressureTimeoutMs
    some { s with tasks := s.tasks ++ [⟨request, deadline, .none, .arrived⟩] }
  | .step i => s.tasks[i]?.bind (s.advance limits i)
  | .release i => s.tasks[i]?.bind fun t =>
    match t.phase with
    | .held taken => some (s.put i { t with phase := .releasing taken .released })
    | _ => none
  | .drop i => s.tasks[i]?.bind fun t =>
    match t.phase with
    | .suspended _ => some (s.put i { t with wake := .none, phase := .ended .dropped })
    | _ => none
  | .close session => some { s with closed := session :: s.closed }
  | .tick now => if now < s.now then none else some { s with now }

def Step (s : State) (op : Op) (t : State) : Prop := s.exec limits op = some t

end

/-! ## What a step does to the counters -/

variable {limits : Limits} {s s' : State} {op : Op}

def holds (s : State) : List (Hold Tier) := s.tasks.map Task.hold

inductive Effect (limits : Limits) (s s' : State) : Prop
  | quiet (hcounters : s'.counters = s.counters) (hholds : s'.holds = s.holds)
  | joined (n : Nat) (hcounters : s'.counters = s.counters)
      (hholds : s'.holds = s.holds ++ [⟨[], n⟩])
  | took (i : Nat) (tier : Tier) (taken : List Tier) (n : Nat)
      (hhold : s.holds[i]? = some ⟨taken, n⟩) (hfits : s.counters tier + n ≤ maxBytes limits tier)
      (hcounters : s'.counters = update s.counters tier (s.counters tier + n))
      (hholds : s'.holds = s.holds.set i ⟨tier :: taken, n⟩)
  | gave (i : Nat) (tier : Tier) (taken : List Tier) (n : Nat)
      (hhold : s.holds[i]? = some ⟨tier :: taken, n⟩)
      (hcounters : s'.counters = update s.counters tier (s.counters tier - n))
      (hholds : s'.holds = s.holds.set i ⟨taken, n⟩)

theorem holds_put (s : State) (i : Nat) (t : Task) : (s.put i t).holds = s.holds.set i t.hold :=
  map_set ..

variable {i : Nat} {t : Task}

theorem getElem?_holds (ht : s.tasks[i]? = some t) : s.holds[i]? = some t.hold := by
  rw [holds, getElem?_map, ht]
  rfl

theorem holds_put_same {u : Task} (ht : s.tasks[i]? = some t)
    (hhold : u.hold = t.hold) : (s.put i u).holds = s.holds := by
  obtain ⟨hi, hsame⟩ := List.getElem?_eq_some_iff.mp (getElem?_holds ht)
  rw [holds_put, hhold, ← hsame]
  exact set_getElem_self hi

section

variable (s : State)

theorem holds_notify (r : Request) : (s.notify r).holds = s.holds := by
  unfold holds notify
  rw [List.map_map]
  refine map_congr_left fun t _ => ?_
  rw [comp_apply]
  split <;> rfl

theorem hold_refused (t : Task) (wait : Option Nat) :
    (s.refused t wait).hold = ⟨[], t.request.bytes⟩ := by
  unfold refused
  split
  · rfl
  · split
    · split <;> rfl
    · rfl
    · split <;> rfl

def Ordered : Prop := ∀ t ∈ s.tasks, t.Ordered

theorem ordered_refused (t : Task) (wait : Option Nat) :
    (s.refused t wait).Ordered := by
  unfold refused
  split
  · trivial
  · split
    · split
      · trivial
      · rfl
    · trivial
    · split <;> trivial

end

theorem Ordered.put (h : s.Ordered) (ht : t.Ordered) : (s.put i t).Ordered := by
  intro u hu
  rcases mem_or_eq_of_mem_set hu with hu | rfl
  · exact h u hu
  · exact ht

theorem Ordered.notify (h : s.Ordered) (r : Request) : (s.notify r).Ordered := by
  intro u hu
  obtain ⟨w, hw, rfl⟩ := mem_map.mp hu
  have hordered : w.Ordered := h w hw
  split <;> exact hordered

theorem advance_effect (ht : s.tasks[i]? = some t) (h : s.advance limits i t = some s') :
    Effect limits s s' ∧ (s.Ordered → s'.Ordered) := by
  have hhold := getElem?_holds ht
  have hordered : s.Ordered → t.Ordered := fun hs => hs t (mem_of_getElem? ht)
  unfold Task.hold at hhold
  -- a task that moves on and keeps what it holds
  have hmove : ∀ {u : Task}, u.phase.taken = t.phase.taken → u.request = t.request →
      (t.Ordered → u.Ordered) → Effect limits s (s.put i u) ∧
        (s.Ordered → (s.put i u).Ordered) := by
    intro u htaken hrequest hu
    refine ⟨.quiet rfl (holds_put_same ht ?_), fun hs => hs.put (hu (hordered hs))⟩
    rw [Task.hold, Task.hold, htaken, hrequest]
  unfold advance at h
  unfold Task.Ordered at hordered hmove
  cases hphase : t.phase with
  | arrived => grind [Phase.taken]
  | reserving wait taken todo =>
    cases todo with
    | nil =>
      simp only [hphase, append_nil] at h hmove
      split at h <;> cases h <;> exact hmove rfl rfl id
    | cons tier todo =>
      simp only [hphase, Phase.taken] at h hmove hhold hordered
      rw [fetchUpdate_eq (maxBytes_lt limits tier)] at h
      by_cases hfits : s.counters tier + t.request.bytes ≤ maxBytes limits tier
      · rw [if_pos hfits] at h
        cases h
        refine ⟨.took i tier taken _ hhold hfits rfl (holds_put ..), fun hs => hs.put ?_⟩
        show (tier :: taken).reverse ++ todo = _
        rw [reverse_cons, append_assoc]
        exact hordered hs
      · grind
  | undoing wait taken =>
    cases taken with
    | nil =>
      simp only [hphase] at h
      cases h
      refine ⟨.quiet rfl (holds_put_same ht ?_), fun hs => hs.put (ordered_refused ..)⟩
      rw [hold_refused, Task.hold, hphase]
      rfl
    | cons tier taken =>
      simp only [hphase, reverse_cons] at h hhold hordered
      cases h
      exact ⟨.gave i tier taken _ hhold rfl (holds_put ..),
        fun hs => hs.put ((prefix_append ..).trans (hordered hs))⟩
  | confirming taken => grind [Phase.taken]
  | suspended wakeAt =>
    simp only [hphase] at h hmove
    split at h
    · cases h
      exact hmove rfl rfl id
    · split at h
      · cases h
      · split at h <;> cases h <;> exact hmove rfl rfl id
  | held taken =>
    simp only [hphase] at h
    cases h
  | releasing taken result =>
    cases taken with
    | nil =>
      simp only [hphase] at h
      cases h
      refine ⟨.quiet rfl ?_, fun hs => Ordered.notify (hs.put ?_) _⟩
      · rw [holds_notify]
        refine holds_put_same ht ?_
        rw [Task.hold, Task.hold, hphase]
        rfl
      · trivial
    | cons tier taken =>
      simp only [hphase, reverse_cons] at h hhold hordered
      cases h
      exact ⟨.gave i tier taken _ hhold rfl (holds_put ..),
        fun hs => hs.put ((prefix_append ..).trans (hordered hs))⟩
  | ended result =>
    simp only [hphase] at h
    cases h

theorem exec_effect (h : s.exec limits op = some s') :
    Effect limits s s' ∧ (s.Ordered → s'.Ordered) := by
  cases op with
  | call request deadline =>
    cases h
    refine ⟨.joined request.bytes rfl ?_, fun hs => forall_mem_append.mpr ⟨hs, ?_⟩⟩
    · rw [holds, map_append]
      rfl
    · exact forall_mem_singleton.mpr trivial
  | step i =>
    obtain ⟨t, ht, hadvance⟩ := bind_eq_some_iff.mp h
    exact advance_effect ht hadvance
  | release i =>
    obtain ⟨t, ht, hrelease⟩ := bind_eq_some_iff.mp h
    split at hrelease
    · next taken hphase =>
      cases hrelease
      refine ⟨.quiet rfl (holds_put_same ht ?_), fun hs => hs.put ?_⟩
      · rw [Task.hold, Task.hold, hphase]
        rfl
      · have hheld := hs t (mem_of_getElem? ht)
        rw [Task.Ordered, hphase] at hheld
        exact ⟨[], (append_nil _).trans hheld⟩
    · cases hrelease
  | drop i =>
    obtain ⟨t, ht, hdrop⟩ := bind_eq_some_iff.mp h
    split at hdrop
    · next wakeAt hphase =>
      cases hdrop
      refine ⟨.quiet rfl (holds_put_same ht ?_), fun hs => hs.put trivial⟩
      rw [Task.hold, Task.hold, hphase]
      rfl
    · cases hdrop
  | close session =>
    cases h
    exact ⟨.quiet rfl rfl, id⟩
  | tick now =>
    obtain ⟨-, hs'⟩ := ite_none_left_eq_some.mp h
    cases hs'
    exact ⟨.quiet rfl rfl, id⟩

variable {ops : List Op}

section

variable (hrun : Run (Step limits) .init ops s)

include hrun

theorem ordered_of_run : s.Ordered :=
  hrun.invariant (fun _ _ _ hs hstep => (exec_effect hstep).2 hs) nofun

theorem balanced_of_run :
    Library.Balanced s.counters s.holds := by
  refine hrun.invariant (P := fun s => Library.Balanced s.counters s.holds) ?_ .nil
  intro s op s' hbalanced hstep
  rcases (exec_effect hstep).1 with ⟨hcounters, hholds⟩ | ⟨n, hcounters, hholds⟩ |
    ⟨i, tier, taken, n, hhold, -, hcounters, hholds⟩ |
    ⟨i, tier, taken, n, hhold, hcounters, hholds⟩
  · rw [hcounters, hholds]
    exact hbalanced
  · rw [hcounters, hholds]
    exact hbalanced.join n
  · rw [hcounters, hholds]
    exact hbalanced.take hhold
  · rw [hcounters, hholds]
    exact hbalanced.give hhold

theorem le_max_of_run :
    ∀ tier, s.counters tier ≤ maxBytes limits tier := by
  refine hrun.invariant (P := fun s => ∀ tier, s.counters tier ≤ maxBytes limits tier) ?_
    fun _ => zero_le _
  intro s op s' hle hstep k
  rcases (exec_effect hstep).1 with ⟨hcounters, -⟩ | ⟨n, hcounters, -⟩ |
    ⟨i, tier, taken, n, -, hfits, hcounters, -⟩ | ⟨i, tier, taken, n, -, hcounters, -⟩
  · exact hcounters ▸ hle k
  · exact hcounters ▸ hle k
  · rw [hcounters, update_apply]
    split
    · next hk => exact hk ▸ hfits
    · exact hle k
  · rw [hcounters, update_apply]
    split
    · next hk => exact le_trans (sub_le ..) (hk ▸ hle k)
    · exact hle k

end

/-- The reservations that are held in full. -/
def heldBytes (s : State) (tier : Tier) : Nat :=
  (s.tasks.map fun t => match t.phase with
    | .held _ => if tier ∈ t.request.tiers then t.request.bytes else 0
    | _ => 0).sum

/-- Those of the attempts that have passed a tier and have not given it back. -/
def passedBytes (s : State) (tier : Tier) : Nat :=
  (s.tasks.map fun t => match t.phase with
    | .held _ => 0
    | phase => if tier ∈ phase.taken then t.request.bytes else 0).sum

theorem prefix_taken (h : t.Ordered) : t.phase.taken.reverse <+: t.request.tiers := by
  unfold Task.Ordered at h
  cases hphase : t.phase <;> rw [hphase] at h
  case reserving => exact ⟨_, h⟩
  case confirming | held => exact ⟨[], (append_nil _).trans h⟩
  case undoing | releasing => exact h
  all_goals exact nil_prefix

theorem share_hold (h : t.Ordered) (tier : Tier) :
    t.hold.share tier = if tier ∈ t.phase.taken then t.request.bytes else 0 := by
  have hnodup : t.phase.taken.Nodup :=
    nodup_reverse.mp (t.request.nodup_tiers.sublist (prefix_taken h).sublist)
  show t.phase.taken.count tier * t.request.bytes = _
  rw [hnodup.count]
  split
  · exact one_mul _
  · exact zero_mul _

/-! ## Other reservations are released -/

theorem step_of_advance (ht : s.tasks[i]? = some t)
    (h : s.advance limits i t = some s') : Step limits s (.step i) s' := by
  show s.tasks[i]?.bind _ = _
  rw [ht]
  exact h

def Parked (s : State) (i : Nat) (r : Request) : Prop :=
  ∃ t wakeAt, s.tasks[i]? = some t ∧ t.request = r ∧ t.phase = .suspended wakeAt

/-- No task but `i` holds anything. -/
def Released (s : State) (i : Nat) : Prop :=
  ∀ j t, j ≠ i → s.tasks[j]? = some t → t.phase.taken = []

theorem counters_of_released (hrun : Run (Step limits) .init ops s)
    {r : Request} (hparked : s.Parked i r) (hreleased : s.Released i) (tier : Tier) :
    s.counters tier = 0 := by
  obtain ⟨t, wakeAt, ht, -, hphase⟩ := hparked
  refine (balanced_of_run hrun).eq_zero (fun hold hmem => ?_) tier
  obtain ⟨u, hu, rfl⟩ := mem_map.mp hmem
  obtain ⟨j, hj⟩ := mem_iff_getElem?.mp hu
  by_cases hij : j = i
  · rw [hij, ht] at hj
    cases hj
    show t.phase.taken = []
    rw [hphase]
    rfl
  · exact hreleased j u hij hj

/-- How many steps a phase is away from holding nothing. -/
def left : Phase → Nat
  | .reserving _ taken todo => taken.length + 2 * todo.length + 3
  | .confirming taken => taken.length + 2
  | .held taken => taken.length + 1
  | .undoing _ taken | .releasing taken _ => taken.length
  | .arrived | .suspended _ | .ended _ => 0

/-- What is left to do until nothing is held. -/
def debt (s : State) : Nat :=
  (s.tasks.map fun t => if t.phase.taken = [] then 0 else left t.phase).sum

/-- A task that holds something can move on towards its release. -/
theorem exists_step_left {j : Nat} (ht : s.tasks[j]? = some t) (hholds : t.phase.taken ≠ []) :
    ∃ op s' u, Step limits s op s' ∧ s'.tasks = s.tasks.set j u ∧ left u.phase < left t.phase := by
  have hgo :
      ∀ (c : Counters) (u : Task), s.advance limits j t = some { s.put j u with counters := c } →
      left u.phase < left t.phase →
      ∃ op s' u, Step limits s op s' ∧ s'.tasks = s.tasks.set j u ∧ left u.phase < left t.phase :=
    fun c u hadvance hlt => ⟨.step j, _, u, step_of_advance ht hadvance, rfl, hlt⟩
  unfold advance at hgo
  cases hphase : t.phase with
  | arrived | suspended | ended => simp [hphase, Phase.taken] at hholds
  | reserving wait taken todo =>
    cases todo with
    | nil =>
      simp only [hphase] at hgo
      refine hgo s.counters { t with
        phase := if t.request.IsDatagramSend then .confirming taken else .held taken } ?_ ?_
      · split <;> rfl
      · dsimp only
        split <;> simp [left]
    | cons tier todo =>
      cases hnext : fetchUpdate (maxBytes limits tier) t.request.bytes (s.counters tier) with
      | some next =>
        simp only [hphase, hnext] at hgo
        refine hgo _ { t with phase := .reserving wait (tier :: taken) todo } rfl ?_
        simp only [left, length_cons]
        omega
      | none =>
        simp only [hphase, hnext] at hgo
        refine hgo s.counters { t with phase := .undoing wait taken } rfl ?_
        simp only [left]
        omega
  | undoing wait taken =>
    cases taken with
    | nil => simp [hphase, Phase.taken] at hholds
    | cons tier taken =>
      simp only [hphase] at hgo
      exact hgo _ { t with phase := .undoing wait taken } rfl (lt_succ_self _)
  | confirming taken =>
    simp only [hphase] at hgo
    refine hgo s.counters { t with
      phase :=
        if t.request.session ∈ s.closed then .releasing taken .closed else .held taken } ?_ ?_
    · split <;> rfl
    · dsimp only
      split <;> simp [left]
  | held taken =>
    refine ⟨.release j, s.put j { t with phase := .releasing taken .released }, _, ?_, rfl,
      lt_succ_self _⟩
    show s.tasks[j]?.bind _ = _
    rw [ht]
    simp only [bind_some, hphase]
  | releasing taken result =>
    cases taken with
    | nil => simp [hphase, Phase.taken] at hholds
    | cons tier taken =>
      simp only [hphase] at hgo
      exact hgo _ { t with phase := .releasing taken result } rfl (lt_succ_self _)

/-- All other reservations can be released while task `i` stays parked. -/
theorem exists_released {r : Request} (hparked : s.Parked i r) :
    ∃ ops s', Run (Step limits) s ops s' ∧ s'.Parked i r ∧ s'.Released i := by
  induction hdebt : s.debt using Nat.strongRecOn generalizing s with
  | ind d ih =>
    by_cases hreleased : s.Released i
    · exact ⟨[], s, .nil s, hparked, hreleased⟩
    · unfold Released at hreleased
      push Not at hreleased
      obtain ⟨j, t, hji, ht, hholds⟩ := hreleased
      obtain ⟨op, s', u, hstep, htasks, hleft⟩ :
          ∃ op s' u, Step limits s op s' ∧ s'.tasks = s.tasks.set j u ∧
            left u.phase < left t.phase := exists_step_left ht hholds
      have hparked' : s'.Parked i r := by
        obtain ⟨p, wakeAt, hp, hrequest, hphase⟩ := hparked
        refine ⟨p, wakeAt, ?_, hrequest, hphase⟩
        rw [htasks, getElem?_set_ne hji, hp]
      have hlt : s'.debt < d := by
        have hsum := sum_map_set
          (fun t : Task => if t.phase.taken = [] then 0 else left t.phase) ht u
        rw [if_neg hholds] at hsum
        have hu : (if u.phase.taken = [] then 0 else left u.phase) ≤ left u.phase := by grind
        rw [← hdebt, debt, debt, htasks]
        omega
      obtain ⟨ops, s'', hrun, hdone⟩ := ih _ hlt hparked' rfl
      exact ⟨op :: ops, s'', (Run.single hstep).append hrun, hdone⟩

end State

open State

/-! ## Results -/

def write (bytes : Nat) : Request := ⟨0, some 0, bytes, true⟩

/-- In every run each counter is the sum of the reservations held in its scope and of those
    of the attempts that have passed it.  It stays within its limit, no step takes more from
    it than it has, and it is 0 when nothing is held. -/
theorem budget_conserved {limits : Limits} {ops : List Op} {s : State}
    (hrun : Run (Step limits) .init ops s) :
    (∀ tier, s.counters tier = s.heldBytes tier + s.passedBytes tier) ∧
      (∀ tier, s.counters tier ≤ maxBytes limits tier) ∧
      (∀ t ∈ s.tasks, ∀ tier ∈ t.phase.taken, t.request.bytes ≤ s.counters tier) ∧
      ((∀ t ∈ s.tasks, t.phase.taken = []) → ∀ tier, s.counters tier = 0) := by
  have hbalanced := balanced_of_run hrun
  have hordered := ordered_of_run hrun
  refine ⟨fun tier => ?_, le_max_of_run hrun, fun t ht tier htier => ?_, fun hnone => ?_⟩
  · rw [hbalanced tier, holds, List.map_map, heldBytes, passedBytes, ← sum_map_add]
    refine congrArg sum (map_congr_left fun t ht => ?_)
    rw [comp_apply, share_hold (hordered t ht)]
    have hheld := hordered t ht
    unfold Task.Ordered at hheld
    cases hphase : t.phase with
    | held taken =>
      simp only [hphase] at hheld
      have hscope : tier ∈ taken ↔ tier ∈ t.request.tiers := by rw [← hheld, mem_reverse]
      exact if_congr hscope rfl rfl
    | _ => exact (zero_add _).symm
  · obtain ⟨i, hi⟩ := mem_iff_getElem?.mp ht
    have hshare := hbalanced.share_le (getElem?_holds hi) tier
    rwa [share_hold (hordered t ht), if_pos htier] at hshare
  · refine hbalanced.eq_zero fun hold hmem => ?_
    obtain ⟨t, ht, rfl⟩ := mem_map.mp hmem
    exact hnone t ht

/-- A first write is held, a second one has passed the global counter. -/
theorem budget_conserved_two_writes :
    ∃ s, Run (Step {}) .init ([.call (write 204800) 0] ++ List.replicate 5 (.step 0) ++
        [.call (write 1000) 0, .step 1, .step 1]) s ∧
      s.counters .global = 205800 ∧ s.heldBytes .global + s.passedBytes .global = 205800 := by
  refine Run.exists_of_execAll (·.counters .global = 205800) (fun _ _ _ => id)
    (by decide +kernel) fun s hrun hglobal => ?_
  exact ⟨hglobal, (budget_conserved hrun).1 .global ▸ hglobal⟩

/-- A parked request that is no larger than any limit it falls under does not wait in vain:
    the other reservations can all be released, and whenever they are, the attempt succeeds. -/
theorem parked_request_fits {limits : Limits} {ops : List Op} {s : State}
    (hrun : Run (Step limits) .init ops s) {i : Nat} {r : Request} (hparked : s.Parked i r)
    (hfits : r.Fits limits) :
    (∃ ops' s', Run (Step limits) s ops' s' ∧ s'.Parked i r ∧ s'.Released i) ∧
      ∀ ops' s', Run (Step limits) s ops' s' → s'.Parked i r → s'.Released i →
        (tryReserve limits r.bytes r.tiers s'.counters).isSome := by
  refine ⟨exists_released hparked, fun ops' s' hrun' hparked' hreleased => ?_⟩
  rw [tryReserve_eq, reserve_isSome_iff r.nodup_tiers]
  intro tier htier
  rw [counters_of_released (hrun.append hrun') hparked' hreleased, zero_add]
  exact hfits tier htier

/-- Two writes of 200 KiB: the stream has room for one of them. -/
theorem parked_request_fits_second_write :
    ∃ s, Run (Step {}) .init ([.call (write 204800) 0] ++ List.replicate 5 (.step 0) ++
        [.call (write 204800) 0] ++ List.replicate 13 (.step 1)) s ∧
      s.Parked 1 (write 204800) ∧
      (∃ ops' s', Run (Step {}) s ops' s' ∧ s'.Parked 1 (write 204800) ∧ s'.Released 1) ∧
      ∀ ops' s', Run (Step {}) s ops' s' → s'.Parked 1 (write 204800) → s'.Released 1 →
        (tryReserve {} (write 204800).bytes (write 204800).tiers s'.counters).isSome := by
  refine Run.exists_of_execAll
    (·.tasks[1]? = some ⟨write 204800, 5000, .registered, .suspended 50⟩) (fun _ _ _ => id)
    (by decide +kernel) fun s hrun htask => ?_
  have hparked : s.Parked 1 (write 204800) := ⟨_, 50, htask, rfl, rfl⟩
  exact ⟨hparked, parked_request_fits hrun hparked (by decide +kernel)⟩

/-- With the default limits a write of 256 KiB and one byte can never fit its stream's budget,
    and yet it parks, on a server where nothing else is going on. -/
theorem oversized_write_parks :
    ∃ s, Run (Step {}) .init ([.call (write 262145) 0] ++ List.replicate 13 (.step 0)) s ∧
      s.Parked 0 (write 262145) ∧ s.Released 0 ∧
      ∀ c, tryReserve {} (write 262145).bytes (write 262145).tiers c = none := by
  refine Run.exists_of_execAll
    (·.tasks = [⟨write 262145, 5000, .registered, .suspended 50⟩]) (fun _ _ _ => id)
    (by decide +kernel) fun s _ htasks => ?_
  have hparked : s.Parked 0 (write 262145) := ⟨_, 50, by rw [htasks]; rfl, rfl, rfl⟩
  have hreleased : s.Released 0 := by
    intro j t hj ht
    rw [htasks] at ht
    cases j with
    | zero => exact absurd rfl hj
    | succ j => cases ht
  refine ⟨hparked, hreleased, fun c => ?_⟩
  rw [← not_isSome_iff_eq_none, tryReserve_eq, reserve_isSome_iff (Request.nodup_tiers _)]
  intro hroom
  have hstream := hroom (.stream 0) (by decide)
  have hlimit : maxBytes {} (.stream 0) = 262144 := by decide +kernel
  rw [show (write 262145).bytes = 262145 from rfl] at hstream
  omega

end WebTransportBun.Native.QueueBudget
