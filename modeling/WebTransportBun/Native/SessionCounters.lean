/-
  WebTransportBun.Native.SessionCounters

  The session counters while calls overlap.  `RateLimit` has each call as one step; here
  a call is the sequence of its steps on single map entries, and the steps of all calls
  interleave.  The counters are exact as long as every release is that of an acquired
  session (`session_counters_exact`); a release for another address of the prefix takes a session
  out of the count of the prefix (`stray_release_undercounts`).
-/

import WebTransportBun.Library.Budget
import WebTransportBun.Library.Run
import WebTransportBun.Native.RateLimit

namespace WebTransportBun.Native.SessionCounters

open Library RateLimit Function List Option

/-! ## Calls -/

/-- An entry of `PER_IP_SESSIONS` or of `PER_PREFIX_SESSIONS`. -/
inductive Slot
  | perIp (key : Key)
  | perPrefix (key : Key)
  deriving DecidableEq, Repr

/-- The step a call takes next.  What is left to give back is done when the list is empty. -/
inductive Phase
  | takeIp
  | takePrefix
  | held
  | giving (slots : List Slot)
  | removing (slot : Slot) (slots : List Slot)
  deriving DecidableEq, Repr

/-- A call, or the session that a call acquired. -/
structure Call where
  server : Nat
  ip : IpAddr
  phase : Phase
  deriving DecidableEq, Repr

structure State where
  counters : Slot → Option Nat := fun _ => none
  calls : List Call := []

/-- A call begins, or call `i` takes its next step. -/
inductive Op
  | acquire (server : Nat) (ip : IpAddr)
  | release (server : Nat) (ip : IpAddr)
  | advance (i : Nat)
  deriving DecidableEq, Repr

def limit (limits : Nat → ServerLimits) : Slot → Nat
  | .perIp key => burstOr 40 (limits key.1).handshakesBurstPerIp
  | .perPrefix key => burstOr 100 (limits key.1).handshakesBurstPerPrefix

/-! ## Steps -/

/-- `entry`, `or_insert_with` and the `fetch_update` of an acquisition. -/
def tryTake (burst : Nat) (taken refused : Phase) (entry : Option Nat) : Option Nat × Phase :=
  let n := entry.getD 0
  if n < burst then (some (n + 1), taken) else (some n, refused)

/-- `get` and the `fetch_update` of `release_per_ip_session_inner` and of
    `release_per_prefix_session_inner`. -/
def give (slot : Slot) (slots : List Slot) : Option Nat → Option Nat × Phase
  | none => (none, .giving slots)
  | some n => (some (n - 1), if n ≤ 1 then .removing slot slots else .giving slots)

def removeIfZero (slots : List Slot) (entry : Option Nat) : Option Nat × Phase :=
  (entry.filter (· ≠ 0), .giving slots)

namespace Call

variable (c : Call)

def ipSlot : Slot := .perIp (c.server, c.ip)

def prefixSlot : Slot := .perPrefix (c.server, ipPrefix c.ip)

/-- The entry of the next step, and what the step does to it and to the call.  A session
    that is held and a call that is done take none. -/
def next (limits : Nat → ServerLimits) : Option (Slot × (Option Nat → Option Nat × Phase)) :=
  match c.phase with
  | .takeIp => some (c.ipSlot, tryTake (limit limits c.ipSlot) .takePrefix (.giving []))
  | .takePrefix =>
    some (c.prefixSlot, tryTake (limit limits c.prefixSlot) .held (.giving [c.ipSlot]))
  | .held => none
  | .giving [] => none
  | .giving (slot :: slots) => some (slot, give slot slots)
  | .removing slot slots => some (slot, removeIfZero slots)

end Call

/-- A release is that of the first session of the address; if there is none, the call runs
    all the same. -/
def step (limits : Nat → ServerLimits) (s : State) : Op → Option State
  | .acquire server ip => some { s with calls := s.calls ++ [⟨server, ip, .takeIp⟩] }
  | .release server ip =>
    let c : Call := ⟨server, ip, .held⟩
    let call := { c with phase := .giving [c.ipSlot, c.prefixSlot] }
    match s.calls.idxOf? c with
    | some i => some { s with calls := s.calls.set i call }
    | none => some { s with calls := s.calls ++ [call] }
  | .advance i => do
    let c ← s.calls[i]?
    let (slot, access) ← c.next limits
    let (entry, phase) := access (s.counters slot)
    some ⟨update s.counters slot entry, s.calls.set i { c with phase }⟩

/-- A release is called when a session of the address closes. -/
def ReleasesSession (s : State) : Op → Prop
  | .release server ip => ⟨server, ip, .held⟩ ∈ s.calls
  | _ => True

instance (s : State) : DecidablePred (ReleasesSession s)
  | .acquire _ _ => inferInstanceAs (Decidable True)
  | .release _ _ => inferInstanceAs (Decidable (_ ∈ _))
  | .advance _ => inferInstanceAs (Decidable True)

/-! ## What a call holds -/

/-- The entries that count a call. -/
def Call.holds (c : Call) : List Slot :=
  match c.phase with
  | .takeIp => []
  | .takePrefix => [c.ipSlot]
  | .held => [c.prefixSlot, c.ipSlot]
  | .giving slots => slots
  | .removing _ slots => slots

def Call.AtRest (c : Call) : Prop := c.phase = .held ∨ c.phase = .giving []

instance (c : Call) : Decidable c.AtRest := inferInstanceAs (Decidable (_ ∨ _))

/-- The acquired and not yet released sessions of an address or of a prefix. -/
def State.sessions (s : State) (slot : Slot) : Nat :=
  s.calls.countP fun c => c.phase = .held ∧ (c.prefixSlot = slot ∨ c.ipSlot = slot)

/-- Each entry counts the calls that hold it, within its maximum, and an entry at zero is
    about to be removed. -/
structure Exact (limits : Nat → ServerLimits) (s : State) : Prop where
  balanced : ∀ slot, (s.counters slot).getD 0 = (s.calls.map (·.holds.count slot)).sum
  bounded : ∀ slot, (s.counters slot).getD 0 ≤ limit limits slot
  removed :
    ∀ slot, s.counters slot = some 0 → ∃ c ∈ s.calls, ∃ slots, c.phase = .removing slot slots

/-- What a step of a call does to an entry of at most `max`. -/
structure Moves (max : Nat) (c : Call) (slot : Slot) (old : Option Nat)
    (new : Option Nat × Phase) : Prop where
  other : ∀ k, k ≠ slot → { c with phase := new.2 }.holds.count k = c.holds.count k
  balance : new.1.getD 0 + c.holds.count slot =
    old.getD 0 + { c with phase := new.2 }.holds.count slot
  bounded : new.1.getD 0 ≤ max
  zero : new.1 = some 0 → ∃ slots, new.2 = .removing slot slots
  removing : ∀ k slots, c.phase = .removing k slots → k = slot

variable {limits : Nat → ServerLimits} {s t : State} {c : Call} {slot : Slot}

theorem limit_pos (limits : Nat → ServerLimits) (slot : Slot) : 0 < limit limits slot := by
  cases slot <;> (simp only [limit, burstOr]; split <;> omega)

section

variable {max : Nat} {old : Option Nat} (hbound : old.getD 0 ≤ max)

include hbound

/-- An entry that is taken counts the call from then on; a full one is left as it is. -/
theorem tryTake_moves {taken refused : Phase} (hmax : 0 < max)
    (htaken : { c with phase := taken }.holds = slot :: c.holds)
    (hrefused : { c with phase := refused }.holds = c.holds)
    (hremoving : ∀ k slots, c.phase = .removing k slots → k = slot) :
    Moves max c slot old (tryTake max taken refused old) := by
  unfold tryTake
  by_cases hlt : old.getD 0 < max
  · rw [if_pos hlt]
    refine ⟨fun k hk => ?_, ?_, hlt, by simp, hremoving⟩
    · rw [htaken, count_cons_of_ne (Ne.symm hk)]
    · rw [htaken, count_cons_self, getD_some]
      omega
  · rw [if_neg hlt]
    refine ⟨fun k _ => by rw [hrefused], by rw [hrefused, getD_some], hbound, ?_, hremoving⟩
    intro hzero
    have := some.inj hzero
    omega

/-- An entry is given back by a call that it counts; at zero the call goes on to remove it. -/
theorem give_moves {slots : List Slot} (hc : c.phase = .giving (slot :: slots))
    (hpos : 0 < old.getD 0) : Moves max c slot old (give slot slots old) := by
  have hholds : c.holds = slot :: slots := by rw [Call.holds, hc]
  cases old with
  | none => cases hpos
  | some n =>
    rw [getD_some] at hpos hbound
    have hnew : { c with phase := (give slot slots (some n)).2 }.holds = slots := by
      unfold give
      dsimp only
      split <;> rfl
    refine ⟨fun k hk => ?_, ?_, (Nat.sub_le _ _).trans hbound, fun hzero => ⟨slots, ?_⟩, ?_⟩
    · rw [hnew, hholds, count_cons_of_ne (Ne.symm hk)]
    · rw [hnew, hholds, count_cons_self, give, getD_some, getD_some]
      omega
    · have hone := some.inj hzero
      exact if_pos (by omega)
    · simp [hc]

theorem removeIfZero_moves {slots : List Slot} (hc : c.phase = .removing slot slots) :
    Moves max c slot old (removeIfZero slots old) := by
  have hholds : { c with phase := .giving slots }.holds = c.holds := by
    rw [Call.holds, Call.holds, hc]
  have hsame : (old.filter (· ≠ 0)).getD 0 = old.getD 0 := by
    cases old with
    | none => rfl
    | some n => cases n <;> rfl
  refine ⟨fun k _ => by rw [removeIfZero, hholds], by rw [removeIfZero, hholds, hsame],
    hsame.trans_le hbound, fun hzero => ?_, by simp [hc]⟩
  simp [removeIfZero] at hzero

end

/-- Each step of a call that its entry counts. -/
theorem Call.next_moves {access : Option Nat → Option Nat × Phase} {old : Option Nat}
    (h : c.next limits = some (slot, access)) (hbound : old.getD 0 ≤ limit limits slot)
    (hheld : c.holds.count slot ≤ old.getD 0) :
    Moves (limit limits slot) c slot old (access old) := by
  obtain ⟨server, ip, phase⟩ := c
  cases phase with
  | takeIp =>
    cases h
    exact tryTake_moves hbound (limit_pos ..) rfl rfl (by simp)
  | takePrefix =>
    cases h
    exact tryTake_moves hbound (limit_pos ..) rfl rfl (by simp)
  | held => cases h
  | giving slots =>
    cases slots with
    | nil => cases h
    | cons slot slots =>
      cases h
      exact give_moves hbound rfl (lt_of_lt_of_le (count_pos_iff.mpr mem_cons_self) hheld)
  | removing slot slots =>
    cases h
    exact removeIfZero_moves hbound rfl

/-! ## Runs -/

namespace Exact

variable {i : Nat} {c' : Call} (h : Exact limits s)

include h

theorem holds_le (hc : s.calls[i]? = some c) (slot : Slot) :
    c.holds.count slot ≤ (s.counters slot).getD 0 := by
  have hsum := sum_map_set (·.holds.count slot) hc { c with phase := .giving [] }
  have hdone : { c with phase := .giving [] }.holds.count slot = 0 := count_nil
  rw [h.balanced]
  omega

theorem removed_set (hc : s.calls[i]? = some c) (hother : ∀ slots, c.phase ≠ .removing slot slots)
    (hzero : s.counters slot = some 0) :
    ∃ d ∈ s.calls.set i c', ∃ slots, d.phase = .removing slot slots := by
  obtain ⟨d, hd, slots, hphase⟩ := h.removed slot hzero
  obtain ⟨j, hj⟩ := mem_iff_getElem?.mp hd
  have hne : i ≠ j := by grind
  refine ⟨d, mem_of_getElem? (i := j) ?_, slots, hphase⟩
  rw [getElem?_set_ne hne]
  exact hj

theorem advance {new : Option Nat × Phase} (hc : s.calls[i]? = some c)
    (hmoves : Moves (limit limits slot) c slot (s.counters slot) new) :
    Exact limits ⟨update s.counters slot new.1, s.calls.set i { c with phase := new.2 }⟩ := by
  refine ⟨fun k => ?_, fun k => ?_, fun k hzero => ?_⟩
  · have hsum := sum_map_set (·.holds.count k) hc { c with phase := new.2 }
    rw [← h.balanced k] at hsum
    by_cases hk : k = slot
    · subst hk
      have := hmoves.balance
      simp only [update_self]
      omega
    · rw [hmoves.other k hk] at hsum
      simp only [update_of_ne hk]
      omega
  · by_cases hk : k = slot
    · subst hk
      simpa only [update_self] using hmoves.bounded
    · simpa only [update_of_ne hk] using h.bounded k
  · by_cases hk : k = slot
    · subst hk
      have hi := (List.getElem?_eq_some_iff.mp hc).1
      exact ⟨_, mem_set hi _, hmoves.zero (by simpa only [update_self] using hzero)⟩
    · exact h.removed_set hc (fun slots hphase => hk (hmoves.removing k slots hphase))
        (by simpa only [update_of_ne hk] using hzero)

theorem acquire (server : Nat) (ip : IpAddr) :
    Exact limits { s with calls := s.calls ++ [⟨server, ip, .takeIp⟩] } := by
  refine { h with balanced := fun slot => ?_, removed := fun slot hzero => ?_ }
  · rw [h.balanced slot]
    simp [Call.holds]
  · obtain ⟨d, hd, hremoving⟩ := h.removed slot hzero
    exact ⟨d, mem_append_left _ hd, hremoving⟩

theorem release (hc : c.phase = .held) (hi : s.calls[i]? = some c) :
    Exact limits { s with
      calls := s.calls.set i { c with phase := .giving [c.ipSlot, c.prefixSlot] } } := by
  refine { h with balanced := fun slot => ?_, removed := fun slot hzero => ?_ }
  · have hsum := sum_map_set (·.holds.count slot) hi
      { c with phase := .giving [c.ipSlot, c.prefixSlot] }
    have hswap : [c.ipSlot, c.prefixSlot].count slot = c.holds.count slot := by
      rw [Call.holds, hc]
      exact (Perm.swap ..).count_eq slot
    exact (h.balanced slot).trans (Nat.add_right_cancel (hsum.trans (congrArg _ hswap))).symm
  · exact h.removed_set hi (by simp [hc]) hzero

end Exact

theorem exact_step {op : Op} (h : Exact limits s) (hop : ReleasesSession s op)
    (hstep : step limits s op = some t) : Exact limits t := by
  cases op with
  | acquire server ip =>
    cases hstep
    exact h.acquire server ip
  | release server ip =>
    simp only [step] at hstep
    split at hstep
    · next i hi =>
      cases hstep
      obtain ⟨hlt, hheld, -⟩ := findIdx?_eq_some_iff_getElem.mp hi
      exact h.release rfl (List.getElem?_eq_some_iff.mpr ⟨hlt, eq_of_beq hheld⟩)
    · next hnone => exact absurd hop (idxOf?_eq_none_iff.mp hnone)
  | advance i =>
    obtain ⟨c, hc, hstep⟩ := bind_eq_some_iff.mp hstep
    obtain ⟨⟨slot, access⟩, hnext, hstep⟩ := bind_eq_some_iff.mp hstep
    cases hstep
    exact h.advance hc (c.next_moves hnext (h.bounded slot) (h.holds_le hc slot))

theorem sum_holds_of_atRest (hrest : ∀ c ∈ s.calls, c.AtRest) (slot : Slot) :
    (s.calls.map (·.holds.count slot)).sum = s.sessions slot := by
  refine sum_map_eq_countP fun c hc => ?_
  rcases hrest c hc with hphase | hphase
  · have hne : c.prefixSlot ≠ c.ipSlot := Slot.noConfusion
    by_cases hp : c.prefixSlot = slot
    · subst hp
      simp [Call.holds, hphase, hne.symm]
    · simp [Call.holds, hphase, count_cons, hp]
  · simp [Call.holds, hphase]

structure CountersExact (limits : Nat → ServerLimits) (s : State) : Prop where
  bounded : ∀ slot, (s.counters slot).getD 0 ≤ limit limits slot
  no_underflow : ∀ c ∈ s.calls, ∀ slot slots, c.phase = .giving (slot :: slots) →
    0 < (s.counters slot).getD 0
  at_rest : (∀ c ∈ s.calls, c.AtRest) → ∀ slot, (s.counters slot).getD 0 = s.sessions slot ∧
    ((s.counters slot).isSome ↔ 0 < s.sessions slot)

/-- In a run whose releases are those of sessions, no counter exceeds its maximum or is
    decremented at zero, and while no call is in progress the maps count the sessions. -/
theorem session_counters_exact {ops : List Op}
    (hrun : Run (restrict ReleasesSession fun s op t => step limits s op = some t) {} ops s) :
    CountersExact limits s := by
  have h : Exact limits s :=
    hrun.invariant (fun s op t hs hstep => exact_step hs hstep.1 hstep.2)
      ⟨fun slot => rfl, fun slot => Nat.zero_le _, by simp⟩
  refine ⟨h.bounded, fun c hc slot slots hphase => ?_, fun hrest slot => ?_⟩
  · obtain ⟨i, hi⟩ := mem_iff_getElem?.mp hc
    refine lt_of_lt_of_le ?_ (h.holds_le hi slot)
    simp [Call.holds, hphase]
  · have hcount := (h.balanced slot).trans (sum_holds_of_atRest hrest slot)
    refine ⟨hcount, ?_⟩
    rw [← hcount]
    cases hn : s.counters slot with
    | none => simp
    | some n =>
      have hpos : n ≠ 0 := by
        rintro rfl
        -- no call at rest is about to remove an entry
        obtain ⟨c, hc, slots, hphase⟩ := h.removed slot hn
        rcases hrest c hc with hc | hc <;> cases hc.symm.trans hphase
      simpa using Nat.pos_of_ne_zero hpos

/-! ## Runs that were computed -/

def peer (d : UInt8) : IpAddr := .v4 10 0 0 d

def small : Nat → ServerLimits :=
  fun _ => { handshakesBurstPerIp := 1, handshakesBurstPerPrefix := 2 }

/-- A session ends while the next one of its address begins, whose entry is not removed. -/
def overlapping : List Op :=
  [.acquire 0 (peer 1), .advance 0, .advance 0, .release 0 (peer 1), .advance 0,
    .acquire 0 (peer 1), .advance 1, .advance 0, .advance 0, .advance 0, .advance 1]

theorem session_counters_exact_overlapping : ∃ s,
    Run (restrict ReleasesSession fun s op t => step small s op = some t) {} overlapping s ∧
      CountersExact small s ∧ s.sessions (.perPrefix (0, peer 0)) = 1 :=
  Run.exists_of_execAll (fun s => s.sessions (.perPrefix (0, peer 0)) = 1)
    (fun _ _ _ => restrict_of_guarded) (by decide +kernel)
    fun _ hrun hsessions => ⟨session_counters_exact hrun, hsessions⟩

/-- After a session of one address, a release for another address of its prefix. -/
def stray : List Op :=
  [.acquire 0 (peer 1), .advance 0, .advance 0, .release 0 (peer 2), .advance 1, .advance 1,
    .advance 1]

theorem stray_release_undercounts : ∃ s,
    Run (fun s op t => step small s op = some t) {} stray s ∧ ¬ CountersExact small s :=
  Run.exists_of_execAll (fun s => (∀ c ∈ s.calls, c.AtRest) ∧
      (s.counters (.perPrefix (0, peer 0))).getD 0 ≠ s.sessions (.perPrefix (0, peer 0)))
    (fun _ _ _ => id) (by decide +kernel) fun _ _ hs h => hs.2 (h.at_rest hs.1 _).1

/-! ## Admission -/

theorem step_advance {i : Nat} {access : Option Nat → Option Nat × Phase}
    (hc : s.calls[i]? = some c) (hnext : c.next limits = some (slot, access)) :
    step limits s (.advance i) = some ⟨update s.counters slot (access (s.counters slot)).1,
      s.calls.set i { c with phase := (access (s.counters slot)).2 }⟩ := by
  simp [step, hc, hnext]

/-- An acquisition is admitted exactly when the calls that hold its entry, which are the sessions
    and the calls in progress, are fewer than the maximum. -/
theorem take_iff_room {ops : List Op} {i : Nat} {taken refused : Phase}
    (hrun : Run (restrict ReleasesSession fun s op t => step limits s op = some t) {} ops s)
    (hc : s.calls[i]? = some c)
    (hnext : c.next limits = some (slot, tryTake (limit limits slot) taken refused)) :
    ∃ t, step limits s (.advance i) = some t ∧ t.calls[i]? = some { c with
      phase :=
        if (s.calls.map (·.holds.count slot)).sum < limit limits slot then taken
          else refused } := by
  have hexact : Exact limits s :=
    hrun.invariant (fun s op t hs hstep => exact_step hs hstep.1 hstep.2)
      ⟨fun slot => rfl, fun slot => Nat.zero_le _, by simp⟩
  have hlt := (List.getElem?_eq_some_iff.mp hc).1
  rw [← hexact.balanced]
  refine ⟨_, step_advance hc hnext, ?_⟩
  rw [getElem?_set_self hlt]
  unfold tryTake
  dsimp only
  split <;> rfl

/-- One session, a second of its prefix under way, and a second of its address. -/
def sharing : List Op :=
  [.acquire 0 (peer 1), .advance 0, .advance 0, .acquire 0 (peer 2), .advance 1,
    .acquire 0 (peer 1)]

/-- The other address has room in the prefix; the address itself has none. -/
theorem take_iff_room_sharing : ∃ s,
    Run (restrict ReleasesSession fun s op t => step small s op = some t) {} sharing s ∧
      (∃ t, step small s (.advance 1) = some t ∧ t.calls[1]? = some ⟨0, peer 2, .held⟩) ∧
      ∃ t, step small s (.advance 2) = some t ∧ t.calls[2]? = some ⟨0, peer 1, .giving []⟩ := by
  refine Run.exists_of_execAll (fun s => s.calls = [⟨0, peer 1, .held⟩, ⟨0, peer 2, .takePrefix⟩,
      ⟨0, peer 1, .takeIp⟩]) (fun _ _ _ => restrict_of_guarded) (by decide +kernel)
    fun s hrun hcalls => ⟨?_, ?_⟩
  · obtain ⟨t, hstep, ht⟩ := take_iff_room (i := 1) hrun (by rw [hcalls]; rfl) rfl
    rw [hcalls] at ht
    exact ⟨t, hstep, ht.trans (by decide)⟩
  · obtain ⟨t, hstep, ht⟩ := take_iff_room (i := 2) hrun (by rw [hcalls]; rfl) rfl
    rw [hcalls] at ht
    exact ⟨t, hstep, ht.trans (by decide)⟩

end WebTransportBun.Native.SessionCounters
