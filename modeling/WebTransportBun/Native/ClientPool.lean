/-
  WebTransportBun.Native.ClientPool

  The pool of client endpoints, `crates/native/src/client_pool.rs`.  Every call of
  `acquire_connect` is a task that goes from its lock of the table over the await of the
  connect to the drop of its guard; one step of a task is one look at an entry's atomics, one
  update of them, or what it does to the table under the lock.

  Keys and endpoints are arbitrary types.  What the clock shows is part of a step, and so is
  the order in which the hash map is iterated.  The statistics counters and the poisoning of
  the lock are left out.
-/

import WebTransportBun.Library.Budget
import WebTransportBun.Library.Map
import WebTransportBun.Library.Run

namespace WebTransportBun.Native.ClientPool

open Library List Option Function Library.Map Nat

def maxPoolEntries : Nat := 256

def maxSessionsPerKey : Nat := 500

def poolIdleTimeoutMs : Nat := 60000

structure PoolEntry (E : Type) where
  endpoint : E
  activeRefs : Nat
  lastUsedMs : Nat

/-- What `map_connecting_error` tells apart. -/
inductive ConnectingError
  | sessionRejected
  | other (text : String)
  deriving DecidableEq, Repr

def mapConnectingError : ConnectingError → String
  | .sessionRejected => "E_RATE_LIMITED: server rejected WebTransport session request"
  | .other text => text

/-- How the await of the connect ends. -/
inductive Outcome
  | connected
  | refused (err : ConnectingError)
  | elapsed
  deriving DecidableEq, Repr

/-- Where a call stands.  An entry is named by its place among all entries ever made. -/
inductive Phase (K : Type)
  | arrived
  /-- `evict_idle_under_lock`: `todo` is still to be looked at, `stale` was found idle. -/
  | scanning (now : Nat) (todo stale : List K)
  /-- `evict_one_under_lock`: the least recently used idle entry so far. -/
  | choosing (todo : List K) (best : Option (K × Nat))
  | reserving
  | connecting (entry : Nat)
  /-- The connect failed and the reference was given back. -/
  | failed (entry : Nat) (error : String)
  /-- The entry is about to be removed. -/
  | broken (entry : Nat) (error : String)
  /-- The guard is held. -/
  | live (entry : Nat)
  /-- The guard gave its reference back. -/
  | released (entry : Nat)
  | ended (error : Option String)
  deriving DecidableEq, Repr

namespace Phase

variable {K : Type}

def inside : Phase K → Bool
  | .scanning .. | .choosing .. | .reserving => true
  | _ => false

/-- The keys that the call means to remove. -/
def marked : Phase K → List K
  | .scanning _ _ stale => stale
  | .choosing _ best => (best.map Prod.fst).toList
  | _ => []

/-- The entry on which the call has a guard or a connect in flight. -/
def holds : Phase K → Option Nat
  | .connecting entry | .live entry => some entry
  | _ => none

/-- The entry that a failed connect is about to remove. -/
def removes : Phase K → Option Nat
  | .broken entry _ => some entry
  | _ => none

theorem inside_of_mem_marked {phase : Phase K} {key : K} (h : key ∈ phase.marked) :
    phase.inside = true := by
  cases phase with
  | scanning | choosing => rfl
  | arrived | reserving | connecting | failed | broken | live | released | ended => cases h

theorem holds_of_removes {phase : Phase K} {id : Nat} (h : phase.removes = some id) :
    phase.holds = none := by
  cases phase with
  | broken => rfl
  | arrived | scanning | choosing | reserving | connecting | failed | live | released | ended =>
    cases h

end Phase

/-- A call of `acquire_connect`; `created` is what its `create_endpoint` returns. -/
structure Call (K E : Type) where
  key : K
  created : Except String E
  phase : Phase K

/-- What a call takes of the count of its entry. -/
def Call.hold {K E : Type} (c : Call K E) : Hold Nat := ⟨c.phase.holds.toList, 1⟩

structure Pool (K E : Type) where
  /-- Every entry ever made, whether the table still has it or not. -/
  entries : List (PoolEntry E)
  table : Map K Nat
  lock : Option Nat
  calls : List (Call K E)

inductive Op (K E : Type)
  | call (key : K) (created : Except String E)
  /-- The next step of a call.  `order` is the order of the map where the step iterates it. -/
  | step (i now : Nat) (order : List K)
  | connect (i : Nat) (outcome : Outcome)
  /-- The call is dropped at its await. -/
  | cancel (i : Nat)
  /-- The session's guard is dropped. -/
  | drop (i : Nat)

namespace Pool

variable {K E : Type}

def new : Pool K E := ⟨[], ∅, none, []⟩

section

variable (s : Pool K E)

/-- Call `i` moves on.  Its `MutexGuard` lives exactly as long as it is inside. -/
def goto (i : Nat) (c : Call K E) (phase : Phase K) : Pool K E :=
  { s with
    calls := s.calls.set i { c with phase }
    lock := if phase.inside then some i else if c.phase.inside then none else s.lock }

def retain (id : Nat) : Pool K E :=
  { s with entries := s.entries.modify id fun e => { e with activeRefs := e.activeRefs + 1 } }

def release (id : Nat) : Pool K E :=
  { s with entries := s.entries.modify id fun e => { e with activeRefs := e.activeRefs - 1 } }

def touch (id now : Nat) : Pool K E :=
  { s with entries := s.entries.modify id fun e => { e with lastUsedMs := now } }

end

/-! ## Reading the state -/

section

variable (s : Pool K E)

def refs (id : Nat) : Nat := (s.entries[id]?.map PoolEntry.activeRefs).getD 0

/-- The endpoint of an entry; it never changes. -/
def endpoint (id : Nat) : Option E := s.entries[id]?.map PoolEntry.endpoint

def request (j : Nat) : Option (K × Except String E) :=
  s.calls[j]?.map fun c => (c.key, c.created)

def holder (j : Nat) : Option Nat := s.calls[j]?.bind (·.phase.holds)

end

variable {s : Pool K E} {i : Nat} {c : Call K E}

theorem request_goto (hc : s.calls[i]? = some c) (phase : Phase K) :
    (s.goto i c phase).request = s.request := by
  funext j
  unfold request goto
  by_cases hj : i = j
  · subst hj
    rw [hc, List.getElem?_set_self (List.getElem?_eq_some_iff.mp hc).1]
    rfl
  · rw [getElem?_set_ne hj]

theorem holder_goto (hc : s.calls[i]? = some c) (phase : Phase K) :
    (s.goto i c phase).holder = update s.holder i phase.holds := by
  funext j
  unfold holder goto
  by_cases hj : i = j
  · subst hj
    rw [List.getElem?_set_self (List.getElem?_eq_some_iff.mp hc).1, update_self]
    rfl
  · rw [getElem?_set_ne hj, update_of_ne (Ne.symm hj)]

theorem holder_join (s : Pool K E) (key : K) (created : Except String E) :
    holder { s with calls := s.calls ++ [⟨key, created, .arrived⟩] } = s.holder := by
  funext j
  unfold holder
  rw [getElem?_concat]
  split
  · next hj =>
    rw [hj, getElem?_eq_none le_rfl]
    rfl
  · rfl

variable {j id : Nat}

theorem request_of_holder (h : s.holder j = some id) : ∃ r, s.request j = some r := by
  obtain ⟨c, hc, -⟩ := bind_eq_some_iff.mp h
  exact ⟨_, by rw [request, hc]; rfl⟩

theorem endpoint_append (s : Pool K E) (e : E) (n now : Nat) :
    endpoint { s with entries := s.entries ++ [⟨e, n, now⟩] } =
      update s.endpoint s.entries.length (some e) := by
  funext j
  unfold endpoint
  rw [getElem?_concat, update_apply]
  split <;> rfl

theorem endpoint_modify (s : Pool K E) (id : Nat) (f : PoolEntry E → PoolEntry E)
    (hf : ∀ e, (f e).endpoint = e.endpoint) :
    endpoint { s with entries := s.entries.modify id f } = s.endpoint := by
  funext j
  unfold endpoint
  rw [getElem?_modify]
  cases s.entries[j]? with
  | none => rfl
  | some e =>
    show some _ = some _
    split
    · rw [hf]
    · rfl

/-! ## Counts -/

section

variable (s : Pool K E)

theorem refs_of_le (h : s.entries.length ≤ id) : s.refs id = 0 := by
  rw [refs, getElem?_eq_none h]
  rfl

theorem refs_modify (id : Nat) {f : PoolEntry E → PoolEntry E} {g : Nat → Nat}
    (hf : ∀ e, (f e).activeRefs = g e.activeRefs) (hzero : s.entries.length ≤ id → g 0 = 0) :
    refs { s with entries := s.entries.modify id f } =
      update s.refs id (g (s.refs id)) := by
  funext j
  unfold refs
  by_cases hij : j = id
  · grind
  · simp [hij, Ne.symm hij]

theorem refs_touch (id now : Nat) : (s.touch id now).refs = s.refs :=
  (refs_modify s id (f := fun e => { e with lastUsedMs := now }) (g := fun n => n)
    (fun _ => rfl) fun _ => rfl).trans (update_eq_self ..)

theorem refs_retain (hid : id < s.entries.length) :
    (s.retain id).refs = update s.refs id (s.refs id + 1) :=
  refs_modify s id (fun _ => rfl) fun hle => absurd hid (not_lt.mpr hle)

theorem refs_release (id : Nat) :
    (s.release id).refs = update s.refs id (s.refs id - 1) :=
  refs_modify s id (g := (· - 1)) (fun _ => rfl) fun _ => rfl

theorem refs_append (e : E) (n now : Nat) :
    refs { s with entries := s.entries ++ [⟨e, n, now⟩] } =
      update s.refs s.entries.length n := by
  funext j
  unfold refs
  rw [getElem?_concat, update_apply]
  split <;> rfl

end

theorem getElem?_hold (hc : s.calls[i]? = some c) :
    (s.calls.map Call.hold)[i]? = some ⟨c.phase.holds.toList, 1⟩ := by
  rw [getElem?_map, hc]
  rfl

theorem holds_goto (s : Pool K E) (i : Nat) (c : Call K E) (phase : Phase K) :
    (s.goto i c phase).calls.map Call.hold =
      (s.calls.map Call.hold).set i ⟨phase.holds.toList, 1⟩ :=
  map_set ..

variable {phase : Phase K}

theorem holds_goto_same (hc : s.calls[i]? = some c) (hholds : phase.holds = c.phase.holds) :
    (s.goto i c phase).calls.map Call.hold = s.calls.map Call.hold := by
  obtain ⟨hi, hsame⟩ := List.getElem?_eq_some_iff.mp (getElem?_hold hc)
  rw [holds_goto, hholds, ← hsame]
  exact set_getElem_self hi

theorem sum_share (calls : List (Call K E)) (id : Nat) :
    ((calls.map Call.hold).map (·.share id)).sum = calls.countP (·.phase.holds = some id) := by
  induction calls with
  | nil => rfl
  | cons c calls ih =>
    rw [map_cons, map_cons, sum_cons, ih, add_comm]
    cases hholds : c.phase.holds with
    | none => simp [Call.hold, hholds]
    | some id' => by_cases hid : id' = id <;> simp [Call.hold, Hold.share, hholds, hid]

theorem refs_pos (h : Balanced s.refs (s.calls.map Call.hold)) (hc : s.calls[i]? = some c)
    (hholds : c.phase.holds = some id) : 0 < s.refs id := by
  have hshare := h.share_le (getElem?_hold hc) id
  rw [hholds] at hshare
  exact lt_of_lt_of_le (by simp [Hold.share]) hshare

/-! ## The lock -/

/-- Only the call that has the lock is inside. -/
def Locked (s : Pool K E) : Prop :=
  ∀ j c, s.calls[j]? = some c → c.phase.inside = true → s.lock = some j

theorem not_inside {phase' : Phase K} {p : Prop} (h : phase.inside = false) :
    phase.inside = true → phase'.inside = true ∨ p := by
  rw [h]
  exact nofun

theorem Locked.goto (h : s.Locked) (hc : s.calls[i]? = some c)
    (hlock : phase.inside = true → c.phase.inside = true ∨ s.lock = none) :
    (s.goto i c phase).Locked := by
  intro j d hd hinside
  unfold Pool.goto at hd ⊢
  by_cases hij : i = j
  · grind
  · rw [getElem?_set_ne hij] at hd
    have hj := h j d hd hinside
    -- the lock is taken, and not by call `i`
    have hout : c.phase.inside = false := by
      rw [Bool.eq_false_iff]
      intro hinside'
      exact hij (some.inj ((h i c hc hinside').symm.trans hj))
    rw [if_neg, if_neg, hj]
    · rw [hout]
      exact Bool.false_ne_true
    · grind

/-! ## Steps -/

variable [DecidableEq K]

def entryOf (s : Pool K E) (key : K) : Option (PoolEntry E) :=
  (s.table.get? key).bind (s.entries[·]?)

def isStale (s : Pool K E) (now : Nat) (key : K) : Bool :=
  (s.entryOf key).any fun e =>
    e.activeRefs == 0 && decide (poolIdleTimeoutMs < now - e.lastUsedMs)

/-- One entry in the search of `evict_one_under_lock`; of several the first one counts. -/
def better (s : Pool K E) (key : K) (best : Option (K × Nat)) : Option (K × Nat) :=
  match s.entryOf key with
  | some e =>
    if e.activeRefs = 0 ∧ best.all (e.lastUsedMs < ·.2) then some (key, e.lastUsedMs) else best
  | none => best

def eraseAll (table : Map K Nat) (keys : List K) : Map K Nat := keys.foldl Map.erase table

def advance (s : Pool K E) (i now : Nat) (order : List K) (c : Call K E) : Option (Pool K E) :=
  match c.phase with
  | .arrived =>
    if s.lock = none ∧ order.Perm s.table.keys then
      some (s.goto i c (.scanning now order []))
    else none
  | .scanning start (key :: todo) stale =>
    some (s.goto i c
      (.scanning start todo (if s.isStale start key then stale ++ [key] else stale)))
  | .scanning _ [] stale =>
    let table := eraseAll s.table stale
    if !table.contains c.key && decide (maxPoolEntries ≤ table.size) then
      if order.Perm table.keys then
        some { s.goto i c (.choosing order none) with table }
      else none
    else some { s.goto i c .reserving with table }
  | .choosing (key :: todo) best => some (s.goto i c (.choosing todo (s.better key best)))
  | .choosing [] none =>
    some (s.goto i c (.ended (some "E_LIMIT_EXCEEDED: connection pool full")))
  | .choosing [] (some (key, _)) =>
    some { s.goto i c .reserving with table := s.table.erase key }
  | .reserving =>
    match s.table.get? c.key with
    | some id =>
      if (s.entries[id]?.map PoolEntry.activeRefs).getD 0 < maxSessionsPerKey then
        some ((s.goto i c (.connecting id)).retain id)
      else some (s.goto i c (.ended (some "E_LIMIT_EXCEEDED: max sessions per pool key")))
    | none =>
      match c.created with
      | .ok endpoint =>
        some { s.goto i c (.connecting s.entries.length) with
          entries := s.entries ++ [⟨endpoint, 1, now⟩]
          table := s.table.insert c.key s.entries.length }
      | .error error => some (s.goto i c (.ended (some error)))
  | .failed id error => some ((s.goto i c (.broken id error)).touch id now)
  | .broken id error =>
    -- the whole of the second critical section
    if s.lock = none then
      let t := s.goto i c (.ended (some error))
      some (if s.table.get? c.key = some id then { t with table := s.table.erase c.key } else t)
    else none
  | .released id => some ((s.goto i c (.ended none)).touch id now)
  | .connecting _ | .live _ | .ended _ => none

def exec (s : Pool K E) : Op K E → Option (Pool K E)
  | .call key created => some { s with calls := s.calls ++ [⟨key, created, .arrived⟩] }
  | .step i now order => s.calls[i]?.bind (s.advance i now order)
  | .connect i outcome => s.calls[i]?.bind fun c =>
    match c.phase with
    | .connecting id =>
      match outcome with
      | .connected => some (s.goto i c (.live id))
      | .refused err =>
        some ((s.goto i c (.failed id (mapConnectingError err))).release id)
      | .elapsed => some ((s.goto i c (.failed id "E_HANDSHAKE_TIMEOUT")).release id)
    | _ => none
  | .cancel i => s.calls[i]?.bind fun c =>
    match c.phase with
    -- the future is dropped with its `Arc`; nothing gives the reference back
    | .connecting _ => some (s.goto i c (.ended none))
    | _ => none
  | .drop i => s.calls[i]?.bind fun c =>
    match c.phase with
    | .live id => some ((s.goto i c (.released id)).release id)
    | _ => none

def Step (s : Pool K E) (op : Op K E) (t : Pool K E) : Prop := s.exec op = some t

/-! ## What a step does -/

/-- The key's entry, if it has one, is not referenced. -/
def Idle (s : Pool K E) (key : K) : Prop := ∀ id, s.table.get? key = some id → s.refs id = 0

variable {t : Pool K E} {op : Op K E} {now : Nat}

inductive Effect (s : Pool K E) : Op K E → Pool K E → Prop
  | joined (key : K) (created : Except String E) :
      Effect s (.call key created) { s with calls := s.calls ++ [⟨key, created, .arrived⟩] }
  /-- A call moves on and keeps its reference, if it has one. -/
  | moved {op : Op K E} (i : Nat) (c : Call K E) (phase : Phase K)
      (hc : s.calls[i]? = some c) (hholds : phase.holds = c.phase.holds)
      (hlock : phase.inside = true → c.phase.inside = true ∨ s.lock = none)
      (hmarked : ∀ key ∈ phase.marked, key ∈ c.phase.marked ∨ s.Idle key) :
      Effect s op (s.goto i c phase)
  | touched {op : Op K E} (i id now : Nat) (c : Call K E) (phase : Phase K)
      (hc : s.calls[i]? = some c) (hholds : phase.holds = c.phase.holds)
      (hinside : phase.inside = false) (hmarked : phase.marked = []) :
      Effect s op ((s.goto i c phase).touch id now)
  | evicted {op : Op K E} (i : Nat) (c : Call K E) (phase : Phase K) (keys : List K)
      (hc : s.calls[i]? = some c) (hholds : phase.holds = c.phase.holds)
      (hinside : c.phase.inside = true) (hkeys : keys = c.phase.marked)
      (hmarked : phase.marked = []) :
      Effect s op { s.goto i c phase with table := eraseAll s.table keys }
  | took {op : Op K E} (i id : Nat) (c : Call K E) (hc : s.calls[i]? = some c)
      (hinside : c.phase.inside = true) (hholds : c.phase.holds = none)
      (hget : s.table.get? c.key = some id) (hroom : s.refs id < maxSessionsPerKey) :
      Effect s op ((s.goto i c (.connecting id)).retain id)
  | made {op : Op K E} (i now : Nat) (c : Call K E) (endpoint : E) (hc : s.calls[i]? = some c)
      (hinside : c.phase.inside = true) (hholds : c.phase.holds = none)
      (hget : s.table.get? c.key = none) (hcreated : c.created = .ok endpoint) :
      Effect s op { s.goto i c (.connecting s.entries.length) with
        entries := s.entries ++ [⟨endpoint, 1, now⟩]
        table := s.table.insert c.key s.entries.length }
  | gave {op : Op K E} (i id : Nat) (c : Call K E) (phase : Phase K) (hc : s.calls[i]? = some c)
      (hold : c.phase.holds = some id) (hholds : phase.holds = none)
      (hinside : phase.inside = false) (hmarked : phase.marked = []) :
      Effect s op ((s.goto i c phase).release id)
  | cancelled (i : Nat) (c : Call K E) (hc : s.calls[i]? = some c) :
      Effect s (.cancel i) (s.goto i c (.ended none))
  /-- A failed connect takes its entry out of the table. -/
  | removed (i now id : Nat) (order : List K) (c : Call K E) (error : Option String)
      (hc : s.calls[i]? = some c) (hremoves : c.phase.removes = some id)
      (hget : s.table.get? c.key = some id) :
      Effect s (.step i now order)
        { s.goto i c (.ended error) with table := s.table.erase c.key }

variable {key : K}

theorem idle_of_entryOf (h : ∀ e ∈ s.entryOf key, e.activeRefs = 0) : s.Idle key := by
  intro id hget
  unfold refs
  cases he : s.entries[id]? with
  | none => rfl
  | some e =>
    have hentry : s.entryOf key = some e := by rw [entryOf, hget, bind_some, he]
    exact h e hentry

theorem idle_of_isStale (h : s.isStale now key = true) : s.Idle key := by
  refine idle_of_entryOf fun e he => ?_
  rw [isStale, he, any_some, Bool.and_eq_true, beq_iff_eq] at h
  exact h.1

theorem mem_better {key' : K} {best : Option (K × Nat)}
    (h : key' ∈ ((s.better key best).map Prod.fst).toList) :
    key' ∈ (best.map Prod.fst).toList ∨ s.Idle key' := by
  unfold better at h
  split at h
  · next e he => grind [idle_of_entryOf]
  · exact .inl h

theorem Effect.left (hc : s.calls[i]? = some c) (hholds : phase.holds = c.phase.holds)
    (hinside : phase.inside = false) (hmarked : phase.marked = []) :
    Effect s op (s.goto i c phase) :=
  .moved i c _ hc hholds (not_inside hinside) (by simp [hmarked])

attribute [local grind] Effect Phase.holds Phase.inside Phase.marked Phase.removes
attribute [local grind →] mem_better idle_of_isStale
attribute [local grind ←] Effect.left

theorem advance_effect {order : List K} (hc : s.calls[i]? = some c)
    (h : s.advance i now order c = some t) : Effect s (.step i now order) t := by
  unfold advance at h
  split at h
  case h_6 key used hphase =>
    cases h
    exact .evicted i c .reserving [key] hc (by grind) (by grind) (by grind) rfl
  all_goals grind [refs]

theorem step_effect (h : Step s op t) : Effect s op t := by
  cases op with
  | call key created =>
    cases h
    exact .joined key created
  | step i now order =>
    obtain ⟨c, hc, hadvance⟩ := bind_eq_some_iff.mp h
    exact advance_effect hc hadvance
  | connect i outcome | cancel i | drop i =>
    obtain ⟨c, hc, h⟩ := bind_eq_some_iff.mp h
    grind

/-! ## Entries and their makers -/

/-- Every entry was made by a call with the key under which it is found and held. -/
structure Made (s : Pool K E) : Prop where
  maker : ∀ id e, s.endpoint id = some e → ∃ j key, s.request j = some (key, .ok e) ∧
    (∀ key', s.table.get? key' = some id → key' = key) ∧
    ∀ j' r, s.request j' = some r → s.holder j' = some id → r.1 = key
  stored : ∀ key id, s.table.get? key = some id → ∃ e, s.endpoint id = some e
  held : ∀ j id, s.holder j = some id → ∃ e, s.endpoint id = some e

theorem made_new : (new : Pool K E).Made := by
  refine ⟨fun id e h => ?_, fun key id h => ?_, fun j id h => ?_⟩
  · simp [endpoint, new] at h
  · simp [new] at h
  · simp [holder, new] at h

/-- A step that makes no entry, and in which a reference is only taken on the entry that the
    table has for the key. -/
theorem Made.mono (h : s.Made) (hendpoint : t.endpoint = s.endpoint)
    (htable : ∀ key id, t.table.get? key = some id → s.table.get? key = some id)
    (hrequest : ∀ j r, s.request j = some r → t.request j = some r)
    (hholder : ∀ j id, t.holder j = some id → ∃ r, s.request j = some r ∧
      (s.holder j = some id ∨ s.table.get? r.1 = some id)) : t.Made := by
  refine ⟨fun id e he => ?_, fun key id hget => ?_, fun j id hj => ?_⟩
  · rw [hendpoint] at he
    obtain ⟨j, key, hj, hstored, hheld⟩ := h.maker id e he
    refine ⟨j, key, hrequest j _ hj, fun key' hget => hstored key' (htable key' id hget), ?_⟩
    intro j' r hr hj'
    obtain ⟨r', hr', hold⟩ := hholder j' id hj'
    have hsame : r = r' := some.inj (hr.symm.trans (hrequest j' r' hr'))
    subst hsame
    rcases hold with hold | hget
    · exact hheld j' r hr' hold
    · exact hstored r.1 hget
  · rw [hendpoint]
    exact h.stored key id (htable key id hget)
  · rw [hendpoint]
    obtain ⟨r, -, hold | hget⟩ := hholder j id hj
    · exact h.held j id hold
    · exact h.stored r.1 id hget

/-- `Made.mono` for a call that moves on. -/
theorem Made.goto (h : s.Made) (hc : s.calls[i]? = some c)
    (hcalls : t.calls = (s.goto i c phase).calls) (hendpoint : t.endpoint = s.endpoint)
    (htable : ∀ key id, t.table.get? key = some id → s.table.get? key = some id)
    (hholds : ∀ id, phase.holds = some id →
      c.phase.holds = some id ∨ s.table.get? c.key = some id) : t.Made := by
  have hrequest : t.request = s.request := by
    rw [← request_goto hc phase]
    funext j
    rw [request, request, hcalls]
  have hholder : t.holder = update s.holder i phase.holds := by
    rw [← holder_goto hc phase]
    funext j
    rw [holder, holder, hcalls]
  refine h.mono hendpoint htable (fun j r hr => hrequest ▸ hr) fun j id hj => ?_
  rw [hholder] at hj
  by_cases hji : j = i
  · subst hji
    rw [update_self] at hj
    refine ⟨(c.key, c.created), by rw [request, hc]; rfl, (hholds id hj).imp_left ?_⟩
    intro hold
    rw [holder, hc]
    exact hold
  · rw [update_of_ne hji] at hj
    obtain ⟨r, hr⟩ := request_of_holder hj
    exact ⟨r, hr, .inl hj⟩

theorem get?_eraseAll {table : Map K Nat} {keys : List K}
    (h : (eraseAll table keys).get? key = some id) : key ∉ keys ∧ table.get? key = some id := by
  induction keys generalizing table with
  | nil => exact ⟨not_mem_nil, h⟩
  | cons k keys ih =>
    obtain ⟨hnot, hget⟩ := ih h
    rw [get?_erase] at hget
    split at hget
    · cases hget
    · next hne => exact ⟨fun hmem => (mem_cons.mp hmem).elim hne hnot, hget⟩

theorem get?_eraseAll_of_not_mem {table : Map K Nat} {keys : List K} (h : key ∉ keys) :
    (eraseAll table keys).get? key = table.get? key := by
  induction keys generalizing table with
  | nil => rfl
  | cons k keys ih =>
    rw [eraseAll, foldl_cons, ← eraseAll, ih (not_mem_of_not_mem_cons h), get?_erase,
      if_neg (ne_of_not_mem_cons h)]

theorem Made.insert (h : s.Made) (hc : s.calls[i]? = some c) {e : E} (hcreated : c.created = .ok e)
    (now : Nat) :
    Made { s.goto i c (.connecting s.entries.length) with
      entries := s.entries ++ [⟨e, 1, now⟩]
      table := s.table.insert c.key s.entries.length } := by
  generalize ht : ({ s.goto i c (.connecting s.entries.length) with
      entries := s.entries ++ [⟨e, 1, now⟩]
      table := s.table.insert c.key s.entries.length } : Pool K E) = t
  have hendpoint : t.endpoint = update s.endpoint s.entries.length (some e) := by
    rw [← ht]
    exact endpoint_append s e 1 now
  have hrequest : t.request = s.request := by
    rw [← ht]
    exact request_goto hc _
  have hholder : t.holder = update s.holder i (some s.entries.length) := by
    rw [← ht]
    exact holder_goto hc _
  have htable : t.table = s.table.insert c.key s.entries.length := by rw [← ht]
  -- nothing refers to the new entry yet
  have hfresh : ∀ e', s.endpoint s.entries.length ≠ some e' := by grind [endpoint]
  have hlater : ∀ id, (∃ e', s.endpoint id = some e') ∨ id = s.entries.length →
      ∃ e', t.endpoint id = some e' := by
    rintro id hid
    rw [hendpoint, update_apply]
    split
    · exact ⟨e, rfl⟩
    · next hne => exact hid.resolve_right hne
  have hmine : s.request i = some (c.key, .ok e) := by
    rw [request, hc, ← hcreated]
    rfl
  refine ⟨fun id e' he' => ?_, fun key id hid => ?_, fun j id hj => ?_⟩
  · rw [hendpoint, update_apply] at he'
    rw [hrequest, hholder, htable]
    split at he'
    · next hid =>
      subst hid
      cases he'
      refine ⟨i, c.key, hmine, fun key hkey => ?_, fun j r hr hj => ?_⟩
      · rw [get?_insert] at hkey
        split at hkey
        · next heq => exact heq
        · exact absurd (h.stored key _ hkey) (not_exists.mpr hfresh)
      · by_cases hji : j = i
        · grind
        · rw [update_of_ne hji] at hj
          exact absurd (h.held j _ hj) (not_exists.mpr hfresh)
    · next hid =>
      obtain ⟨j, key, hj, hstored, hheld⟩ := h.maker id e' he'
      refine ⟨j, key, hj, fun key' hkey' => ?_, fun j' r hr hj' => ?_⟩
      · grind [get?_insert]
      · grind
  · rw [htable, get?_insert] at hid
    split at hid
    · exact hlater id (.inr (some.inj hid).symm)
    · exact hlater id (.inl (h.stored key id hid))
  · rw [hholder, update_apply] at hj
    split at hj
    · exact hlater id (.inr (some.inj hj).symm)
    · exact hlater id (.inl (h.held j id hj))

theorem Made.effect (h : s.Made) (heffect : Effect s op t) : t.Made := by
  cases heffect with
  | joined key created =>
    refine h.mono rfl (fun _ _ hget => hget) (fun j r hr => ?_) fun j id hj => ?_
    · grind [request]
    · rw [holder_join] at hj
      obtain ⟨r, hr⟩ := request_of_holder hj
      exact ⟨r, hr, .inl hj⟩
  | moved i c phase hc hholds =>
    exact h.goto hc rfl rfl (fun _ _ hget => hget) fun id hid => .inl (hholds ▸ hid)
  | touched i id now c phase hc hholds =>
    exact h.goto hc rfl (endpoint_modify _ _ _ fun _ => rfl) (fun _ _ hget => hget)
      fun id hid => .inl (hholds ▸ hid)
  | evicted i c phase keys hc hholds =>
    exact h.goto hc rfl rfl (fun _ _ hget => (get?_eraseAll hget).2)
      fun id hid => .inl (hholds ▸ hid)
  | took i id c hc hinside hholds hget =>
    refine h.goto hc rfl (endpoint_modify _ _ _ fun _ => rfl)
      (fun _ _ hget => hget) fun id' hid' => ?_
    cases hid'
    exact .inr hget
  | made i now c endpoint hc hinside hholds hget hcreated => exact h.insert hc hcreated now
  | gave i id c phase hc hold hholds =>
    refine h.goto hc rfl (endpoint_modify _ _ _ fun _ => rfl)
      (fun _ _ hget => hget) fun id' hid' => ?_
    rw [hholds] at hid'
    cases hid'
  | cancelled i c hc =>
    refine h.goto hc rfl rfl (fun _ _ hget => hget) fun id' hid' => ?_
    cases hid'
  | removed i now id order c error hc hremoves hget =>
    refine h.goto hc rfl rfl (fun key id' hget' => ?_) fun id' hid' => ?_
    · exact (get?_eraseAll (show (eraseAll s.table [c.key]).get? key = some id' from hget')).2
    · cases hid'

/-! ## References -/

/-- The condition on the steps: no call is dropped at its await, and a failed connect that
    takes its entry out of the table was the last to use it. -/
def Sole (s : Pool K E) : Op K E → Prop
  | .cancel _ => False
  | .step i .. => ∀ c ∈ s.calls[i]?, ∀ id ∈ c.phase.removes,
      s.table.get? c.key = some id → s.refs id = 0
  | .call .. | .connect .. | .drop _ => True

instance (s : Pool K E) : (op : Op K E) → Decidable (s.Sole op)
  | .cancel _ => inferInstanceAs (Decidable False)
  | .step i .. => inferInstanceAs (Decidable (∀ c ∈ s.calls[i]?, ∀ id ∈ c.phase.removes,
      s.table.get? c.key = some id → s.refs id = 0))
  | .call .. | .connect .. | .drop _ => inferInstanceAs (Decidable True)

/-- What the table, the counts and the calls have to do with each other. -/
structure Exact (s : Pool K E) : Prop where
  locked : s.Locked
  /-- What a call means to remove is not referenced. -/
  marked : ∀ (j : Nat) (c : Call K E), s.calls[j]? = some c → ∀ key ∈ c.phase.marked, s.Idle key
  /-- A referenced entry is the one that the table has for its key. -/
  kept : ∀ (j : Nat) (c : Call K E) (id : Nat), s.calls[j]? = some c → c.phase.holds = some id →
    s.table.get? c.key = some id
  balanced : Balanced s.refs (s.calls.map Call.hold)
  capped : ∀ id, s.refs id ≤ maxSessionsPerKey

theorem exact_new : (new : Pool K E).Exact := by
  refine ⟨fun j c hc => ?_, fun j c hc => ?_, fun j c id hc => ?_, .nil, fun _ => zero_le _⟩
  all_goals simp [new] at hc

/-- A call moves on, and what is still referenced keeps its place in the table. -/
theorem Exact.goto (h : s.Exact) (hc : s.calls[i]? = some c)
    (hcalls : t.calls = (s.goto i c phase).calls) (hlocked : t.Locked)
    (hidle : ∀ (j : Nat) (d : Call K E), j ≠ i → s.calls[j]? = some d →
      ∀ key ∈ d.phase.marked, s.Idle key → t.Idle key) (hmarked : ∀ key ∈ phase.marked, t.Idle key)
    (hkept : ∀ key id, s.table.get? key = some id → 0 < t.refs id → t.table.get? key = some id)
    (hholds : ∀ id, phase.holds = some id → t.table.get? c.key = some id)
    (hbalanced : Balanced t.refs (t.calls.map Call.hold))
    (hcapped : ∀ id, t.refs id ≤ maxSessionsPerKey) : t.Exact := by
  have hcases : ∀ (j : Nat) (d : Call K E), t.calls[j]? = some d →
      j = i ∧ d = { c with phase } ∨ j ≠ i ∧ s.calls[j]? = some d := by
    intro j d hd
    rw [hcalls, Pool.goto] at hd
    by_cases hij : i = j
    · grind
    · rw [getElem?_set_ne hij] at hd
      exact .inr ⟨Ne.symm hij, hd⟩
  refine ⟨hlocked, fun j d hd => ?_, fun j d id hd hid => ?_, hbalanced, hcapped⟩
  · rcases hcases j d hd with ⟨-, rfl⟩ | ⟨hji, hold⟩
    · exact hmarked
    · exact fun key hkey => hidle j d hji hold key hkey (h.marked j d hold key hkey)
  · rcases hcases j d hd with ⟨-, rfl⟩ | ⟨hji, hold⟩
    · exact hholds id hid
    · exact hkept d.key id (h.kept j d id hold hid) (refs_pos hbalanced hd hid)

theorem Exact.marked_eq_nil (h : s.Exact) (hc : s.calls[i]? = some c)
    (hinside : c.phase.inside = true) {d : Call K E} (hji : j ≠ i)
    (hd : s.calls[j]? = some d) : key ∉ d.phase.marked := by
  intro hkey
  have hlock := h.locked j d hd (Phase.inside_of_mem_marked hkey)
  exact hji (some.inj (hlock.symm.trans (h.locked i c hc hinside)))

theorem Idle.mono (h : s.Idle key)
    (htable : ∀ id, t.table.get? key = some id → s.table.get? key = some id)
    (hrefs : ∀ id, s.refs id = 0 → t.refs id = 0) : t.Idle key :=
  fun id hget => hrefs id (h id (htable id hget))

/-- No reference is taken or given back, and what is referenced stays in the table. -/
theorem Exact.same (h : s.Exact) (hc : s.calls[i]? = some c)
    (hcalls : t.calls = (s.goto i c phase).calls) (hlocked : t.Locked)
    (hholds : phase.holds = c.phase.holds) (hrefs : t.refs = s.refs)
    (hfrom : ∀ key id, t.table.get? key = some id → s.table.get? key = some id)
    (hstays : ∀ key id, s.table.get? key = some id → 0 < s.refs id → t.table.get? key = some id)
    (hmarked : ∀ key ∈ phase.marked, s.Idle key) : t.Exact := by
  have hidle : ∀ key, s.Idle key → t.Idle key := fun key hidle =>
    hidle.mono (hfrom key) fun id hzero => hrefs ▸ hzero
  refine h.goto hc hcalls hlocked (fun _ _ _ _ key _ => hidle key)
    (fun key hkey => hidle key (hmarked key hkey)) (fun key id hget hpos => ?_)
      (fun id hid => ?_) ?_ ?_
  · exact hstays key id hget (hrefs ▸ hpos)
  · rw [hholds] at hid
    exact hstays c.key id (h.kept i c id hc hid) (refs_pos h.balanced hc hid)
  · rw [hrefs, hcalls, holds_goto_same hc hholds]
    exact h.balanced
  · rw [hrefs]
    exact h.capped

/-- A call inside takes a reference to the entry of its key. -/
theorem Exact.take (h : s.Exact) (hc : s.calls[i]? = some c)
    (hcalls : t.calls = (s.goto i c (.connecting id)).calls) (hlocked : t.Locked)
    (hinside : c.phase.inside = true) (hholds : c.phase.holds = none)
    (hrefs : t.refs = update s.refs id (s.refs id + 1)) (hroom : s.refs id < maxSessionsPerKey)
    (hstays : ∀ key id, s.table.get? key = some id → t.table.get? key = some id)
    (hget : t.table.get? c.key = some id) : t.Exact := by
  refine h.goto hc hcalls hlocked
    (fun _ _ hji hd _ hkey => (h.marked_eq_nil hc hinside hji hd hkey).elim)
    (by nofun) (fun key id hget _ => hstays key id hget) (fun id' hid' => ?_) ?_
    fun id' => ?_
  · cases hid'
    exact hget
  · have hhold := getElem?_hold hc
    rw [hholds] at hhold
    rw [hrefs, hcalls, holds_goto]
    exact h.balanced.take hhold
  · rw [hrefs, update_apply]
    split
    · exact hroom
    · exact h.capped id'

theorem Exact.join (h : s.Exact) (key : K) (created : Except String E) :
    Exact { s with calls := s.calls ++ [⟨key, created, .arrived⟩] } := by
  have hold : ∀ {j : Nat} {d : Call K E},
      (s.calls ++ [⟨key, created, .arrived⟩])[j]? = some d →
      s.calls[j]? = some d ∨ d.phase = .arrived := by
    intro j d hd
    rw [getElem?_concat] at hd
    split at hd
    · cases hd
      exact .inr rfl
    · exact .inl hd
  refine ⟨fun j d hd hinside => ?_, fun j d hd key' hkey' => ?_, fun j d id hd hid => ?_, ?_,
    h.capped⟩
  · rcases hold hd with hd | hphase
    · exact h.locked j d hd hinside
    · rw [hphase] at hinside
      cases hinside
  · rcases hold hd with hd | hphase
    · exact h.marked j d hd key' hkey'
    · rw [hphase] at hkey'
      cases hkey'
  · rcases hold hd with hd | hphase
    · exact h.kept j d id hd hid
    · rw [hphase] at hid
      cases hid
  · rw [map_append]
    exact h.balanced.join 1

/-- A call gives its reference back and stays outside. -/
theorem Exact.give (h : s.Exact) (hc : s.calls[i]? = some c) (hold : c.phase.holds = some id)
    (hholds : phase.holds = none) (hinside : phase.inside = false) (hmarked : phase.marked = []) :
    ((s.goto i c phase).release id).Exact := by
  have hrefs : ((s.goto i c phase).release id).refs =
      update s.refs id (s.refs id - 1) := refs_release _ _
  have hle : ∀ id', ((s.goto i c phase).release id).refs id' ≤ s.refs id' := by
    intro id'
    rw [hrefs, update_apply]
    split
    · next heq => grind
    · exact le_rfl
  refine h.goto hc rfl (h.locked.goto hc (not_inside hinside))
    (fun _ _ _ _ _ _ hidle => hidle.mono (fun _ hget => hget) fun id' hid' => ?_)
    (fun key hkey => ?_) (fun _ _ hget _ => hget) (fun id' hid' => ?_) ?_ fun id' => ?_
  · exact eq_zero_of_le_zero (hid' ▸ hle id')
  · rw [hmarked] at hkey
    cases hkey
  · rw [hholds] at hid'
    cases hid'
  · rw [hrefs]
    have hhold := getElem?_hold hc
    rw [hold] at hhold
    have hgive := h.balanced.give hhold
    show Balanced _ ((s.goto i c phase).calls.map Call.hold)
    rw [holds_goto, hholds]
    exact hgive
  · exact (hle id').trans (h.capped id')

theorem Exact.effect (h : s.Exact) (hmade : s.Made) (hsole : s.Sole op)
    (heffect : Effect s op t) : t.Exact := by
  cases heffect with
  | joined key created => exact h.join key created
  | moved i c phase hc hholds hlock hmarked =>
    exact h.same hc rfl (h.locked.goto hc hlock) hholds rfl (fun _ _ hget => hget)
      (fun _ _ hget _ => hget) fun key hkey => (hmarked key hkey).elim (h.marked i c hc key) id
  | touched i id now c phase hc hholds hinside hmarked =>
    exact h.same hc rfl (h.locked.goto hc (not_inside hinside)) hholds (refs_touch _ _ _)
      (fun _ _ hget => hget) (fun _ _ hget _ => hget) (by simp [hmarked])
  | evicted i c phase keys hc hholds hinside hkeys hmarked =>
    refine h.same hc rfl (h.locked.goto hc fun _ => .inl hinside) hholds rfl
      (fun _ _ hget => (get?_eraseAll hget).2) (fun key id hget hpos => ?_) (by simp [hmarked])
    -- what is referenced was not marked
    rw [get?_eraseAll_of_not_mem, hget]
    intro hkey
    exact ne_of_gt hpos (h.marked i c hc key (hkeys ▸ hkey) id hget)
  | took i id c hc hinside hholds hget hroom =>
    obtain ⟨e, he⟩ := hmade.stored c.key id hget
    obtain ⟨entry, hentry, -⟩ := map_eq_some_iff.mp he
    exact h.take hc rfl (h.locked.goto hc fun _ => .inl hinside) hinside hholds
      (refs_retain _ (List.getElem?_eq_some_iff.mp hentry).1) hroom (fun _ _ hget => hget) hget
  | made i now c endpoint hc hinside hholds hget hcreated =>
    -- the count of the new entry was zero, as that of every entry to come
    have hfresh : s.refs s.entries.length = 0 := refs_of_le s le_rfl
    have hrefs : refs { s with entries := s.entries ++ [⟨endpoint, 1, now⟩] } =
        update s.refs s.entries.length (s.refs s.entries.length + 1) := by
      rw [hfresh]
      exact refs_append s endpoint 1 now
    refine h.take hc rfl (h.locked.goto hc fun _ => .inl hinside) hinside hholds hrefs
      (hfresh ▸ by decide) (fun key id hid => ?_) (by simp)
    rw [get?_insert, if_neg, hid]
    rintro rfl
    rw [hget] at hid
    cases hid
  | gave i id c phase hc hold hholds hinside hmarked =>
    exact h.give hc hold hholds hinside hmarked
  | cancelled i c hc => exact hsole.elim
  | removed i now id order c error hc hremoves hget =>
    have hzero : s.refs id = 0 := hsole c hc id hremoves hget
    refine h.same hc rfl (h.locked.goto hc (not_inside rfl)) (Phase.holds_of_removes hremoves).symm
      rfl (fun key id' hget' => ?_) (fun key id' hget' hpos => ?_) (by rintro _ ⟨⟩)
    · exact (get?_eraseAll (show (eraseAll s.table [c.key]).get? key = some id' from hget')).2
    · grind [get?_erase]

theorem exact_of_run {ops : List (Op K E)} (hrun : Run (restrict Sole Step) new ops s) :
    s.Made ∧ s.Exact := by
  refine hrun.invariant (P := fun s => s.Made ∧ s.Exact) ?_ ⟨made_new, exact_new⟩
  rintro s op t ⟨hmade, hexact⟩ ⟨hsole, hstep⟩
  have heffect := step_effect hstep
  exact ⟨hmade.effect heffect, hexact.effect hmade hsole heffect⟩

/-- The guards and the connects in flight on an entry. -/
def holders (s : Pool K E) (id : Nat) : Nat := s.calls.countP (·.phase.holds = some id)

/-- The live sessions and the connects in flight that were opened through a key. -/
def sessions (s : Pool K E) (key : K) : Nat :=
  s.calls.countP fun c => c.key = key ∧ c.phase.holds.isSome

theorem Exact.refs_eq (h : s.Exact) (id : Nat) : s.refs id = s.holders id :=
  (h.balanced id).trans (sum_share s.calls id)

/-- All sessions of a key are on one entry. -/
theorem Exact.sessions_le (h : s.Exact) (key : K) : s.sessions key ≤ maxSessionsPerKey := by
  rcases Nat.eq_zero_or_pos (s.sessions key) with hzero | hpos
  · rw [hzero]
    exact zero_le _
  obtain ⟨c, hmem, hc⟩ := countP_pos_iff.mp hpos
  obtain ⟨hkey, hsome⟩ := of_decide_eq_true hc
  obtain ⟨id, hid⟩ := isSome_iff_exists.mp hsome
  obtain ⟨j, hj⟩ := getElem?_of_mem hmem
  have hget := h.kept j c id hj hid
  rw [hkey] at hget
  calc s.sessions key ≤ s.holders id := by
        refine countP_mono_left fun d hmem' hd => ?_
        obtain ⟨hkey', hsome'⟩ := of_decide_eq_true hd
        obtain ⟨id', hid'⟩ := isSome_iff_exists.mp hsome'
        obtain ⟨j', hj'⟩ := getElem?_of_mem hmem'
        have hget' := h.kept j' d id' hj' hid'
        rw [hkey', hget] at hget'
        rw [hid', hget']
        exact decide_eq_true rfl
    _ = s.refs id := (h.refs_eq id).symm
    _ ≤ maxSessionsPerKey := h.capped id

end Pool

open Pool

/-- If no call is dropped at its await and a failed connect removes its entry only when nobody
    else uses it, then a key never has more than 500 sessions and connects in flight, every
    count is exact, and an entry in use is the one that the table has for its key. -/
theorem references_exact {K E : Type} [DecidableEq K] {ops : List (Op K E)} {s : Pool K E}
    (hrun : Run (restrict Sole Step) .new ops s) :
    (∀ key, s.sessions key ≤ maxSessionsPerKey) ∧
      (∀ id e, s.entries[id]? = some e → e.activeRefs = s.holders id) ∧
      ∀ c ∈ s.calls, ∀ id, c.phase.holds = some id → s.table.get? c.key = some id := by
  obtain ⟨-, hexact⟩ := exact_of_run hrun
  refine ⟨hexact.sessions_le, fun id e he => ?_, fun c hmem id hid => ?_⟩
  · rw [← hexact.refs_eq, refs, he]
    rfl
  · obtain ⟨j, hj⟩ := getElem?_of_mem hmem
    exact hexact.kept j c id hj hid

def twoSessions : List (Op String Unit) :=
  [.call "a" (.ok ()), .step 0 0 [], .step 0 0 [], .step 0 0 [], .connect 0 .connected,
    .call "a" (.ok ()), .step 1 1 ["a"], .step 1 1 [], .step 1 1 [], .step 1 1 [],
    .connect 1 .connected]

theorem references_exact_two_sessions :
    ∃ s, Run (restrict Sole Step) .new twoSessions s ∧ s.sessions "a" = 2 ∧
      (∀ key, s.sessions key ≤ maxSessionsPerKey) ∧
      (∀ id e, s.entries[id]? = some e → e.activeRefs = s.holders id) ∧
      ∀ c ∈ s.calls, ∀ id, c.phase.holds = some id → s.table.get? c.key = some id := by
  refine Run.exists_of_execAll (·.sessions "a" = 2) (fun _ _ _ => restrict_of_guarded)
    (by decide +kernel) fun s hrun htwo => ⟨htwo, references_exact hrun⟩

/-- A session; a connect on the same entry that is refused; and a third call, which finds no
    entry, makes one and is dropped at its await. -/
def refusedConnect : List (Op String Unit) :=
  [.call "a" (.ok ()), .step 0 0 [], .step 0 0 [], .step 0 0 [], .connect 0 .connected,
    .call "a" (.ok ()), .step 1 1 ["a"], .step 1 1 [], .step 1 1 [], .step 1 1 [],
    .connect 1 (.refused .sessionRejected), .step 1 2 [], .step 1 2 [],
    .call "a" (.ok ()), .step 2 3 [], .step 2 3 [], .step 2 3 [], .cancel 2]

/-- The session's entry is no longer the key's, so that the key's count starts anew; and the
    new entry counts a call that is gone. -/
theorem refused_connect_strands_session :
    ∃ s, Run Step .new refusedConnect s ∧ s.holder 0 = some 0 ∧ s.table.get? "a" = some 1 ∧
      s.refs 1 = 1 ∧ s.holders 1 = 0 := by
  refine Run.exists_of_execAll _ (fun _ _ _ h => h) (by decide +kernel) fun s _ hstate => hstate

end WebTransportBun.Native.ClientPool
