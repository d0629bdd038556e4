/-
  WebTransportBun.Facade.WasmPool

  The pool of wasm endpoints, `packages/webtransport/src/wasm-endpoint-pool.ts`, and the calls
  of `connectWasm` in `backend.ts` that go through it.  JavaScript runs one call at a time
  from await to await, so that one step of a call is everything between two awaits: the
  look-up in the pool with, on a miss, the creation of the manager and its insertion; the
  connect on the manager; the end of the handshake; the end of the session.

  Keys and endpoint options are arbitrary types here.  The pool's counters are left out.
-/

import Mathlib.Data.List.Count
import WebTransportBun.Library.Map
import WebTransportBun.Library.Recency
import WebTransportBun.Library.Run

namespace WebTransportBun.Facade.WasmPool

open Library List Option Nat

def maxPoolSize : Nat := 32

/-- A `WasmTransportManager` that was put into the pool. -/
structure Manager (K O : Type) where
  key : K
  options : O
  /-- How often the pool has closed it. -/
  closes : Nat

/-- Where a call stands.  A session that loses its endpoint to the pool is `severed`: an
    established or connecting one is marked closed, and a call that awaits its tickets finds
    the endpoint closed. -/
inductive Phase
  | arrived
  /-- `hydrateTicketsFromHost` -/
  | hydrating
  /-- `awaitClientReady` -/
  | connecting
  | established
  | severed
  | ended
  deriving DecidableEq, Repr

/-- A call of `connectWasm` with pooling enabled. -/
structure Call (K O : Type) where
  key : K
  options : O
  manager : Option Nat
  phase : Phase

def Call.uses {K O : Type} (c : Call K O) : Option Nat :=
  match c.phase with
  | .hydrating | .connecting | .established => c.manager
  | .arrived | .severed | .ended => none

def Call.sever {K O : Type} (m : Nat) (c : Call K O) : Call K O :=
  if c.uses = some m then { c with phase := .severed } else c

section

variable {K O : Type} (m : Nat) (c : Call K O)

@[simp] theorem Call.sever_key : (c.sever m).key = c.key := by
  unfold Call.sever
  split <;> rfl

@[simp] theorem Call.sever_options : (c.sever m).options = c.options := by
  unfold Call.sever
  split <;> rfl

@[simp] theorem Call.sever_manager : (c.sever m).manager = c.manager := by
  unfold Call.sever
  split <;> rfl

end

structure State (K O : Type) where
  /-- The `Map`, in its insertion order. -/
  pool : List (K × Nat)
  managers : List (Manager K O)
  calls : List (Call K O)
  /-- The keys in the order of their last use, the latest first.  The code does not keep it. -/
  order : List K

inductive Op (K O : Type)
  | call (key : K) (options : O)
  /-- The look-up; `created` tells whether the endpoint can be created, should it be needed. -/
  | acquire (i : Nat) (created : Bool)
  | connect (i : Nat) (accepted : Bool)
  | ready (i : Nat) (ok : Bool)
  | close (i : Nat)

namespace State

variable {K O : Type}

def init : State K O := ⟨[], [], [], []⟩

def goto (s : State K O) (i : Nat) (c : Call K O) (phase : Phase) : State K O :=
  { s with calls := s.calls.set i { c with phase } }

def create (s : State K O) (i : Nat) (c : Call K O) : State K O :=
  { s.goto i { c with manager := some s.managers.length } .hydrating with
    managers := s.managers ++ [⟨c.key, c.options, 0⟩] }

/-- The body of the loop in `wasmPoolPut`: the oldest entry is removed and closed. -/
def evict (s : State K O) : State K O :=
  match s.pool with
  | [] => s
  | (_, m) :: pool =>
    { s with
      pool
      managers := s.managers.modify m fun manager =>
        { manager with closes := manager.closes + 1 }
      calls := s.calls.map (Call.sever m) }

def trim : Nat → State K O → State K O
  | 0, s => s
  | fuel + 1, s => if maxPoolSize < s.pool.length then trim fuel s.evict else s

section

variable [DecidableEq K]

/-- `Map.set`: a key that is there keeps its place. -/
def set (pool : List (K × Nat)) (key : K) (m : Nat) : List (K × Nat) :=
  if key ∈ pool.map Prod.fst then
    pool.map fun entry => if entry.1 = key then (key, m) else entry
  else pool ++ [(key, m)]

def delete (pool : List (K × Nat)) (key : K) : List (K × Nat) :=
  pool.filter fun entry => entry.1 ≠ key

section

variable (s : State K O)

/-- `pool.set(key, manager)`, which is a use of the key. -/
def insert (key : K) (m : Nat) : State K O :=
  { s with pool := set s.pool key m, order := use key s.order }

def wasmPoolTake (key : K) : Option Nat × State K O :=
  match s.pool.lookup key with
  | none => (none, s)
  | some m => (some m, { s with pool := delete s.pool key }.insert key m)

def wasmPoolPut (key : K) (m : Nat) : State K O :=
  (s.insert key m).trim (s.insert key m).pool.length

/-- From the look-up to the await of the tickets. -/
def acquire (i : Nat) (c : Call K O) (created : Bool) : State K O :=
  match s.wasmPoolTake c.key with
  | (some m, s) => s.goto i { c with manager := some m } .hydrating
  | (none, s) =>
    if created then (s.create i c).wasmPoolPut c.key s.managers.length
    else s.goto i c .ended

def exec : Op K O → Option (State K O)
  | .call key options => some { s with calls := s.calls ++ [⟨key, options, none, .arrived⟩] }
  | .acquire i created => s.calls[i]?.bind fun c =>
    if c.phase = .arrived then some (s.acquire i c created) else none
  | .connect i accepted => s.calls[i]?.bind fun c =>
    if c.phase = .hydrating then
      some (s.goto i c (if accepted then .connecting else .ended))
    else none
  -- a pooled manager is not closed when its connect fails
  | .ready i ok => s.calls[i]?.bind fun c =>
    if c.phase = .connecting then some (s.goto i c (if ok then .established else .ended))
    else none
  | .close i => s.calls[i]?.bind fun c =>
    if c.phase = .established then some (s.goto i c .ended) else none

def Step (op : Op K O) (t : State K O) : Prop := s.exec op = some t

end

end

/-! ## Managers -/

section

variable (s : State K O)

def keyOf (m : Nat) : Option K := s.managers[m]?.map Manager.key

def optionsOf (m : Nat) : Option O := s.managers[m]?.map Manager.options

def closes (m : Nat) : Nat := (s.managers[m]?.map Manager.closes).getD 0

/-- Whether the pool has manager `m`: 0 or 1. -/
def resident (m : Nat) : Nat := s.pool.countP (·.2 = m)

end

variable {s t : State K O} {op : Op K O} {i m : Nat} {c : Call K O} {key : K}

/-- Every manager is in the pool or was closed once, and has the key under which it is found
    and used. -/
structure Sound (s : State K O) : Prop where
  once : ∀ m < s.managers.length, s.closes m + s.resident m = 1
  stored : ∀ key m, (key, m) ∈ s.pool → s.keyOf m = some key
  obtained : ∀ c ∈ s.calls, ∀ m, c.manager = some m → s.keyOf m = some c.key
  created : ∀ m key, s.keyOf m = some key →
    ∃ c ∈ s.calls, c.key = key ∧ s.optionsOf m = some c.options

theorem sound_init : (init : State K O).Sound := by
  refine ⟨fun m h => ?_, fun key m h => ?_, fun c h => ?_, fun m key h => ?_⟩
  all_goals simp [init, keyOf] at h

theorem exists_mem_set {calls : List (Call K O)} {c' : Call K O} (hc : calls[i]? = some c)
    (hsame : c'.key = c.key ∧ c'.options = c.options) {d : Call K O} (hd : d ∈ calls) :
    ∃ d' ∈ calls.set i c', d'.key = d.key ∧ d'.options = d.options := by
  obtain ⟨j, hj⟩ := getElem?_of_mem hd
  by_cases hij : i = j
  · grind [List.mem_set]
  · refine ⟨d, mem_of_getElem? (i := j) ?_, rfl, rfl⟩
    rw [getElem?_set_ne hij, hj]

theorem Sound.calls {calls : List (Call K O)} (h : s.Sound)
    (hkeep : ∀ c ∈ s.calls, ∃ c' ∈ calls, c'.key = c.key ∧ c'.options = c.options)
    (hold : ∀ c ∈ calls, ∀ m, c.manager = some m →
      (∃ c' ∈ s.calls, c'.key = c.key ∧ c'.manager = some m) ∨ (c.key, m) ∈ s.pool) :
    Sound { s with calls } := by
  refine ⟨h.once, h.stored, fun c hc m hm => ?_, fun m key hm => ?_⟩
  · rcases hold c hc m hm with ⟨c', hc', hkey, hm'⟩ | hstored
    · rw [← hkey]
      exact h.obtained c' hc' m hm'
    · exact h.stored c.key m hstored
  · obtain ⟨c, hc, hkey, hoptions⟩ := h.created m key hm
    obtain ⟨c', hc', hkey', hoptions'⟩ := hkeep c hc
    exact ⟨c', hc', hkey'.trans hkey, hoptions' ▸ hoptions⟩

theorem Sound.goto (h : s.Sound) (hc : s.calls[i]? = some c) (phase : Phase) :
    (s.goto i c phase).Sound := by
  refine h.calls (fun d hd => ?_) fun d hd m hm => ?_
  · refine exists_mem_set hc ?_ hd
    exact ⟨rfl, rfl⟩
  · rcases mem_or_eq_of_mem_set hd with hd | rfl
    · exact .inl ⟨d, hd, rfl, hm⟩
    · exact .inl ⟨c, mem_of_getElem? hc, rfl, hm⟩

variable {pool : List (K × Nat)}

theorem Sound.perm (h : s.Sound) (hperm : s.pool.Perm pool)
    (order : List K) : Sound { s with pool, order } := by
  refine ⟨fun m hm => ?_, fun key m hmem => ?_, h.obtained, h.created⟩
  · rw [← h.once m hm, resident, resident, hperm.countP_eq]
    rfl
  · exact h.stored key m (hperm.mem_iff.mpr hmem)

theorem getElem?_close (managers : List (Manager K O)) (m m' : Nat) :
    (managers.modify m fun manager => { manager with closes := manager.closes + 1 })[m']? =
      managers[m']?.map fun manager =>
        { manager with closes := manager.closes + if m = m' then 1 else 0 } := by
  rw [getElem?_modify]
  cases managers[m']? with
  | none => rfl
  | some manager =>
    split <;> rfl

theorem Sound.evict (h : s.Sound) : s.evict.Sound := by
  cases hpool : s.pool with
  | nil =>
    rw [State.evict, hpool]
    exact h
  | cons entry pool =>
    obtain ⟨k, m⟩ := entry
    have hkey : s.evict.keyOf = s.keyOf := by grind [keyOf, State.evict]
    have hoptions : s.evict.optionsOf = s.optionsOf := by grind [optionsOf, State.evict]
    have hcalls : s.evict.calls = s.calls.map (Call.sever m) := by rw [State.evict, hpool]
    have hevicted : s.evict.pool = pool := by rw [State.evict, hpool]
    refine ⟨fun m' hm' => ?_, fun key m' hmem => ?_, fun c hc m' hm' => ?_, fun m' key hm' => ?_⟩
    · have hlt : m' < s.managers.length := by
        simpa [State.evict, hpool] using hm'
      have hcloses : s.evict.closes m' = s.closes m' + if m = m' then 1 else 0 := by
        simp only [closes, State.evict, hpool, getElem?_close,
          getElem?_eq_getElem hlt, map_some, getD_some]
      have honce := h.once m' hlt
      rw [resident, hpool, countP_cons] at honce
      rw [resident, hevicted]
      simp only [decide_eq_true_eq] at honce
      omega
    · rw [hkey]
      refine h.stored key m' ?_
      rw [hpool]
      exact mem_cons_of_mem _ (hevicted ▸ hmem)
    · rw [hcalls] at hc
      obtain ⟨c', hc', rfl⟩ := mem_map.mp hc
      rw [Call.sever_manager] at hm'
      rw [hkey, Call.sever_key]
      exact h.obtained c' hc' m' hm'
    · rw [hkey] at hm'
      obtain ⟨c, hc, hck, hco⟩ := h.created m' key hm'
      rw [hoptions, hcalls]
      refine ⟨_, mem_map_of_mem hc, ?_⟩
      rw [Call.sever_key, Call.sever_options]
      exact ⟨hck, hco⟩

/-- A manager is created and put into the pool. -/
theorem Sound.create (h : s.Sound) (hc : s.calls[i]? = some c) (order : List K) :
    Sound { s.create i c with pool := s.pool ++ [(c.key, s.managers.length)], order } := by
  obtain ⟨t, ht⟩ : ∃ t : State K O,
      { s.create i c with pool := s.pool ++ [(c.key, s.managers.length)], order } = t := ⟨_, rfl⟩
  rw [ht]
  have hfresh : s.keyOf s.managers.length = none := by
    rw [keyOf, getElem?_eq_none le_rfl]
    rfl
  have hkey : ∀ m, t.keyOf m = if m = s.managers.length then some c.key else s.keyOf m := by
    grind [keyOf, State.create]
  have hoptions : ∀ m, t.optionsOf m =
      if m = s.managers.length then some c.options else s.optionsOf m := by
    intro m
    rw [← ht, optionsOf, State.create, getElem?_concat]
    split <;> rfl
  have hcloses : ∀ m, t.closes m = if m = s.managers.length then 0 else s.closes m := by
    grind [closes, State.create]
  -- what has a key is not the new manager
  have hold : ∀ m key, s.keyOf m = some key → t.keyOf m = some key := by grind
  refine ⟨fun m hm => ?_, fun key m hmem => ?_, fun d hd m hm => ?_, fun m key hm => ?_⟩
  · have hresident : t.resident m =
        s.resident m + if m = s.managers.length then 1 else 0 := by
      rw [← ht, resident, countP_append]
      simp [resident, eq_comm]
    rw [hcloses, hresident]
    split
    · next hnew =>
      subst hnew
      have hnone : s.resident s.managers.length = 0 := by
        refine countP_eq_zero.mpr fun entry hentry hm => ?_
        have hstored := h.stored entry.1 entry.2 hentry
        rw [of_decide_eq_true hm, hfresh] at hstored
        cases hstored
      rw [hnone]
    · next hnew =>
      refine h.once m ?_
      rw [← ht, State.create, length_append, length_singleton] at hm
      omega
  · rw [← ht] at hmem
    rcases mem_append.mp hmem with hmem | hmem
    · exact hold m key (h.stored key m hmem)
    · cases mem_singleton.mp hmem
      rw [hkey, if_pos rfl]
  · rw [← ht] at hd
    rcases mem_or_eq_of_mem_set hd with hd | rfl
    · exact hold m d.key (h.obtained d hd m hm)
    · cases hm
      rw [hkey, if_pos rfl]
  · -- the calls still have their arguments
    have hkeep : ∀ d ∈ s.calls, ∃ d' ∈ t.calls, d'.key = d.key ∧ d'.options = d.options := by
      intro d hd
      rw [← ht]
      refine exists_mem_set hc ?_ hd
      exact ⟨rfl, rfl⟩
    rw [hkey] at hm
    rw [hoptions]
    split at hm
    · next hnew =>
      cases hm
      obtain ⟨d, hd, hdk, hdo⟩ := hkeep c (mem_of_getElem? hc)
      exact ⟨d, hd, hdk, by rw [if_pos hnew, hdo]⟩
    · next hnew =>
      obtain ⟨d, hd, hdk, hdo⟩ := h.created m key hm
      obtain ⟨d', hd', hdk', hdo'⟩ := hkeep d hd
      exact ⟨d', hd', hdk'.trans hdk, by rw [if_neg hnew, hdo, hdo']⟩

/-! ## The order of eviction -/

/-- The pool has the keys that were used last. -/
structure Ordered (s : State K O) : Prop where
  keys : s.pool.map Prod.fst = (s.order.take maxPoolSize).reverse
  nodup : s.order.Nodup

theorem Ordered.nodup_keys (h : s.Ordered) : (s.pool.map Prod.fst).Nodup := by
  rw [h.keys]
  exact nodup_reverse.mpr (h.nodup.sublist (take_sublist _ _))

theorem Ordered.length_le (h : s.Ordered) : s.pool.length ≤ maxPoolSize := by
  rw [← length_map, h.keys, length_reverse]
  exact length_take_le _ _

theorem evict_pool (s : State K O) : s.evict.pool = s.pool.tail := by
  cases hpool : s.pool <;> simp [evict, hpool]

theorem evict_order (s : State K O) : s.evict.order = s.order := by
  cases hpool : s.pool <;> simp [evict, hpool]

theorem trim_of_le (h : s.pool.length ≤ maxPoolSize + 1) :
    s.trim s.pool.length = if maxPoolSize < s.pool.length then s.evict else s := by
  cases hlength : s.pool.length with
  | zero => rfl
  | succ n =>
    rw [trim, hlength]
    split
    · next hlarge =>
      have hevict : s.evict.pool.length ≤ maxPoolSize := by
        rw [evict_pool, length_tail]
        exact sub_le_of_le_add h
      cases n with
      | zero => rfl
      | succ n => rw [trim, if_neg (not_lt.mpr hevict)]
    · rfl

/-! ## Sessions -/

/-- What carries a session is in the pool. -/
structure Kept (s : State K O) : Prop where
  pooled : ∀ c ∈ s.calls, ∀ m, c.uses = some m → (c.key, m) ∈ s.pool
  unsevered : ∀ c ∈ s.calls, c.phase ≠ .severed

theorem kept_init : (init : State K O).Kept :=
  ⟨fun _ h => (not_mem_nil h).elim, fun _ h => (not_mem_nil h).elim⟩

theorem Kept.evict (h : s.Kept) {k : K} (hpool : s.pool = (k, m) :: pool)
    (hunused : ∀ c ∈ s.calls, c.uses ≠ some m) : s.evict.Kept := by
  have hsame : ∀ c ∈ s.calls, c.sever m = c := fun c hc => if_neg (hunused c hc)
  have hcalls : s.evict.calls = s.calls := by
    unfold State.evict
    rw [hpool]
    exact (map_congr_left hsame).trans (map_id' _)
  refine ⟨fun c hc m' hm' => ?_, fun c hc => ?_⟩
  · rw [hcalls] at hc
    have hmem := h.pooled c hc m' hm'
    rw [evict_pool, hpool]
    rw [hpool] at hmem
    refine (mem_cons.mp hmem).resolve_left fun heq => ?_
    cases heq
    exact hunused c hc hm'
  · rw [hcalls] at hc
    exact h.unsevered c hc

/-! ## Steps -/

variable [DecidableEq K]

theorem lookup_perm (hnodup : (pool.map Prod.fst).Nodup)
    (hlookup : pool.lookup key = some m) : pool.Perm (delete pool key ++ [(key, m)]) := by
  induction pool with
  | nil => cases hlookup
  | cons entry pool ih =>
    obtain ⟨k, m'⟩ := entry
    rw [map_cons, nodup_cons] at hnodup
    rw [lookup_cons] at hlookup
    by_cases hk : key = k
    · subst hk
      rw [beq_self_eq_true] at hlookup
      cases hlookup
      have hrest : delete pool key = pool := by
        refine filter_eq_self.mpr fun entry hentry => ?_
        have hne : entry.1 ≠ key := by grind
        simpa using hne
      have hfirst : delete ((key, m) :: pool) key = delete pool key :=
        filter_cons_of_neg (by simp)
      rw [hfirst, hrest]
      exact (perm_append_singleton _ _).symm
    · rw [beq_false_of_ne hk] at hlookup
      have hfirst : delete ((k, m') :: pool) key = (k, m') :: delete pool key :=
        filter_cons_of_pos (by simpa using Ne.symm hk)
      rw [hfirst]
      exact (ih hnodup.2 hlookup).cons _

theorem insert_of_not_mem (h : key ∉ s.pool.map Prod.fst) (m : Nat) :
    s.insert key m = { s with pool := s.pool ++ [(key, m)], order := use key s.order } := by
  unfold insert set
  rw [if_neg h]

theorem map_delete (pool : List (K × Nat)) (key : K) :
    (delete pool key).map Prod.fst = (pool.map Prod.fst).filter (· ≠ key) := by
  rw [List.filter_map]
  rfl

theorem not_mem_of_lookup (h : pool.lookup key = none) : key ∉ pool.map Prod.fst := by
  intro hmem
  obtain ⟨entry, hentry, rfl⟩ := mem_map.mp hmem
  simpa using lookup_eq_none_iff.mp h entry hentry

theorem mem_of_lookup (h : pool.lookup key = some m) : (key, m) ∈ pool := by
  obtain ⟨before, after, hpool, -⟩ := lookup_eq_some_iff.mp h
  rw [hpool]
  exact mem_append_right _ mem_cons_self

inductive Effect (s : State K O) : Op K O → State K O → Prop
  | joined (key : K) (options : O) :
      Effect s (.call key options)
        { s with calls := s.calls ++ [⟨key, options, none, .arrived⟩] }
  /-- A call moves on or ends. -/
  | moved {op : Op K O} (i : Nat) (c : Call K O) (phase : Phase) (hc : s.calls[i]? = some c)
      (huses : ∀ m, ({ c with phase } : Call K O).uses = some m → c.uses = some m)
      (hphase : phase ≠ .severed) : Effect s op (s.goto i c phase)
  | hit (i m : Nat) (created : Bool) (c : Call K O) (hc : s.calls[i]? = some c)
      (hlookup : s.pool.lookup c.key = some m) :
      Effect s (.acquire i created)
        { s.goto i { c with manager := some m } .hydrating with
          pool := delete s.pool c.key ++ [(c.key, m)]
          order := use c.key s.order }
  | put (i : Nat) (created : Bool) (c : Call K O) (hc : s.calls[i]? = some c)
      (hlookup : s.pool.lookup c.key = none) :
      Effect s (.acquire i created) ((s.create i c).wasmPoolPut c.key s.managers.length)

theorem acquire_effect (hc : s.calls[i]? = some c) (created : Bool) :
    Effect s (.acquire i created) (s.acquire i c created) := by
  unfold acquire wasmPoolTake
  cases hlookup : s.pool.lookup c.key with
  | some m =>
    have hnot : c.key ∉ (delete s.pool c.key).map Prod.fst := by grind [map_delete]
    show Effect s _ (goto (insert { s with pool := delete s.pool c.key } c.key m) i _ _)
    rw [insert_of_not_mem hnot]
    exact .hit i m created c hc hlookup
  | none =>
    show Effect s _ (if created = true then _ else _)
    split
    · exact .put i created c hc hlookup
    · refine .moved i c .ended hc (fun m hm => ?_) (nofun)
      cases hm

attribute [local grind] Effect

theorem step_effect (h : Step s op t) : Effect s op t := by
  cases op <;> grind [Step, exec, acquire_effect, Call.uses]

/-- What the insertion of a new manager comes to in a pool that is not too large. -/
theorem put_eq (h : s.Ordered) (hlookup : s.pool.lookup c.key = none) (i : Nat) :
    (s.create i c).wasmPoolPut c.key s.managers.length =
      let t := { s.create i c with
        pool := s.pool ++ [(c.key, s.managers.length)]
        order := use c.key s.order }
      if maxPoolSize ≤ s.pool.length then t.evict else t := by
  have hnot : c.key ∉ (s.create i c).pool.map Prod.fst := not_mem_of_lookup hlookup
  have hlength : s.pool.length ≤ maxPoolSize := h.length_le
  rw [wasmPoolPut, insert_of_not_mem hnot, trim_of_le]
  · show (if maxPoolSize < (s.pool ++ [(c.key, s.managers.length)]).length then _ else _) = _
    rw [length_append, length_singleton]
    simp only [Nat.lt_succ_iff]
    rfl
  · show (s.pool ++ [(c.key, s.managers.length)]).length ≤ _
    rw [length_append]
    exact succ_le_succ hlength

theorem Sound.effect (h : s.Sound) (hordered : s.Ordered) (heffect : Effect s op t) : t.Sound := by
  cases heffect with
  | joined key options =>
    refine h.calls (fun d hd => ⟨d, mem_append_left _ hd, rfl, rfl⟩) fun d hd m hm => ?_
    rcases mem_append.mp hd with hd | hd
    · exact .inl ⟨d, hd, rfl, hm⟩
    · cases mem_singleton.mp hd
      cases hm
  | moved i c phase hc => exact h.goto hc phase
  | hit i m created c hc hlookup =>
    have hcalls : (s.goto i { c with manager := some m } .hydrating).Sound := by
      refine h.calls (fun d hd => ?_) fun d hd m' hm' => ?_
      · refine exists_mem_set hc ?_ hd
        exact ⟨rfl, rfl⟩
      · grind [mem_of_lookup]
    exact hcalls.perm (lookup_perm hordered.nodup_keys hlookup) _
  | put i created c hc hlookup =>
    rw [put_eq hordered hlookup]
    have hcreated := h.create hc (use c.key s.order)
    split
    · exact hcreated.evict
    · exact hcreated

theorem Ordered.effect (h : s.Ordered) (heffect : Effect s op t) : t.Ordered := by
  cases heffect with
  | joined | moved => exact ⟨h.keys, h.nodup⟩
  | hit i m created c hc hlookup =>
    refine ⟨?_, nodup_use c.key h.nodup⟩
    have hmem : c.key ∈ s.order.take maxPoolSize := by
      rw [← mem_reverse, ← h.keys]
      exact mem_map_of_mem (mem_of_lookup hlookup)
    rw [take_use_of_mem h.nodup hmem, map_append, map_delete, h.keys, filter_reverse,
      reverse_cons]
    rfl
  | put i created c hc hlookup =>
    have hnot : c.key ∉ s.order.take maxPoolSize := by
      rw [← mem_reverse, ← h.keys]
      exact not_mem_of_lookup hlookup
    have hlength : s.pool.length = (s.order.take maxPoolSize).length := by
      rw [← length_map, h.keys, length_reverse]
    rw [put_eq h hlookup]
    split
    · next hfull =>
      have hsome : s.pool.map Prod.fst ≠ [] := by
        intro hnil
        rw [map_eq_nil_iff.mp hnil] at hfull
        exact absurd hfull (not_succ_le_zero 31)
      have hexact : s.pool.length = maxPoolSize := le_antisymm h.length_le hfull
      refine ⟨?_, ?_⟩
      · rw [evict_pool, evict_order]
        rw [take_use_of_not_mem hnot, map_tail, map_append,
          tail_append_of_ne_nil hsome, h.keys, tail_reverse, dropLast_eq_take,
          ← hlength, hexact]
        show _ = (c.key :: (s.order.take maxPoolSize).take (maxPoolSize - 1)).reverse
        rw [reverse_cons]
        rfl
      · rw [evict_order]
        exact nodup_use c.key h.nodup
    · next hroom =>
      refine ⟨?_, nodup_use c.key h.nodup⟩
      rw [take_use_of_not_mem hnot, take_of_length_le, map_append, h.keys,
        reverse_cons]
      · rfl
      · rw [length_cons, ← hlength]
        exact Nat.lt_of_not_le hroom

/-- The condition on the steps: after a look-up, every manager that carries a session is still
    among the last 32 used. -/
def Recent (s : State K O) : Op K O → Prop
  | .acquire i _ => ∀ d ∈ s.calls[i]?, ∀ c ∈ s.calls, c.uses.isSome →
      (use d.key s.order).idxOf c.key < maxPoolSize
  | .call .. | .connect .. | .ready .. | .close _ => True

instance (s : State K O) : (op : Op K O) → Decidable (s.Recent op)
  | .acquire i _ => inferInstanceAs (Decidable (∀ d ∈ s.calls[i]?, ∀ c ∈ s.calls,
      c.uses.isSome → (use d.key s.order).idxOf c.key < maxPoolSize))
  | .call .. | .connect .. | .ready .. | .close _ => inferInstanceAs (Decidable True)

omit [DecidableEq K] in
theorem Kept.set (h : s.Kept) {d : Call K O} (hcalls : t.calls = s.calls.set i d)
    (hpool : ∀ entry ∈ s.pool, entry ∈ t.pool) (hd : ∀ m, d.uses = some m → (d.key, m) ∈ t.pool)
    (hphase : d.phase ≠ .severed) : t.Kept := by
  refine ⟨fun e he m hm => ?_, fun e he => ?_⟩
  · rw [hcalls] at he
    rcases mem_or_eq_of_mem_set he with he | rfl
    · exact hpool _ (h.pooled e he m hm)
    · exact hd m hm
  · rw [hcalls] at he
    rcases mem_or_eq_of_mem_set he with he | rfl
    · exact h.unsevered e he
    · exact hphase

theorem Kept.effect (h : s.Kept) (hsound : s.Sound) (hordered : s.Ordered) (hrecent : s.Recent op)
    (heffect : Effect s op t) : t.Kept := by
  cases heffect with
  | joined key options =>
    exact ⟨forall_mem_append.mpr ⟨h.pooled, forall_mem_singleton.mpr nofun⟩,
      forall_mem_append.mpr ⟨h.unsevered, forall_mem_singleton.mpr nofun⟩⟩
  | moved i c phase hc huses hphase =>
    exact h.set rfl (fun _ => id)
      (fun m hm => h.pooled c (mem_of_getElem? hc) m (huses m hm)) hphase
  | hit i m created c hc hlookup =>
    have hperm := lookup_perm hordered.nodup_keys hlookup
    refine h.set rfl (fun _ => hperm.mem_iff.mp)
      (fun m' hm' => hperm.mem_iff.mp ?_) Phase.noConfusion
    cases hm'
    exact mem_of_lookup hlookup
  | put i created c hc hlookup =>
    -- the state with the new manager, before anything is evicted
    obtain ⟨u, hu⟩ : ∃ u : State K O, { s.create i c with
        pool := s.pool ++ [(c.key, s.managers.length)]
        order := use c.key s.order } = u := ⟨_, rfl⟩
    have hkept : u.Kept := by
      rw [← hu]
      refine h.set rfl (fun _ => mem_append_left _) (fun m hm => ?_) Phase.noConfusion
      cases hm
      exact mem_append_right _ mem_cons_self
    have hordered' := hordered.effect (.put i created c hc hlookup)
    rw [put_eq hordered hlookup] at hordered' ⊢
    rw [hu] at hordered' ⊢
    split at hordered'
    · next hfull =>
      rw [if_pos hfull]
      have hsound' : u.Sound := hu ▸ hsound.create hc (use c.key s.order)
      have hused : ∀ d ∈ u.calls, d.uses.isSome → d.key ∈ (use c.key s.order).take maxPoolSize := by
        intro d hd hsome
        rw [← hu] at hd
        rcases mem_or_eq_of_mem_set hd with hd | rfl
        · obtain ⟨m, hm⟩ := isSome_iff_exists.mp hsome
          have hmem : d.key ∈ s.order := by
            refine mem_of_mem_take (i := maxPoolSize) ?_
            rw [← mem_reverse, ← hordered.keys]
            exact mem_map_of_mem (h.pooled d hd m hm)
          exact (mem_take_iff_idxOf_lt (mem_use hmem)).mpr (hrecent c hc d hd hsome)
        · exact mem_cons_self
      cases hpool : u.pool with
      | nil =>
        rw [← hu] at hpool
        exact absurd hpool (append_ne_nil_of_right_ne_nil _ (cons_ne_nil _ _))
      | cons entry pool =>
        obtain ⟨k, m⟩ := entry
        refine hkept.evict hpool fun d hd hm => ?_
        -- the evicted key would still be among the last 32 used
        have hk : d.key = k := by
          have hmine := hsound'.stored d.key m (hkept.pooled d hd m hm)
          have hfirst := hsound'.stored k m (hpool ▸ mem_cons_self)
          exact some.inj (hmine.symm.trans hfirst)
        have hmem := hused d hd (by rw [hm]; rfl)
        have horder : u.evict.order = use c.key s.order := by rw [evict_order, ← hu]
        rw [← horder, ← mem_reverse, ← hordered'.keys, evict_pool, hk, hpool] at hmem
        have hnodup : (u.pool.map Prod.fst).Nodup := by
          rw [← hu, map_append, nodup_append_comm]
          exact nodup_cons.mpr ⟨not_mem_of_lookup hlookup, hordered.nodup_keys⟩
        rw [hpool] at hnodup
        exact (nodup_cons.mp hnodup).1 hmem
    · next hroom => grind

theorem sound_of_run {ops : List (Op K O)} (hrun : Run Step init ops s) : s.Sound ∧ s.Ordered := by
  refine hrun.invariant (P := fun s => s.Sound ∧ s.Ordered) ?_ ⟨sound_init, rfl, nodup_nil⟩
  rintro s op t ⟨hsound, hordered⟩ hstep
  have heffect := step_effect hstep
  exact ⟨hsound.effect hordered heffect, hordered.effect heffect⟩

theorem kept_of_run {ops : List (Op K O)} (hrun : Run (restrict Recent Step) init ops s) :
    s.Kept := by
  have hall : s.Sound ∧ s.Ordered ∧ s.Kept := by
    refine hrun.invariant (P := fun s => s.Sound ∧ s.Ordered ∧ s.Kept) ?_
      ⟨sound_init, ⟨rfl, nodup_nil⟩, kept_init⟩
    rintro s op t ⟨hsound, hordered, hkept⟩ ⟨hrecent, hstep⟩
    have heffect := step_effect hstep
    exact ⟨hsound.effect hordered heffect, hordered.effect heffect,
      hkept.effect hsound hordered hrecent heffect⟩
  exact hall.2.2

end State

open State

/-- If every manager that carries a session is among the 32 keys used last, the pool severs no
    session; and every manager is resident or was closed once, in whichever run. -/
theorem pool_owns_managers {K O : Type} [DecidableEq K] :
    (∀ (ops : List (Op K O)) (s : State K O), Run (restrict Recent Step) init ops s →
      ∀ c ∈ s.calls, c.phase ≠ .severed) ∧
    ∀ (ops : List (Op K O)) (s : State K O), Run Step init ops s →
      ∀ m < s.managers.length, s.closes m = 0 ∧ s.resident m = 1 ∨
        s.closes m = 1 ∧ s.resident m = 0 := by
  refine ⟨fun ops s hrun => (kept_of_run hrun).unsevered, fun ops s hrun m hm => ?_⟩
  have honce := (sound_of_run hrun).1.once m hm
  omega

def connected (key i : Nat) : List (Op Nat Unit) :=
  [.call key (), .acquire i true, .connect i true, .ready i true]

theorem pool_owns_managers_two_keys :
    ∃ s, Run (restrict Recent Step) init (connected 0 0 ++ connected 1 1) s ∧
      s.managers.length = 2 ∧ (∀ c ∈ s.calls, c.phase ≠ .severed) ∧
      ∀ m < s.managers.length, s.closes m = 0 ∧ s.resident m = 1 ∨
        s.closes m = 1 ∧ s.resident m = 0 := by
  refine Run.exists_of_execAll (·.managers.length = 2) (fun _ _ _ => restrict_of_guarded)
    (by decide +kernel) fun s hrun hlength => ?_
  exact ⟨hlength, pool_owns_managers.1 _ s hrun, pool_owns_managers.2 _ s hrun.of_restrict⟩

/-- A session and, while it is open, connects to 32 other keys. -/
def manyKeys : List (Op Nat Unit) :=
  connected 0 0 ++
    (range 32).flatMap fun j => [.call (j + 1) (), .acquire (j + 1) true]

/-- The pool closes the endpoint of the open session. -/
theorem pool_severs_session :
    ∃ s c, Run Step init manyKeys s ∧ s.calls[0]? = some c ∧ c.phase = .severed ∧
      s.closes 0 = 1 := by
  have hexec : (execAll exec init manyKeys).map
      (fun s => (s.calls[0]?.map (·.phase), s.closes 0)) = some (some .severed, 1) := by
    decide +kernel
  obtain ⟨s, hs, hstate⟩ := map_eq_some_iff.mp hexec
  simp only [Prod.mk.injEq] at hstate
  obtain ⟨c, hc, hphase⟩ := map_eq_some_iff.mp hstate.1
  exact ⟨s, c, Run.of_execAll (fun _ _ _ h => h) hs, hc, hphase, hstate.2⟩

end WebTransportBun.Facade.WasmPool
