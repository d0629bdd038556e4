/-
  WebTransportBun.Wasm.RateCeiling

  How many checks the rate limiter grants in a window of time.

  The level of a bucket counts in fixed-point tokens times nanoseconds, so that what flows
  in per nanosecond is a whole number and no rounding is left (`tank`).  A refill rounds
  down, so it never raises the level; what a refill of nothing leaves uncounted is less
  than one fixed-point token, which is why the cap is that much above a full bucket.  An
  eviction replaces the bucket by a full one; the level was already that of a full bucket
  if the idle time is long enough to fill it (`RefillsWithin`).
-/

import Mathlib.Tactic.Ring
import WebTransportBun.Library.Meter
import WebTransportBun.Library.Run
import WebTransportBun.Wasm.RateLimiter

namespace WebTransportBun.Wasm

open Library List Option Library.Map Nat PeerRateLimiter TokenBucketConfig TokenBucketState
    RateLimitDimension PeerBucket

def nanosPerSec : Nat := 1000000000

/-! ## Runs -/

/-- The limiter, the time of the last call, and the checks granted so far. -/
structure RateRun where
  limiter : PeerRateLimiter
  clock : Nat
  grants : List (Nat × PeerKey × RateLimitDimension)

inductive RateOp
  | check (now : Nat) (source : SocketAddr) (d : RateLimitDimension)
  | checkConnection (now conn : Nat) (d : RateLimitDimension)
  | attachConnection (conn : Nat) (source : SocketAddr) (now : Nat)
  | releaseConnection (conn now : Nat)
  deriving DecidableEq, Repr

def RateOp.now : RateOp → Nat
  | check now _ _ | checkConnection now _ _ | attachConnection _ _ now
  | releaseConnection _ now => now

/-- The peer that a check is made for, and its dimension. -/
def RateRun.asks (s : RateRun) : RateOp → Option (PeerKey × RateLimitDimension)
  | .check _ source d => some (.fromSocketAddr source, d)
  | .checkConnection _ conn d => (s.limiter.connectionOwners.get? conn).map (·, d)
  | _ => none

/-- What a call returns, and the limiter it leaves. -/
def PeerRateLimiter.call (l : PeerRateLimiter) : RateOp → Except String Unit × PeerRateLimiter
  | .check now source d => l.check now source d
  | .checkConnection now conn d => l.checkConnection now conn d
  | .attachConnection conn source now => l.attachConnection conn source now
  | .releaseConnection conn now => (.ok (), l.releaseConnection conn now)

def newGrants (result : Except String Unit) (now : Nat) :
    Option (PeerKey × RateLimitDimension) → List (Nat × PeerKey × RateLimitDimension)
  | some (peer, d) => if result = .ok () then [(now, peer, d)] else []
  | none => []

section

variable (s : RateRun)

/-- One call, not before the last one. -/
def RateRun.exec (op : RateOp) : Option RateRun :=
  if s.clock ≤ op.now then
    let (result, limiter) := s.limiter.call op
    some ⟨limiter, op.now, s.grants ++ newGrants result op.now (s.asks op)⟩
  else none

def RateRun.Step (op : RateOp) (t : RateRun) : Prop := s.exec op = some t

def RateRun.grantedTo (peer : PeerKey) (d : RateLimitDimension) : List Nat :=
  (s.grants.filter fun g => g.2.1 = peer ∧ g.2.2 = d).map Prod.fst

def RateRun.grantedIn (pre : PrefixKey) (d : RateLimitDimension) : List Nat :=
  (s.grants.filter fun g => g.2.1.aggregate = pre ∧ g.2.2 = d).map Prod.fst

end

/-- Burst, and rate times the window, rounded up. -/
def TokenBucketConfig.ceiling (c : TokenBucketConfig) (nanos : Nat) : Nat :=
  c.burst + (c.ratePerSec * nanos + (nanosPerSec - 1)) / nanosPerSec

/-- An empty bucket is full again within the time. -/
def TokenBucketConfig.RefillsWithin (c : TokenBucketConfig) (nanos : Nat) : Prop :=
  c.burst * nanosPerSec ≤ c.ratePerSec * nanos

instance (c : TokenBucketConfig) (nanos : Nat) : Decidable (c.RefillsWithin nanos) :=
  inferInstanceAs (Decidable (_ ≤ _))

/-! ## The level of a bucket -/

namespace TokenBucketConfig

section

variable (c : TokenBucketConfig)

def full : Nat := c.burst * rateLimitFpScale * nanosPerSec

/-- A full bucket, and less than one fixed-point token on top. -/
def cap : Nat := c.full + (nanosPerSec - 1)

/-- What flows in per nanosecond. -/
def inflow : Nat := c.ratePerSec * rateLimitFpScale

end

def cost : Nat := rateLimitFpScale * nanosPerSec

/-- What a bucket would hold at `now` without rounding and without its brim. -/
def tank (c : TokenBucketConfig) (now : Nat) (b : TokenBucketState) : Nat :=
  b.tokensFp * nanosPerSec + c.inflow * (now - b.lastRefill)

theorem tank_advance (c : TokenBucketConfig) {now now' : Nat} (h : now ≤ now')
    (b : TokenBucketState) : c.tank now' b ≤ c.tank now b + c.inflow * (now' - now) := by
  have hsplit : c.inflow * (now' - b.lastRefill) ≤
      c.inflow * (now - b.lastRefill) + c.inflow * (now' - now) := by
    rw [← mul_add]
    exact mul_le_mul_left _ (by omega)
  simp only [tank]
  omega

end TokenBucketConfig

namespace TokenBucketState

variable {b : TokenBucketState} {c : TokenBucketConfig} {now : Nat}

theorem new_eq (now : Nat) (c : TokenBucketConfig) :
    new now c = ⟨c.burst * rateLimitFpScale, now⟩ := rfl

section

variable (b : TokenBucketState)

theorem spend_eq :
    b.spend = ⟨b.tokensFp - rateLimitFpScale, b.lastRefill⟩ := rfl

theorem refill_eq (now : Nat) (c : TokenBucketConfig) :
    b.refill now c =
      if now - b.lastRefill = 0 ∨ c.inflow * (now - b.lastRefill) / nanosPerSec = 0 then b
      else ⟨min (b.tokensFp + c.inflow * (now - b.lastRefill) / nanosPerSec)
        (c.burst * rateLimitFpScale), now⟩ := by
  have hflow : (now - b.lastRefill) * c.ratePerSec * rateLimitFpScale =
      c.inflow * (now - b.lastRefill) := by
    rw [inflow, mul_assoc, mul_comm]
  simp only [refill, hflow]
  exact if_congr Iff.rfl rfl rfl

theorem refill_spec (now : Nat) (c : TokenBucketConfig)
    (htokens : b.tokensFp ≤ c.burst * rateLimitFpScale) (hlast : b.lastRefill ≤ now) :
    c.tank now (b.refill now c) ≤ c.tank now b ∧ c.tank now (b.refill now c) ≤ c.cap ∧
      (b.refill now c).tokensFp ≤ c.burst * rateLimitFpScale ∧
      (b.refill now c).lastRefill ≤ now := by
  have hpos : 0 < nanosPerSec := by decide
  have hfull : b.tokensFp * nanosPerSec ≤ c.full := mul_le_mul_right _ htokens
  rw [refill_eq]
  split
  · next hnothing =>
    -- Nothing to add: less than one fixed-point token has come in since the last refill.
    have hlittle : c.inflow * (now - b.lastRefill) ≤ nanosPerSec - 1 := by
      rcases hnothing with hzero | hzero
      · rw [hzero]
        exact zero_le _
      · exact le_sub_one_of_lt ((div_eq_zero_iff_lt hpos).mp hzero)
    exact ⟨le_rfl, Nat.add_le_add hfull hlittle, htokens, hlast⟩
  · have hnow : ∀ tokens, c.tank now ⟨tokens, now⟩ = tokens * nanosPerSec := by
      intro tokens
      rw [tank, Nat.sub_self, mul_zero, add_zero]
    rw [hnow]
    refine ⟨?_, ?_, min_le_right _ _, le_rfl⟩
    · calc min (b.tokensFp + c.inflow * (now - b.lastRefill) / nanosPerSec)
            (c.burst * rateLimitFpScale) * nanosPerSec
          ≤ (b.tokensFp + c.inflow * (now - b.lastRefill) / nanosPerSec) * nanosPerSec :=
            mul_le_mul_right _ (min_le_left _ _)
        _ ≤ c.tank now b := by
          rw [add_mul]
          exact Nat.add_le_add_left (Nat.div_mul_le_self _ _) _
    · exact le_trans (mul_le_mul_right _ (min_le_right _ _)) (le_add_right _ _)

end

variable (c now) in
theorem tank_spend (h : rateLimitFpScale ≤ b.tokensFp) :
    c.tank now b.spend + cost = c.tank now b := by
  rw [spend_eq, tank, cost, add_right_comm, ← add_mul,
    Nat.sub_add_cancel h, tank]

end TokenBucketState

/-! ## Buckets in a map -/

structure Stored (config : RateLimitDimension → TokenBucketConfig) (now : Nat) (b : PeerBucket) :
    Prop where
  touched : b.lastTouched ≤ now
  refilled : ∀ d, (b.bucket d).lastRefill ≤ b.lastTouched
  tokens : ∀ d, (b.bucket d).tokensFp ≤ (config d).burst * rateLimitFpScale

/-- The level that a peer has; without a bucket, that of a full one. -/
def level (config : RateLimitDimension → TokenBucketConfig) (d : RateLimitDimension) (now : Nat) :
    Option PeerBucket → Nat
  | none => (config d).full
  | some b => min (config d).cap ((config d).tank now (b.bucket d))

section

variable {config : RateLimitDimension → TokenBucketConfig} {d e : RateLimitDimension}
  {now now' idleTtl : Nat} {b : PeerBucket}

theorem level_le_cap (o : Option PeerBucket) : level config d now o ≤ (config d).cap := by
  cases o with
  | none => exact le_add_right _ _
  | some b => exact min_le_left _ _

theorem level_advance (h : now ≤ now') (o : Option PeerBucket) :
    level config d now' o ≤ level config d now o + (config d).inflow * (now' - now) := by
  cases o with
  | none => exact le_add_right _ _
  | some b =>
    have htank := (config d).tank_advance h (b.bucket d)
    simp only [level]
    omega

theorem level_fresh : level config d now (some (withConfig now config)) =
    (config d).full := by
  have hbucket : (withConfig now config).bucket d = .new now (config d) := rfl
  have htank : (config d).tank now (.new now (config d)) = (config d).full := by
    rw [new_eq, tank, Nat.sub_self, mul_zero, add_zero,
      full]
  rw [level, hbucket, htank]
  exact min_eq_right (le_add_right _ _)

theorem stored_fresh : Stored config now (withConfig now config) :=
  ⟨le_rfl, fun _ => le_rfl, fun _ => le_rfl⟩

/-- A bucket that idles long enough to be evicted is full. -/
theorem full_le_level (h : Stored config now b) (hidle : b.live now idleTtl = false)
    (hrefills : (config d).RefillsWithin idleTtl) :
    (config d).full ≤ level config d now (some b) := by
  simp only [live, Bool.or_eq_false_iff, decide_eq_false_iff_not] at hidle
  have hrefilled := h.refilled d
  have hlong : idleTtl ≤ now - (b.bucket d).lastRefill := by omega
  refine Nat.le_min.mpr ⟨Nat.le_add_right _ _, ?_⟩
  calc (config d).full
      = (config d).burst * nanosPerSec * rateLimitFpScale := mul_right_comm _ _ _
    _ ≤ (config d).ratePerSec * idleTtl * rateLimitFpScale := mul_le_mul_right _ hrefills
    _ = (config d).inflow * idleTtl := mul_right_comm _ _ _
    _ ≤ (config d).inflow * (now - (b.bucket d).lastRefill) := mul_le_mul_left _ hlong
    _ ≤ (config d).tank now (b.bucket d) := le_add_left _ _

theorem mapBucket_bucket (b : PeerBucket) (e : RateLimitDimension)
    (f : TokenBucketState → TokenBucketState) (d : RateLimitDimension) :
    (b.mapBucket e f).bucket d = if d = e then f (b.bucket e) else b.bucket d := rfl

def peeked (config : RateLimitDimension → TokenBucketConfig) (d : RateLimitDimension) (now : Nat)
    (b : PeerBucket) : PeerBucket :=
  { b.mapBucket d fun _ => (b.bucket d).refill now (config d) with lastTouched := now }

variable (config e now) in
theorem peeked_bucket (b : PeerBucket) (d : RateLimitDimension) :
    (peeked config e now b).bucket d =
      if d = e then (b.bucket e).refill now (config e) else b.bucket d := rfl

/-- A peek keeps the bucket sound and raises no level. -/
theorem peeked_spec (h : Stored config now b) : Stored config now (peeked config e now b) ∧
      (config e).tank now ((peeked config e now b).bucket e) ≤ (config e).cap ∧
      level config d now (some (peeked config e now b)) ≤ level config d now (some b) := by
  have hlast := le_trans (h.refilled e) h.touched
  have hspec := refill_spec (b.bucket e) now (config e) (h.tokens e) hlast
  have hbucket := peeked_bucket config e now b
  have htouched : (peeked config e now b).lastTouched = now := rfl
  generalize peeked config e now b = after at hbucket htouched ⊢
  generalize (b.bucket e).refill now (config e) = refilled at hspec hbucket
  obtain ⟨htank, hcap, htokens, hrefill⟩ := hspec
  refine ⟨⟨le_of_eq htouched, fun d => ?_, fun d => ?_⟩, ?_, ?_⟩
  · rw [hbucket, htouched]
    split
    · exact hrefill
    · exact le_trans (h.refilled d) h.touched
  · rw [hbucket]
    split
    · next hd =>
      rw [hd]
      exact htokens
    · exact h.tokens d
  · rw [hbucket, if_pos rfl]
    exact hcap
  · rw [level, level, hbucket]
    split
    · next hd =>
      rw [hd]
      exact min_le_min_left _ htank
    · exact le_rfl

/-- Spending a token that is there, from a bucket below its cap. -/
theorem spend_spec (h : Stored config now b) (hready : rateLimitFpScale ≤ (b.bucket e).tokensFp)
    (hcap : (config e).tank now (b.bucket e) ≤ (config e).cap) :
    Stored config now (b.mapBucket e .spend) ∧
      level config d now (some (b.mapBucket e .spend)) +
          (if d = e then cost else 0) ≤ level config d now (some b) := by
  have htouched : (b.mapBucket e .spend).lastTouched = b.lastTouched := rfl
  have hbucket := mapBucket_bucket b e .spend
  generalize b.mapBucket e .spend = after at hbucket htouched ⊢
  refine ⟨⟨htouched ▸ h.touched, fun d => ?_, fun d => ?_⟩, ?_⟩
  · rw [hbucket, htouched]
    split
    · rw [spend_eq]
      exact h.refilled e
    · exact h.refilled d
  · rw [hbucket]
    split
    · next hd =>
      rw [spend_eq, hd]
      exact le_trans (sub_le _ _) (h.tokens e)
    · exact h.tokens d
  · rw [level, level, hbucket]
    by_cases hd : d = e
    · have hspend := tank_spend (config e) now hready
      rw [hd, if_pos rfl, if_pos rfl, min_eq_right hcap, ← hspend]
      exact Nat.add_le_add_right (min_le_right _ _) _
    · rw [if_neg hd, if_neg hd, add_zero]

end

/-! ## Maps of buckets -/

/-- What a call does to a map of buckets at `now`: sound buckets, and for every key a level
    that is down by at least its charge. -/
structure Moves {K : Type} [DecidableEq K] (config : RateLimitDimension → TokenBucketConfig)
    (d : RateLimitDimension) (now : Nat) (charge : K → Nat) (m m' : Map K PeerBucket) : Prop where
  stored : ∀ k b, m'.get? k = some b → Stored config now b
  paid : ∀ k, level config d now (m'.get? k) + charge k ≤ level config d now (m.get? k)

section

variable {K : Type} [DecidableEq K] {config : RateLimitDimension → TokenBucketConfig}
  {d e : RateLimitDimension} {now idleTtl : Nat} {m m' m'' : Map K PeerBucket} {charge : K → Nat}

theorem Moves.refl (h : ∀ k b, m.get? k = some b → Stored config now b) :
    Moves config d now (fun _ => 0) m m :=
  ⟨h, fun _ => le_of_eq (add_zero _)⟩

theorem Moves.trans (h : Moves config d now (fun _ => 0) m m')
    (h' : Moves config d now charge m' m'') : Moves config d now charge m m'' := by
  refine ⟨h'.stored, fun k => le_trans (h'.paid k) ?_⟩
  have hpaid := h.paid k
  rwa [add_zero] at hpaid

theorem Moves.congr {charge' : K → Nat} (h : Moves config d now charge m m')
    (hcharge : ∀ k, charge' k = charge k) : Moves config d now charge' m m' :=
  ⟨h.stored, fun k => (hcharge k).symm ▸ h.paid k⟩

variable {key : K}

section

variable (hm : ∀ k b, m.get? k = some b → Stored config now b)

include hm

theorem Moves.at {o : Option PeerBucket} (hget : ∀ k, m'.get? k = if k = key then o else m.get? k)
    (hstored : ∀ b ∈ o, Stored config now b) {paid : Nat}
    (hpaid : level config d now o + paid ≤ level config d now (m.get? key)) :
    Moves config d now (fun k => if k = key then paid else 0) m m' := by
  refine ⟨fun k b hb => ?_, fun k => ?_⟩
  · grind
  · grind

theorem Moves.keep (key : K) {o : Option PeerBucket}
    (hget : ∀ k, m'.get? k = if k = key then o else m.get? k)
    (hstored : ∀ b ∈ o, Stored config now b)
    (hlevel : level config d now o ≤ level config d now (m.get? key)) :
    Moves config d now (fun _ => 0) m m' := by
  simpa only [ite_self] using Moves.at hm hget hstored (show _ + 0 ≤ _ from hlevel)

theorem Moves.evict (hrefills : (config d).RefillsWithin idleTtl) :
    Moves config d now (fun _ => 0) m (m.filter fun _ b => b.live now idleTtl) := by
  refine ⟨fun k b hb => ?_, fun k => ?_⟩
  · rw [get?_filter] at hb
    exact hm k b (filter_eq_some_iff.mp hb).1
  · rw [get?_filter, add_zero]
    cases hb : m.get? k with
    | none => exact le_rfl
    | some b =>
      rw [filter_some]
      cases hlive : b.live now idleTtl with
      | true => exact le_rfl
      | false => exact full_le_level (hm k b hb) hlive hrefills

theorem Moves.fresh (hnone : m.get? key = none) :
    Moves config d now (fun _ => 0) m (m.insert key (.withConfig now config)) := by
  refine .keep hm key (get?_insert m key · _) ?_ ?_
  · rintro b ⟨⟩
    exact stored_fresh
  · rw [hnone, level_fresh]
    exact le_rfl

theorem Moves.setOwners {owners : PeerBucket → Nat} :
    Moves config d now (fun _ => 0) m (m.modify key fun b => b.setOwners (owners b) now) := by
  refine .keep (o := (m.get? key).map fun b => b.setOwners (owners b) now) hm key ?_ ?_ ?_
  · grind [get?_modify]
  · intro b hb
    obtain ⟨b, hget, rfl⟩ := map_eq_some_iff.mp hb
    have hstored := hm key b hget
    exact ⟨le_rfl, fun d => le_trans (hstored.refilled d) hstored.touched,
      hstored.tokens⟩
  · cases m.get? key with
    | none => exact le_rfl
    | some b => exact le_rfl

variable {b : PeerBucket}

theorem Moves.peek (hb : m.get? key = some b) :
    Moves config d now (fun _ => 0) m (m.insert key (peeked config e now b)) := by
  refine .keep hm key (get?_insert m key · _) ?_ ?_
  · rintro _ ⟨⟩
    exact (peeked_spec (d := d) (hm key b hb)).1
  · rw [hb]
    exact (peeked_spec (hm key b hb)).2.2

/-- The token that a peek found is spent. -/
theorem Moves.spend (hb : m.get? key = some b)
    (hready : rateLimitFpScale ≤ ((b.bucket e).refill now (config e)).tokensFp) :
    Moves config d now
      (fun k => if k = key then if d = e then cost else 0 else 0) m
      ((m.insert key (peeked config e now b)).modify key fun b => b.mapBucket e .spend) := by
  obtain ⟨hstored, hcap, -⟩ := peeked_spec (d := d) (hm key b hb)
  have hfound : rateLimitFpScale ≤ ((peeked config e now b).bucket e).tokensFp := by
    rwa [peeked_bucket, if_pos rfl]
  obtain ⟨hspent, hpaid⟩ := spend_spec hstored hfound hcap
  refine (Moves.peek (e := e) hm hb).trans (.at ?_
    (o := some ((peeked config e now b).mapBucket e .spend)) ?_ ?_ ?_)
  · exact (Moves.peek (d := d) (e := e) hm hb).stored
  · grind [get?_modify, get?_insert]
  · rintro _ ⟨⟩
    exact hspent
  · rw [get?_insert, if_pos rfl]
    exact hpaid

end

end

/-! ## Calls -/

namespace PeerRateLimiter

def peerConfig (l : PeerRateLimiter) (d : RateLimitDimension) : TokenBucketConfig :=
  d.bucketConfig l.rateLimits

def prefixConfig (l : PeerRateLimiter) (d : RateLimitDimension) : TokenBucketConfig :=
  d.aggregateBucketConfig l.rateLimits

/-- Buckets as the limiter keeps them, and an idle time that fills them. -/
structure Sound (l : PeerRateLimiter) (d : RateLimitDimension) (now : Nat) : Prop where
  peers : ∀ k b, l.buckets.get? k = some b → Stored l.peerConfig now b
  prefixes : ∀ k b, l.prefixBuckets.get? k = some b → Stored l.prefixConfig now b
  peerRefills : (l.peerConfig d).RefillsWithin l.idleTtl
  prefixRefills : (l.prefixConfig d).RefillsWithin l.idleTtl

/-- What a call at `now` does to the levels of one dimension, when it grants a check of that
    dimension to `granted`. -/
structure Moved (d : RateLimitDimension) (now : Nat) (granted : Option PeerKey)
    (l l' : PeerRateLimiter) : Prop where
  rateLimits : l'.rateLimits = l.rateLimits
  idleTtl : l'.idleTtl = l.idleTtl
  peers : Moves l.peerConfig d now
    (fun k => if granted = some k then cost else 0) l.buckets l'.buckets
  prefixes : Moves l.prefixConfig d now
    (fun k => if granted.map PeerKey.aggregate = some k then cost else 0)
    l.prefixBuckets l'.prefixBuckets

section

variable {d e : RateLimitDimension} {now : Nat} {l l' l'' : PeerRateLimiter}
  {granted : Option PeerKey} {peer : PeerKey}

theorem Moved.config (h : Moved d now granted l l') :
    l'.peerConfig = l.peerConfig ∧ l'.prefixConfig = l.prefixConfig := by
  constructor <;> funext d
  · rw [peerConfig, h.rateLimits, peerConfig]
  · rw [prefixConfig, h.rateLimits, prefixConfig]

theorem Moved.sound (h : Moved d now granted l l') (hl : l.Sound d now) : l'.Sound d now := by
  obtain ⟨hpeer, hnet⟩ := h.config
  refine ⟨?_, ?_, ?_, ?_⟩
  · rw [hpeer]
    exact h.peers.stored
  · rw [hnet]
    exact h.prefixes.stored
  · rw [hpeer, h.idleTtl]
    exact hl.peerRefills
  · rw [hnet, h.idleTtl]
    exact hl.prefixRefills

theorem Moved.trans (h : Moved d now none l l') (h' : Moved d now granted l' l'') :
    Moved d now granted l l'' := by
  obtain ⟨hpeer, hnet⟩ := h.config
  have hpeers := h'.peers
  have hnets := h'.prefixes
  rw [hpeer] at hpeers
  rw [hnet] at hnets
  exact ⟨h'.rateLimits.trans h.rateLimits, h'.idleTtl.trans h.idleTtl, h.peers.trans hpeers,
    h.prefixes.trans hnets⟩

section

variable (hl : l.Sound d now)

include hl

theorem Moved.refl : Moved d now none l l :=
  ⟨rfl, rfl, .refl hl.peers, .refl hl.prefixes⟩

theorem evictIdleZeroOwner_moved :
    Moved d now none l (l.evictIdleZeroOwner now) :=
  ⟨rfl, rfl, .evict hl.peers hl.peerRefills, .evict hl.prefixes hl.prefixRefills⟩

theorem bumpCounter_moved (counted : Nat) :
    Moved d now none l { l.bumpCounter e with rateLimitedByPrefixCount := counted } :=
  ⟨rfl, rfl, .refl hl.peers, .refl hl.prefixes⟩

/-- `ensure_bucket`: on success the peer has a bucket. -/
theorem ensureBucket_moved (peer : PeerKey) :
    Moved d now none l (l.ensureBucket now peer e).2 ∧ ((l.ensureBucket now peer e).1 = .ok () →
        ∃ b, (l.ensureBucket now peer e).2.buckets.get? peer = some b) := by
  have hevict := evictIdleZeroOwner_moved hl
  have hsound := hevict.sound hl
  simp only [ensureBucket]
  generalize l.evictIdleZeroOwner now = u at hevict hsound
  split
  · next hcontains =>
    exact ⟨hevict, fun _ => contains_iff.mp hcontains⟩
  next hcontains =>
  split
  · refine ⟨hevict.trans (bumpCounter_moved hsound _), fun hok => ?_⟩
    cases hok
  · have hnone := get?_eq_none_of_contains hcontains
    exact ⟨hevict.trans ⟨rfl, rfl, .fresh hsound.peers hnone, .refl hsound.prefixes⟩,
      fun _ => ⟨_, (get?_insert ..).trans (if_pos rfl)⟩⟩

theorem ensurePrefixBucket_moved (pre : PrefixKey) :
    Moved d now none l (l.ensurePrefixBucket now pre e).2 ∧
      (l.ensurePrefixBucket now pre e).2.buckets = l.buckets ∧
      ((l.ensurePrefixBucket now pre e).1 = .ok () →
        ∃ b, (l.ensurePrefixBucket now pre e).2.prefixBuckets.get? pre = some b) := by
  simp only [ensurePrefixBucket]
  split
  · next hcontains => exact ⟨.refl hl, rfl, fun _ => contains_iff.mp hcontains⟩
  next hcontains =>
  split
  · refine ⟨bumpCounter_moved hl _, rfl, fun hok => ?_⟩
    cases hok
  · have hnone := get?_eq_none_of_contains hcontains
    exact ⟨⟨rfl, rfl, .refl hl.peers, .fresh hl.prefixes hnone⟩, rfl,
      fun _ => ⟨_, (get?_insert ..).trans (if_pos rfl)⟩⟩

end

variable (d now) in
theorem peekIn_eq {K : Type} [DecidableEq K] {m : Map K PeerBucket} {key : K}
    (config : RateLimitDimension → TokenBucketConfig) (hb : m.get? key = some b) :
    peekIn m key now d (config d) =
      (decide (rateLimitFpScale ≤ ((b.bucket d).refill now (config d)).tokensFp),
        m.insert key (peeked config d now b)) := by
  rw [peekIn, hb]
  rfl

section

variable (hl : l.Sound d now)

include hl

theorem peeked_moved {b pb : PeerBucket}
    (hb : l.buckets.get? peer = some b) (hpb : l.prefixBuckets.get? peer.aggregate = some pb) :
    Moved d now none l { l with
      buckets := l.buckets.insert peer (peeked l.peerConfig e now b)
      prefixBuckets := l.prefixBuckets.insert peer.aggregate (peeked l.prefixConfig e now pb) } :=
  ⟨rfl, rfl, .peek hl.peers hb, .peek hl.prefixes hpb⟩

/-- Spending in both charges the peer, in the dimension that was checked. -/
theorem spent_moved {b pb : PeerBucket}
    (hb : l.buckets.get? peer = some b) (hpb : l.prefixBuckets.get? peer.aggregate = some pb)
    (hready : rateLimitFpScale ≤ ((b.bucket e).refill now (l.peerConfig e)).tokensFp)
    (hpready : rateLimitFpScale ≤ ((pb.bucket e).refill now (l.prefixConfig e)).tokensFp) :
    Moved d now (if e = d then some peer else none) l { l with
      buckets := (l.buckets.insert peer (peeked l.peerConfig e now b)).modify peer
        fun b => b.mapBucket e .spend
      prefixBuckets := (l.prefixBuckets.insert peer.aggregate
        (peeked l.prefixConfig e now pb)).modify peer.aggregate
        fun b => b.mapBucket e .spend } := by
  refine ⟨rfl, rfl, (Moves.spend hl.peers hb hready).congr fun k => ?_,
    (Moves.spend hl.prefixes hpb hpready).congr fun k => ?_⟩
  · grind
  · grind

/-- `check_peer`: a granted check of the dimension is paid for in both maps. -/
theorem checkPeer_moved {result : Except String Unit}
    (hcall : l.checkPeer now peer e = (result, l')) :
    Moved d now (if result = .ok () ∧ e = d then some peer else none) l l' := by
  obtain ⟨hmoved, hhas⟩ := ensureBucket_moved hl peer
  rcases hensure : l.ensureBucket now peer e with ⟨first, u⟩
  rw [hensure] at hmoved hhas
  rw [checkPeer, hensure] at hcall
  cases first with
  | error err =>
    cases hcall
    exact hmoved
  | ok _ =>
  obtain ⟨b, hb⟩ := hhas rfl
  have hu := hmoved.sound hl
  obtain ⟨hmoved', hsame, hhas'⟩ :=
    ensurePrefixBucket_moved hu peer.aggregate
  rcases hensure' : u.ensurePrefixBucket now peer.aggregate e with ⟨second, v⟩
  rw [hensure'] at hmoved' hhas' hsame
  simp only [hensure'] at hcall
  cases second with
  | error err =>
    cases hcall
    rw [if_neg nofun]
    exact hmoved.trans hmoved'
  | ok _ =>
  obtain ⟨pb, hpb⟩ := hhas' rfl
  have hv := hmoved'.sound hu
  have hbv : v.buckets.get? peer = some b := by rw [hsame, hb]
  have hpeek := peekIn_eq e now v.peerConfig hbv
  have hpeek' := peekIn_eq e now v.prefixConfig hpb
  simp only [peerConfig, prefixConfig] at hpeek hpeek'
  simp only [hpeek, hpeek'] at hcall
  refine hmoved.trans (hmoved'.trans ?_)
  split at hcall
  · next hready =>
    cases hcall
    rw [if_congr (and_iff_right rfl) rfl rfl]
    exact spent_moved hv hbv hpb (of_decide_eq_true hready.1) (of_decide_eq_true hready.2)
  · have hboth := peeked_moved (e := e) hv hbv hpb
    have hcounted := hboth.trans (bumpCounter_moved (e := e) (hboth.sound hv)
      v.rateLimitedByPrefixCount)
    have hcounted' := hboth.trans (bumpCounter_moved (e := e) (hboth.sound hv)
      (v.rateLimitedByPrefixCount + 1))
    split at hcall
    · cases hcall
      rw [if_neg nofun]
      exact hcounted'
    · cases hcall
      rw [if_neg nofun]
      exact hcounted

theorem connectionOwners_moved (owners : Map Nat PeerKey) :
    Moved d now none l { l with connectionOwners := owners } :=
  ⟨rfl, rfl, .refl hl.peers, .refl hl.prefixes⟩

theorem decrementOwner_moved : Moved d now none l (l.decrementOwner peer now) := by
  have howners : Moved d now none l { l with
      buckets := l.buckets.modify peer fun b => b.setOwners (b.ownerCount - 1) now
      prefixBuckets := l.prefixBuckets.modify peer.aggregate fun b =>
        b.setOwners (b.ownerCount - 1) now } :=
    ⟨rfl, rfl, .setOwners hl.peers, .setOwners hl.prefixes⟩
  exact howners.trans (evictIdleZeroOwner_moved (howners.sound hl))

theorem releaseConnection_moved (conn : Nat) :
    Moved d now none l (l.releaseConnection conn now) := by
  rw [releaseConnection]
  split
  · exact .refl hl
  · have hout := connectionOwners_moved hl (l.connectionOwners.erase conn)
    exact hout.trans (decrementOwner_moved (hout.sound hl))

theorem attachConnection_moved (conn : Nat) (source : SocketAddr) :
    Moved d now none l (l.attachConnection conn source now).2 := by
  have hrelease := releaseConnection_moved hl conn
  have hu := hrelease.sound hl
  simp only [attachConnection]
  generalize l.releaseConnection conn now = u at hrelease hu
  refine hrelease.trans ?_
  obtain ⟨hmoved, -⟩ := ensureBucket_moved hu (.fromSocketAddr source)
  rcases hensure : u.ensureBucket now (.fromSocketAddr source) .handshake with ⟨first, v⟩
  rw [hensure] at hmoved
  cases first with
  | error err => exact hmoved
  | ok _ =>
  have hv := hmoved.sound hu
  -- The peer's bucket is counted up before the prefix is looked at.
  have hcounted : Moved d now none v { v with
      buckets := v.buckets.modify (.fromSocketAddr source)
        fun b => b.setOwners (b.ownerCount + 1) now } :=
    ⟨rfl, rfl, .setOwners hv.peers, .refl hv.prefixes⟩
  have hw := hcounted.sound hv
  refine hmoved.trans (hcounted.trans ?_)
  simp only []
  generalize ({ v with
      buckets := v.buckets.modify (.fromSocketAddr source)
        fun b => b.setOwners (b.ownerCount + 1) now } : PeerRateLimiter) = w at hw
  obtain ⟨hmoved', -, -⟩ := ensurePrefixBucket_moved hw
    (PeerKey.fromSocketAddr source).aggregate
  rcases hensure' : w.ensurePrefixBucket now (PeerKey.fromSocketAddr source).aggregate .handshake
    with ⟨second, x⟩
  rw [hensure'] at hmoved'
  cases second with
  | error err => exact hmoved'
  | ok _ =>
    have hx := hmoved'.sound hw
    exact hmoved'.trans ⟨rfl, rfl, .refl hx.peers, .setOwners hx.prefixes⟩

end

end

end PeerRateLimiter

/-! ## Runs -/

namespace RateRun

def grantedPeer (result : Except String Unit) (d : RateLimitDimension) :
    Option (PeerKey × RateLimitDimension) → Option PeerKey
  | some (peer, e) => if result = .ok () ∧ e = d then some peer else none
  | none => none

variable {d : RateLimitDimension}

theorem call_moved {s : RateRun} {op : RateOp}
    (hl : s.limiter.Sound d op.now) :
    PeerRateLimiter.Moved d op.now (grantedPeer (s.limiter.call op).1 d (s.asks op)) s.limiter
      (s.limiter.call op).2 := by
  cases op with
  | check now source e => exact checkPeer_moved hl rfl
  | checkConnection now conn e =>
    simp only [call, checkConnection, asks]
    cases s.limiter.connectionOwners.get? conn with
    | none => exact .refl hl
    | some peer => exact checkPeer_moved hl rfl
  | attachConnection conn source now => exact attachConnection_moved hl conn source
  | releaseConnection conn now => exact releaseConnection_moved hl conn

/-- The account of a run in one dimension: for every peer and every prefix, the level has
    paid for the grants. -/
structure Account (d : RateLimitDimension) (l₀ : PeerRateLimiter) (s : RateRun) : Prop where
  rateLimits : s.limiter.rateLimits = l₀.rateLimits
  sound : s.limiter.Sound d s.clock
  peers : ∀ peer, Metered (l₀.peerConfig d).inflow (l₀.peerConfig d).cap cost
    s.clock (level l₀.peerConfig d s.clock (s.limiter.buckets.get? peer)) (s.grantedTo peer d)
  prefixes : ∀ pre, Metered (l₀.prefixConfig d).inflow (l₀.prefixConfig d).cap
    cost s.clock
    (level l₀.prefixConfig d s.clock (s.limiter.prefixBuckets.get? pre)) (s.grantedIn pre d)

theorem newGrants_cases (result : Except String Unit) (now : Nat) (d : RateLimitDimension)
    (asks : Option (PeerKey × RateLimitDimension)) :
    (grantedPeer result d asks = none ∧ ∀ g ∈ newGrants result now asks, g.2.2 ≠ d) ∨
      ∃ peer, grantedPeer result d asks = some peer ∧
        newGrants result now asks = [(now, peer, d)] := by
  rcases asks with _ | ⟨peer, e⟩
  · exact .inl ⟨rfl, nofun⟩
  rw [newGrants, grantedPeer]
  by_cases hok : result = .ok ()
  · grind
  · grind

theorem Sound.mono {l : PeerRateLimiter} {now now' : Nat}
    (h : l.Sound d now) (hle : now ≤ now') : l.Sound d now' where
  peers k b hb := { h.peers k b hb with touched := le_trans (h.peers k b hb).touched hle }
  prefixes k b hb :=
    { h.prefixes k b hb with touched := le_trans (h.prefixes k b hb).touched hle }
  peerRefills := h.peerRefills
  prefixRefills := h.prefixRefills

def timesOf (p : PeerKey → Bool) (d : RateLimitDimension)
    (grants : List (Nat × PeerKey × RateLimitDimension)) : List Nat :=
  (grants.filter fun g => p g.2.1 && g.2.2 = d).map Prod.fst

/-- One more call, seen by the keys that satisfy `p`. -/
theorem metered_call {config : RateLimitDimension → TokenBucketConfig}
    {clock now : Nat} {o o' : Option PeerBucket} {result : Except String Unit}
    {asks : Option (PeerKey × RateLimitDimension)} {p : PeerKey → Bool}
    {grants : List (Nat × PeerKey × RateLimitDimension)}
    (h : Metered (config d).inflow (config d).cap cost clock
      (level config d clock o) (timesOf p d grants)) (hclock : clock ≤ now)
    (hpaid : level config d now o' +
      (if (grantedPeer result d asks).any p then cost else 0) ≤
        level config d now o) :
    Metered (config d).inflow (config d).cap cost now (level config d now o')
      (timesOf p d (grants ++ newGrants result now asks)) := by
  have hnow := h.advance hclock (level_advance hclock o) (level_le_cap o)
  rw [timesOf, filter_append, map_append]
  rcases newGrants_cases result now d asks with ⟨hnone, hother⟩ | ⟨peer, hsome, hnew⟩
  · have hnothing : (newGrants result now asks).filter (fun g => p g.2.1 && g.2.2 = d) = [] := by
      refine filter_eq_nil_iff.mpr fun g hg => ?_
      simp [hother g hg]
    rw [hnothing, map_nil, append_nil]
    exact hnow.lower (le_trans (le_add_right _ _) hpaid)
  · rw [hsome, any_some] at hpaid
    rw [hnew]
    by_cases hp : p peer = true
    · rw [if_pos hp] at hpaid
      have hone : [(now, peer, d)].filter (fun g => p g.2.1 && g.2.2 = d) = [(now, peer, d)] := by
        simp [hp]
      rw [hone, map_singleton]
      exact hnow.grant hpaid
    · rw [if_neg hp] at hpaid
      have hnone : [(now, peer, d)].filter (fun g => p g.2.1 && g.2.2 = d) = [] := by
        simp [hp]
      rw [hnone, map_nil, append_nil]
      exact hnow.lower (le_trans (le_add_right _ _) hpaid)

theorem grantedTo_eq (s : RateRun) (peer : PeerKey) (d : RateLimitDimension) :
    s.grantedTo peer d = timesOf (· = peer) d s.grants := by
  simp only [grantedTo, timesOf, Bool.decide_and]

theorem grantedIn_eq (s : RateRun) (pre : PrefixKey) (d : RateLimitDimension) :
    s.grantedIn pre d = timesOf (·.aggregate = pre) d s.grants := by
  simp only [grantedIn, timesOf, Bool.decide_and]

theorem Account.step {l₀ : PeerRateLimiter} {s t : RateRun} {op : RateOp}
    (h : Account d l₀ s) (hstep : Step s op t) : Account d l₀ t := by
  simp only [Step, exec, ite_none_right_eq_some, Option.some.injEq] at hstep
  obtain ⟨hclock, rfl⟩ := hstep
  have hnow := Sound.mono h.sound hclock
  have hmoved := call_moved hnow
  have hpeer : s.limiter.peerConfig = l₀.peerConfig := by
    funext d
    rw [peerConfig, h.rateLimits, peerConfig]
  have hnet : s.limiter.prefixConfig = l₀.prefixConfig := by
    funext d
    rw [prefixConfig, h.rateLimits, prefixConfig]
  refine ⟨hmoved.rateLimits.trans h.rateLimits, hmoved.sound hnow, fun peer => ?_, fun pre => ?_⟩
  · have hold := h.peers peer
    rw [grantedTo_eq] at hold ⊢
    refine metered_call hold hclock ?_
    have hpaid := hmoved.peers.paid peer
    rw [hpeer] at hpaid
    refine le_trans (le_of_eq ?_) hpaid
    congr 1
    cases grantedPeer (s.limiter.call op).1 d (s.asks op) <;> simp
  · have hold := h.prefixes pre
    rw [grantedIn_eq] at hold ⊢
    refine metered_call hold hclock ?_
    have hpaid := hmoved.prefixes.paid pre
    rw [hnet] at hpaid
    refine le_trans (le_of_eq ?_) hpaid
    congr 1
    cases grantedPeer (s.limiter.call op).1 d (s.asks op) <;> simp

end RateRun

/-! ## The ceiling -/

/-- A window that is paid for in units of a scale fits the ceiling; the slack of the cap is
    less than one unit. -/
theorem le_ceiling_of_paid {scale nanos burst rate window n : Nat} (hscale : 0 < scale)
    (hnanos : 0 < nanos)
    (h : scale * nanos * n ≤ burst * scale * nanos + (nanos - 1) + rate * scale * window) :
    n ≤ burst + (rate * window + (nanos - 1)) / nanos := by
  generalize hq : (rate * window + (nanos - 1)) / nanos = q
  have hceil : rate * window ≤ nanos * q := by
    have hlt := lt_mul_div_succ (rate * window + (nanos - 1)) hnanos
    rw [hq, mul_add, mul_one] at hlt
    omega
  by_contra hmore
  have hn : burst + q + 1 ≤ n := by omega
  have hlow : scale * nanos * (burst + q + 1) ≤ scale * nanos * n := mul_le_mul_left _ hn
  have hflow : rate * scale * window ≤ scale * nanos * q := by
    calc rate * scale * window = scale * (rate * window) := by ring
      _ ≤ scale * (nanos * q) := mul_le_mul_left _ hceil
      _ = scale * nanos * q := by ring
  have hexpand : scale * nanos * (burst + q + 1) =
      burst * scale * nanos + scale * nanos * q + scale * nanos := by ring
  have hunit : nanos ≤ scale * nanos := Nat.le_mul_of_pos_left nanos hscale
  omega

theorem TokenBucketConfig.within_ceiling {c : TokenBucketConfig} {clock lvl : Nat}
    {times : List Nat} (h : Metered c.inflow c.cap cost clock lvl times) (a window : Nat) :
    grantsWithin times a (a + window) ≤ c.ceiling window := by
  have hpaid := h.within a (a + window) (le_add_right a window)
  rw [Nat.add_sub_cancel_left] at hpaid
  exact le_ceiling_of_paid (by decide) (by decide) hpaid

/-- If the bucket of a peer refills within the idle time, so does that of a prefix, whose
    rate and burst are both scaled up and cut off at 32 bits. -/
theorem refillsWithin_scaled {rate burst idle : Nat} (hle : rate ≤ burst)
    (h : burst * nanosPerSec ≤ rate * idle) :
    scaled burst * nanosPerSec ≤ scaled rate * idle := by
  simp only [scaled]
  by_cases hcut : rate * aggregateRateMultiplier ≤ 2 ^ 32 - 1
  · rw [min_eq_left hcut]
    calc min (burst * aggregateRateMultiplier) (2 ^ 32 - 1) * nanosPerSec
        ≤ burst * aggregateRateMultiplier * nanosPerSec :=
          mul_le_mul_right _ (min_le_left _ _)
      _ = burst * nanosPerSec * aggregateRateMultiplier := mul_right_comm _ _ _
      _ ≤ rate * idle * aggregateRateMultiplier := mul_le_mul_right _ h
      _ = rate * aggregateRateMultiplier * idle := mul_right_comm _ _ _
  · -- Both are cut off; a bucket fills in a second, and the idle time is at least that.
    have hpos : 0 < rate := by grind
    have hidle : nanosPerSec ≤ idle :=
      le_of_mul_le_mul_left (le_trans (mul_le_mul_right _ hle) h) hpos
    rw [min_eq_right (Nat.le_of_not_le hcut)]
    exact Nat.mul_le_mul (min_le_right _ _) hidle

theorem bucketConfig_rate_le_burst {rateLimits : WasmRateLimits}
    (h : rateLimits.validate = .ok ()) (d : RateLimitDimension) :
    (d.bucketConfig rateLimits).ratePerSec ≤ (d.bucketConfig rateLimits).burst := by
  obtain ⟨hhandshakes, hstreams, hdatagrams⟩ := WasmRateLimits.rate_le_burst h
  cases d with
  | handshake => exact hhandshakes
  | streamOpen => exact hstreams
  | datagramIngress => exact hdatagrams

theorem PeerRateLimiter.new_spec {rateLimits : WasmRateLimits} {limits : WasmLimits}
    {l : PeerRateLimiter} (h : PeerRateLimiter.new rateLimits limits = .ok l) :
    rateLimits.validate = .ok () ∧ l.rateLimits = rateLimits ∧
      l.idleTtl = limits.idleTimeoutMs.toNat * 1000000 ∧ l.buckets = ∅ ∧ l.prefixBuckets = ∅ := by
  obtain ⟨_, -, h⟩ := bind_eq_ok h
  obtain ⟨_, hvalid, h⟩ := bind_eq_ok h
  cases h
  exact ⟨hvalid, rfl, rfl, rfl, rfl⟩

/-- For every accepted configuration, every dimension whose bucket refills within the idle
    time, and every sequence of calls with non-decreasing times: in every closed window, a
    peer is granted at most burst plus rate times the window, rounded up, and so are all
    peers of a prefix together, with the burst and the rate of the prefix. -/
theorem rate_ceiling {rateLimits : WasmRateLimits} {limits : WasmLimits} {l : PeerRateLimiter}
    (hnew : PeerRateLimiter.new rateLimits limits = .ok l) {d : RateLimitDimension}
    (hrefills : (d.bucketConfig rateLimits).RefillsWithin (limits.idleTimeoutMs.toNat * 1000000))
    {start : Nat} {ops : List RateOp} {s : RateRun}
    (hrun : Run RateRun.Step ⟨l, start, []⟩ ops s) (a window : Nat) :
    (∀ peer, grantsWithin (s.grantedTo peer d) a (a + window) ≤
      (d.bucketConfig rateLimits).ceiling window) ∧
    ∀ pre, grantsWithin (s.grantedIn pre d) a (a + window) ≤
      (d.aggregateBucketConfig rateLimits).ceiling window := by
  obtain ⟨hvalid, hlimits, hidle, hbuckets, hnets⟩ := new_spec hnew
  have hle := bucketConfig_rate_le_burst hvalid d
  have hstart : RateRun.Account d l ⟨l, start, []⟩ := by
    refine ⟨rfl, ⟨?_, ?_, ?_, ?_⟩, fun _ => .start (level_le_cap _), fun _ =>
      .start (level_le_cap _)⟩
    · grind [get?_empty]
    · grind [get?_empty]
    · rw [peerConfig, hlimits, hidle]
      exact hrefills
    · rw [prefixConfig, hlimits, hidle]
      exact refillsWithin_scaled hle hrefills
  have haccount := hrun.invariant (fun _ _ _ h hstep => h.step hstep) hstart
  have hpeers := haccount.peers
  have hofnets := haccount.prefixes
  simp only [peerConfig, prefixConfig, hlimits] at hpeers hofnets
  exact ⟨fun peer => within_ceiling (hpeers peer) a window,
    fun pre => within_ceiling (hofnets pre) a window⟩

/-- One handshake a second, two at once. -/
def slowHandshakes : WasmRateLimits := { handshakesPerSec := 1, handshakesBurst := 2 }

def slowLimiter (idleTtl : Nat) : PeerRateLimiter :=
  { rateLimits := slowHandshakes, idleTtl, maxBuckets := 4000 }

def localPeer : SocketAddr := ⟨.v4 0x7f000001, 4433⟩

/-- Two handshakes at once, a third refused, and another one after a second. -/
theorem rate_ceiling_minute :
    ∃ s, Run RateRun.Step ⟨slowLimiter (60000 * 1000000), 0, []⟩
        [.check 0 localPeer .handshake, .check 0 localPeer .handshake,
          .check 5 localPeer .handshake,
          .check 1000000000 localPeer .handshake] s ∧
      s.grantedTo (.fromSocketAddr localPeer) .handshake = [0, 0, 1000000000] ∧
      grantsWithin (s.grantedTo (.fromSocketAddr localPeer) .handshake) 0 (0 + 1000000000) ≤
        (RateLimitDimension.handshake.bucketConfig slowHandshakes).ceiling 1000000000 := by
  have hnew : new slowHandshakes {} = .ok (slowLimiter (60000 * 1000000)) := rfl
  refine Run.exists_of_execAll
    (·.grantedTo (.fromSocketAddr localPeer) .handshake = [0, 0, 1000000000]) (fun _ _ _ h => h)
    (by decide +kernel) fun s hrun hgranted => ⟨hgranted, ?_⟩
  exact (rate_ceiling hnew (by decide) hrun 0 1000000000).1 _

/-- With an idle time of one second the bucket of two tokens is evicted when one has come
    back, and the next one starts full: four handshakes in a window that allows three. -/
theorem idle_eviction_refills :
    (PeerRateLimiter.new slowHandshakes { handshakeTimeoutMs := 1000, idleTimeoutMs := 1000 } =
      .ok (slowLimiter (1000 * 1000000))) ∧
    (RateLimitDimension.handshake.bucketConfig slowHandshakes).ceiling 1000000000 = 3 ∧
    ∃ s, Run RateRun.Step ⟨slowLimiter (1000 * 1000000), 0, []⟩
        [.check 0 localPeer .handshake, .check 0 localPeer .handshake,
          .check 1000000000 localPeer .handshake, .check 1000000000 localPeer .handshake] s ∧
      grantsWithin (s.grantedTo (.fromSocketAddr localPeer) .handshake) 0 1000000000 = 4 := by
  exact ⟨rfl, by decide, Run.exists_of_execAll _ (fun _ _ _ h => h) (by decide +kernel)
    fun s _ hgranted => hgranted⟩

end WebTransportBun.Wasm
