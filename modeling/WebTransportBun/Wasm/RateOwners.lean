/-
  WebTransportBun.Wasm.RateOwners

  The owner counts of the rate limiter (`governor.rs`), which pin the buckets of attached
  connections: an active peer or prefix must not idle out and come back with a full bucket.

  The bucket of a prefix counts the attached connections of the prefix.  That of a peer
  counts those of the peer at least: an attach that finds no room for the prefix has
  counted the peer up already.
-/

import WebTransportBun.Wasm.RateCeiling

namespace WebTransportBun.Wasm

open Library List Option Library.Map PeerRateLimiter PeerBucket

/-! ## Owner counts of a map -/

section

variable {K : Type} [DecidableEq K] {m : Map K PeerBucket} {key : K} {now : Nat}

/-- The owners that are counted for a key. -/
def ownersOf (m : Map K PeerBucket) (key : K) : Nat := ((m.get? key).map ownerCount).getD 0

theorem ownersOf_evict (m : Map K PeerBucket) (now idleTtl : Nat) :
    ownersOf (m.filter fun _ b => b.live now idleTtl) = ownersOf m := by
  funext k
  rw [ownersOf, ownersOf, get?_filter]
  cases m.get? k with
  | none => rfl
  | some b =>
    by_cases hlive : b.live now idleTtl = true
    · simp [Option.filter, hlive]
    · -- only what has no owner is evicted
      have hzero : b.ownerCount = 0 := by
        simp [live] at hlive
        exact hlive.1
      simp [Option.filter, hlive, hzero]

theorem ownersOf_insert {b : PeerBucket} (h : b.ownerCount = ownersOf m key) :
    ownersOf (m.insert key b) = ownersOf m := by
  funext k
  by_cases hk : k = key
  · subst hk
    simpa [ownersOf] using h
  · simp [ownersOf, hk]

theorem ownersOf_modify {f : PeerBucket → PeerBucket} (g : Nat → Nat)
    (hf : ∀ b, (f b).ownerCount = g b.ownerCount) (hnone : m.get? key = none → g 0 = 0) (k : K) :
    ownersOf (m.modify key f) k = if k = key then g (ownersOf m k) else ownersOf m k := by
  by_cases hk : k = key
  · subst hk
    cases hget : m.get? k with
    | none => simp [ownersOf, hget, hnone hget]
    | some b => simp [ownersOf, hget, hf]
  · simp [ownersOf, hk]

theorem ownersOf_peekIn (d : RateLimitDimension) (config : TokenBucketConfig) :
    ownersOf (peekIn m key now d config).2 = ownersOf m := by
  unfold peekIn
  cases hget : m.get? key with
  | none => rfl
  | some b => exact ownersOf_insert (by simp [ownersOf, hget, mapBucket])

theorem ownersOf_spend (m : Map K PeerBucket) (key : K) (d : RateLimitDimension) :
    ownersOf (m.modify key fun b => b.mapBucket d .spend) = ownersOf m := by
  funext k
  rw [ownersOf_modify (f := fun b => b.mapBucket d .spend) id (fun _ => rfl) (fun _ => rfl), id,
    ite_self]

theorem contains_of_ownersOf_pos (h : 0 < ownersOf m key) : m.contains key = true := by
  unfold ownersOf at h
  cases hget : m.get? key with
  | none => simp [hget] at h
  | some b => exact contains_iff.mpr ⟨b, hget⟩

end

/-! ## Calls -/

namespace PeerRateLimiter

section

variable (l : PeerRateLimiter) (now : Nat)

def books : (PeerKey → Nat) × (PrefixKey → Nat) × Map Nat PeerKey :=
  (ownersOf l.buckets, ownersOf l.prefixBuckets, l.connectionOwners)

theorem evict_books : (l.evictIdleZeroOwner now).books = l.books := by
  simp only [books, evictIdleZeroOwner, ownersOf_evict]

theorem ensureBucket_books (peer : PeerKey) (d : RateLimitDimension) :
    (l.ensureBucket now peer d).2.books = l.books ∧ ((l.ensureBucket now peer d).1 = .ok () →
      (l.ensureBucket now peer d).2.buckets.contains peer = true) := by
  rw [← evict_books l now]
  simp only [ensureBucket]
  split
  · next hcontains => exact ⟨rfl, fun _ => hcontains⟩
  next hcontains =>
  split
  · exact ⟨rfl, by simp⟩
  · have hnone := get?_eq_none_of_contains hcontains
    refine ⟨?_, fun _ => by simp [Map.contains]⟩
    simp only [books]
    rw [ownersOf_insert (by simp [ownersOf, hnone, withConfig])]

theorem ensurePrefixBucket_books (pre : PrefixKey) (d : RateLimitDimension) :
    (l.ensurePrefixBucket now pre d).2.books = l.books ∧
      ((l.ensurePrefixBucket now pre d).1 = .ok () →
        (l.ensurePrefixBucket now pre d).2.prefixBuckets.contains pre = true) := by
  simp only [ensurePrefixBucket]
  split
  · next hcontains => exact ⟨rfl, fun _ => hcontains⟩
  next hcontains =>
  split
  · exact ⟨rfl, by simp⟩
  · have hnone := get?_eq_none_of_contains hcontains
    refine ⟨?_, fun _ => by simp [Map.contains]⟩
    simp only [books]
    rw [ownersOf_insert (by simp [ownersOf, hnone, withConfig])]

theorem checkPeer_books (peer : PeerKey) (d : RateLimitDimension) :
    (l.checkPeer now peer d).2.books = l.books := by
  have hfirst := (ensureBucket_books l now peer d).1
  rcases hensure : l.ensureBucket now peer d with ⟨_ | _, u⟩
  · simpa only [checkPeer, hensure] using hfirst
  have hsecond := (ensurePrefixBucket_books u now peer.aggregate d).1
  rw [hensure] at hfirst
  rw [← hfirst]
  rcases hensure' : u.ensurePrefixBucket now peer.aggregate d with ⟨_ | _, v⟩
  · simpa only [checkPeer, hensure, hensure'] using hsecond
  rw [← hsecond]
  simp only [checkPeer, hensure, hensure']
  split
  · simp only [books, ownersOf_spend, ownersOf_peekIn]
  · split <;> simp only [books, bumpCounter, ownersOf_peekIn]

end

variable {l l' : PeerRateLimiter}

/-- The peers of the attached connections, as their buckets count them. -/
structure Owned (l : PeerRateLimiter) : Prop where
  peers : ∀ peer, l.connectionOwners.values.count peer ≤ ownersOf l.buckets peer
  prefixes : ∀ pre, ownersOf l.prefixBuckets pre =
    l.connectionOwners.values.countP (·.aggregate = pre)

theorem Owned.congr (h : Owned l) (hbooks : l'.books = l.books) : Owned l' := by
  obtain ⟨hpeers, hprefixes, hconns⟩ : _ ∧ _ ∧ _ := by
    simpa only [books, Prod.mk.injEq] using hbooks
  exact ⟨by rw [hpeers, hconns]; exact h.peers, by rw [hprefixes, hconns]; exact h.prefixes⟩

theorem Owned.releaseConnection (h : Owned l) (conn now : Nat) :
    Owned (l.releaseConnection conn now) := by
  unfold PeerRateLimiter.releaseConnection
  split
  · exact h
  next peer hget =>
  have hperm := values_perm_erase hget
  refine Owned.congr ?_ (evict_books ..)
  refine ⟨fun k => ?_, fun k => ?_⟩
  · have hcount := h.peers k
    rw [ownersOf_modify (· - 1) (fun _ => rfl) fun _ => rfl]
    grind
  · have hcount := h.prefixes k
    rw [hperm.countP_eq] at hcount
    rw [ownersOf_modify (· - 1) (fun _ => rfl) fun _ => rfl]
    grind

theorem Owned.attachConnection (h : Owned l) (conn : Nat) (source : SocketAddr) (now : Nat) :
    Owned (l.attachConnection conn source now).2 := by
  have hu := h.releaseConnection conn now
  have hnone : (l.releaseConnection conn now).connectionOwners.get? conn = none := by
    unfold PeerRateLimiter.releaseConnection
    split
    · next hget => exact hget
    · exact (get?_erase ..).trans (if_pos rfl)
  simp only [PeerRateLimiter.attachConnection]
  generalize l.releaseConnection conn now = u at hu hnone
  generalize PeerKey.fromSocketAddr source = peer
  obtain ⟨hbooks, hhas⟩ := ensureBucket_books u now peer .handshake
  rcases hensure : u.ensureBucket now peer .handshake with ⟨_ | _, v⟩
  · rw [hensure] at hbooks
    exact hu.congr hbooks
  rw [hensure] at hbooks hhas
  dsimp only at hbooks hhas ⊢
  have hv := hu.congr hbooks
  rw [← show v.connectionOwners = u.connectionOwners from congrArg (·.2.2) hbooks] at hnone
  -- the peer is counted up before the prefix is looked at
  have hcount :
      ∀ k, ownersOf (v.buckets.modify peer fun b => b.setOwners (b.ownerCount + 1) now) k =
      if k = peer then ownersOf v.buckets k + 1 else ownersOf v.buckets k :=
    ownersOf_modify (· + 1) (fun _ => rfl) fun hget => by simp [Map.contains, hget] at hhas
  generalize v.buckets.modify peer _ = buckets at hcount ⊢
  obtain ⟨hbooks', hhas'⟩ :=
    ensurePrefixBucket_books { v with buckets } now peer.aggregate .handshake
  rcases hensure' : { v with buckets }.ensurePrefixBucket now peer.aggregate .handshake
    with ⟨_ | _, x⟩ <;> rw [hensure'] at hbooks' hhas' ⊢ <;> dsimp only at hbooks' hhas' ⊢
  · refine Owned.congr (l := { v with buckets }) ⟨fun k => ?_, hv.prefixes⟩ hbooks'
    have := hv.peers k
    grind
  obtain ⟨hpeers, hprefixes, hconns⟩ : _ ∧ _ ∧ _ := by
    simpa only [books, Prod.mk.injEq] using hbooks'
  refine ⟨fun k => ?_, fun k => ?_⟩
  · have := hv.peers k
    simp only [hpeers, hconns, values_insert_of_get?_eq_none peer hnone]
    grind
  · have := hv.prefixes k
    simp only [hconns, values_insert_of_get?_eq_none peer hnone]
    rw [ownersOf_modify (· + 1) (fun _ => rfl) fun hget => by simp [Map.contains, hget] at hhas',
      hprefixes]
    grind

theorem Owned.call (h : Owned l) (op : RateOp) : Owned (l.call op).2 := by
  cases op with
  | check now source d => exact h.congr (checkPeer_books ..)
  | checkConnection now conn d =>
    simp only [PeerRateLimiter.call, checkConnection]
    split
    · exact h
    · exact h.congr (checkPeer_books ..)
  | attachConnection conn source now => exact h.attachConnection conn source now
  | releaseConnection conn now => exact h.releaseConnection conn now

/-- Whatever calls are made, at whatever times: the bucket of a prefix counts the attached
    connections of the prefix, that of a peer no fewer than those of the peer, and no eviction
    takes the buckets of an attached connection. -/
theorem attached_buckets_pinned (rateLimits : WasmRateLimits) (idleTtl maxBuckets : Nat)
    (ops : List RateOp) :
    let l := ops.foldl (fun l op => (l.call op).2) { rateLimits, idleTtl, maxBuckets }
    Owned l ∧ ∀ conn peer now, l.connectionOwners.get? conn = some peer →
      (l.evictIdleZeroOwner now).buckets.contains peer = true ∧
        (l.evictIdleZeroOwner now).prefixBuckets.contains peer.aggregate = true := by
  intro l
  have howned : Owned l := by
    refine foldlRecOn ops _ ⟨fun _ => Nat.zero_le _, fun _ => rfl⟩ fun l h op _ => h.call op
  refine ⟨howned, fun conn peer now hconn => ?_⟩
  have hmem := mem_values_of_get? hconn
  have hevicted := howned.congr (evict_books l now)
  refine ⟨contains_of_ownersOf_pos ((count_pos_iff.mpr hmem).trans_le (hevicted.peers peer)),
    contains_of_ownersOf_pos ?_⟩
  rw [hevicted.prefixes]
  exact countP_pos_iff.mpr ⟨peer, hmem, by simp⟩

end PeerRateLimiter

end WebTransportBun.Wasm
