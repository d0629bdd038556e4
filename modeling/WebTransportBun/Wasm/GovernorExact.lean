/-
  WebTransportBun.Wasm.GovernorExact

  The governor's books are exact.  All its counters are treated as one family
  (`Counter`): each has a value in a governor state, a configured limit, and a charge
  that a reservation puts on it.  What an operation does is said once per operation in
  these terms (`Grants` for the four ways to reserve, `value_releaseKind` for every way
  to release), and the run theorem follows from those.

  The state of a run is the governor together with the reservations that are held as
  values (`Ledger`); the reservations moved to the host are the governor's own tokens.
-/

import Mathlib.Algebra.BigOperators.Group.List.Basic
import WebTransportBun.Library.Run
import WebTransportBun.Wasm.Governor

namespace WebTransportBun.Wasm

open Library List Library.Map GovernorInner HostToken

inductive Counter
  | handshakesInFlight
  | sessionsActive
  | streamsActiveGlobal
  | streamsPerSession (kind : StreamKind) (conn : Nat)
  | queuedBytesGlobal
  | queuedBytesPerSession (conn : Nat)
  | queuedBytesPerStream (conn stream : Nat)
  deriving DecidableEq, Repr

namespace Counter

def limit (l : WasmLimits) : Counter → Nat
  | handshakesInFlight => l.maxHandshakesInFlight.toNat
  | sessionsActive => l.maxSessions.toNat
  | streamsActiveGlobal => l.maxStreamsGlobal.toNat
  | streamsPerSession kind _ => perSessionLimit l kind
  | queuedBytesGlobal => l.maxQueuedBytesGlobal.toNat
  | queuedBytesPerSession _ => l.maxQueuedBytesPerSession.toNat
  | queuedBytesPerStream _ _ => l.maxQueuedBytesPerStream.toNat

def charge : Counter → ReservationKind → Nat
  | handshakesInFlight, .handshake => 1
  | sessionsActive, .session _ => 1
  | streamsActiveGlobal, .stream _ _ => 1
  | streamsPerSession kind conn, .stream conn' kind' =>
    if conn = conn' ∧ kind = kind' then 1 else 0
  | queuedBytesGlobal, .queuedBytes _ _ bytes => bytes
  | queuedBytesPerSession conn, .queuedBytes conn' _ bytes => if conn = conn' then bytes else 0
  | queuedBytesPerStream conn stream, .queuedBytes conn' stream' bytes =>
    if conn = conn' ∧ some stream = stream' then bytes else 0
  | _, _ => 0

/-- Exact total of a list of reservations on a counter. -/
def due (c : Counter) (kinds : List ReservationKind) : Nat := (kinds.map c.charge).sum

section

variable (c : Counter)

@[simp] theorem due_nil : c.due [] = 0 := rfl

@[simp] theorem due_cons (k : ReservationKind) (ks : List ReservationKind) :
    c.due (k :: ks) = c.charge k + c.due ks := by
  simp [due]

@[simp] theorem due_append (ks ls : List ReservationKind) :
    c.due (ks ++ ls) = c.due ks + c.due ls := by
  simp [due]

theorem due_perm {ks ls : List ReservationKind} (h : ks.Perm ls) :
    c.due ks = c.due ls :=
  (h.map c.charge).sum_eq

end

end Counter

namespace GovernorInner

/-- The value of a counter; an absent map key counts as zero. -/
def value (g : GovernorInner) : Counter → Nat
  | .handshakesInFlight => g.handshakesInFlight
  | .sessionsActive => g.sessionsActive
  | .streamsActiveGlobal => g.streamsActiveGlobal
  | .streamsPerSession kind conn => (g.streamsPerSession kind).count conn
  | .queuedBytesGlobal => g.queuedBytesGlobal
  | .queuedBytesPerSession conn => g.queuedBytesPerSession.count conn
  | .queuedBytesPerStream conn stream => g.queuedBytesPerStream.count (conn, stream)

/-! ## Frame lemmas -/

section

variable (g : GovernorInner)

@[simp] theorem streamsPerSession_set (kind kind' : StreamKind)
    (m : Map Nat Nat) :
    (g.setStreamsPerSession kind m).streamsPerSession kind' =
      if kind' = kind then m else g.streamsPerSession kind' := by
  cases kind <;> cases kind' <;> rfl

@[simp] theorem limits_releaseKind (k : ReservationKind) :
    (g.releaseKind k).limits = g.limits := by
  rcases k with _ | _ | ⟨_, _ | _⟩ | _ <;> rfl

@[simp] theorem hostTokens_releaseKind (k : ReservationKind) :
    (g.releaseKind k).hostTokens = g.hostTokens := by
  rcases k with _ | _ | ⟨_, _ | _⟩ | _ <;> rfl

end

/-! ## Releasing -/

section

variable (g : GovernorInner)

/-- Releasing a reservation takes its charge off every counter, up to clamping. -/
theorem value_releaseKind (k : ReservationKind) (c : Counter) :
    (g.releaseKind k).value c = g.value c - c.charge k := by
  cases k with
  | handshake => cases c <;> rfl
  | session conn => cases c <;> rfl
  | stream conn kind =>
    cases c with
    | streamsPerSession kind' conn' =>
      simp only [releaseKind, value, streamsPerSession_set, Counter.charge]
      by_cases hk : kind' = kind
      · subst hk
        simp only [if_true, count_lower, and_true]
        split <;> rfl
      · simp only [hk, and_false]
        cases kind' <;> rfl
    | _ => cases kind <;> rfl
  | queuedBytes conn stream bytes =>
    cases c with
    | queuedBytesPerSession conn' =>
      simp only [releaseKind, value, Counter.charge, count_lower]
      split <;> rfl
    | queuedBytesPerStream conn' stream' =>
      cases stream with
      | none => simp [releaseKind, value, Counter.charge]
      | some s => grind [releaseKind, value, Counter.charge, count_lower]
    | _ => rfl

section

variable (ks : List ReservationKind)

@[simp] theorem limits_releaseKinds :
    (g.releaseKinds ks).limits = g.limits := by
  induction ks generalizing g with
  | nil => rfl
  | cons k ks ih => exact (ih (g.releaseKind k)).trans (g.limits_releaseKind k)

@[simp] theorem hostTokens_releaseKinds :
    (g.releaseKinds ks).hostTokens = g.hostTokens := by
  induction ks generalizing g with
  | nil => rfl
  | cons k ks ih => exact (ih (g.releaseKind k)).trans (g.hostTokens_releaseKind k)

theorem value_releaseKinds (c : Counter) :
    (g.releaseKinds ks).value c = g.value c - c.due ks := by
  induction ks generalizing g with
  | nil => simp [releaseKinds]
  | cons k ks ih =>
    have hstep : g.releaseKinds (k :: ks) = (g.releaseKind k).releaseKinds ks := rfl
    rw [hstep, ih, value_releaseKind, Counter.due_cons]
    omega

end

end

/-- None of the subtractions made while `ks` is released one by one clamps. -/
def NoClamp (g : GovernorInner) : List ReservationKind → Prop
  | [] => True
  | k :: ks => (∀ c : Counter, c.charge k ≤ g.value c) ∧ (g.releaseKind k).NoClamp ks

variable {ks : List ReservationKind}

/-- Releases that the counters cover do not clamp, whatever their order. -/
theorem noClamp_of_due_le {g : GovernorInner}
    (h : ∀ c : Counter, c.due ks ≤ g.value c) : g.NoClamp ks := by
  induction ks generalizing g with
  | nil => trivial
  | cons k ks ih =>
    simp only [Counter.due_cons] at h
    refine ⟨fun c => ?_, ih fun c => ?_⟩
    · have := h c
      omega
    · have := h c
      rw [value_releaseKind]
      omega

/-! ## Reserving -/

/-- What a successful reservation `r` does to the governor. -/
structure Grants (g : GovernorInner) (r : ReservationKind) (g' : GovernorInner) : Prop where
  limits : g'.limits = g.limits
  hostTokens : g'.hostTokens = g.hostTokens
  value : ∀ c : Counter, g'.value c = g.value c + c.charge r
  le_limit : ∀ c : Counter, g'.value c ≤ max (g.value c) (c.limit g.limits)

variable {g g' : GovernorInner} {r : ReservationKind}

theorem reserveHandshake_grants (h : g.reserveHandshake = .ok (r, g')) : g.Grants r g' := by
  simp only [reserveHandshake] at h
  split at h
  · cases h
  · next hlt =>
    cases h
    refine ⟨rfl, rfl, fun c => ?_, fun c => ?_⟩
    · cases c <;> rfl
    · cases c with
      | handshakesInFlight =>
        simp only [value, Counter.limit]
        omega
      | _ => exact le_max_left _ _

variable {conn : Nat}

theorem reserveSession_grants (h : g.reserveSession conn = .ok (r, g')) :
    g.Grants r g' := by
  simp only [reserveSession] at h
  split at h
  · cases h
  · next hlt =>
    cases h
    refine ⟨rfl, rfl, fun c => ?_, fun c => ?_⟩
    · cases c <;> rfl
    · cases c with
      | sessionsActive =>
        simp only [value, Counter.limit]
        omega
      | _ => exact le_max_left _ _

theorem reserveStream_grants {stream : Nat} {kind : StreamKind}
    (h : g.reserveStream conn stream kind = .ok (r, g')) : g.Grants r g' := by
  simp only [reserveStream] at h
  split at h
  · cases h
  · next hglobal =>
    split at h
    · cases h
    · next hsession =>
      cases h
      refine ⟨by cases kind <;> rfl, by cases kind <;> rfl, fun c => ?_, fun c => ?_⟩
      · cases c with
        | streamsPerSession kind' conn' =>
          cases kind <;> cases kind' <;>
            simp only [value, streamsPerSession, setStreamsPerSession, Counter.charge,
              Map.count_insert] <;>
            split <;> simp_all
        | _ => cases kind <;> rfl
      · cases c with
        | streamsActiveGlobal =>
          cases kind <;>
            simp only [value, setStreamsPerSession, Counter.limit] <;> omega
        | streamsPerSession kind' conn' =>
          cases kind <;> cases kind' <;>
            simp only [value, streamsPerSession, setStreamsPerSession, Counter.limit,
              Map.count_insert] at hsession ⊢ <;>
            grind
        | _ => cases kind <;> exact le_max_left _ _

variable {bytes : Nat}

theorem admitBytes_ok {current limit next : Nat} {overflow reached : String}
    (h : admitBytes current bytes limit overflow reached = .ok next) :
    next = current + bytes ∧ next ≤ limit := by
  simp only [admitBytes, checkedAdd] at h
  split at h
  · cases h
  · next n hn =>
    split at h
    · cases h
    · cases h
      split at hn
      · cases hn
        omega
      · cases hn

/-- `bytes` more on the byte counters of `conn` and, if there is one, of its stream. -/
def addBytes (g : GovernorInner) (conn : Nat) (stream : Option Nat) (bytes : Nat) :
    GovernorInner :=
  { g with
    queuedBytesGlobal := g.queuedBytesGlobal + bytes
    queuedBytesPerSession :=
      g.queuedBytesPerSession.insert conn (g.queuedBytesPerSession.count conn + bytes)
    queuedBytesPerStream :=
      match stream with
      | none => g.queuedBytesPerStream
      | some s => g.queuedBytesPerStream.insert (conn, s)
          (g.queuedBytesPerStream.count (conn, s) + bytes) }

variable {stream : Option Nat}

/-- The three byte counters move together, and only when all of them admit. -/
theorem reserveEventBytes_ok (h : g.reserveEventBytes conn stream bytes = .ok (r, g')) :
    r = .queuedBytes conn stream bytes ∧ g' = g.addBytes conn stream bytes ∧
      g.queuedBytesGlobal + bytes ≤ g.limits.maxQueuedBytesGlobal.toNat ∧
      g.queuedBytesPerSession.count conn + bytes ≤ g.limits.maxQueuedBytesPerSession.toNat ∧
      ∀ s, stream = some s → g.queuedBytesPerStream.count (conn, s) + bytes ≤
          g.limits.maxQueuedBytesPerStream.toNat := by
  obtain ⟨nextGlobal, hglobal, h⟩ := bind_eq_ok h
  obtain ⟨nextSession, hsession, h⟩ := bind_eq_ok h
  obtain ⟨rfl, hg⟩ := admitBytes_ok hglobal
  obtain ⟨rfl, hs⟩ := admitBytes_ok hsession
  cases stream with
  | none =>
    cases h
    exact ⟨rfl, rfl, hg, hs, by simp⟩
  | some s =>
    obtain ⟨nextStream, hstream, h⟩ := bind_eq_ok h
    obtain ⟨rfl, hn⟩ := admitBytes_ok hstream
    cases h
    refine ⟨rfl, rfl, hg, hs, ?_⟩
    rintro s' ⟨rfl⟩
    exact hn

/-- A counter within its limit admits the bytes exactly when they fit under the limit: a
    limit is a machine word, so the sum then cannot overflow. -/
theorem admitBytes_eq_ok {current : Nat} {limit : UInt32} {overflow reached : String}
    (h : current + bytes ≤ limit.toNat) :
    admitBytes current bytes limit.toNat overflow reached = .ok (current + bytes) := by
  have hword := limit.toNat_lt
  have hfits : current + bytes ≤ usizeMax := by
    simp only [usizeMax]
    omega
  simp only [admitBytes, checkedAdd, if_pos hfits, if_neg (not_lt.mpr h)]

theorem reserveEventBytes_of_fits
    (hglobal : g.queuedBytesGlobal + bytes ≤ g.limits.maxQueuedBytesGlobal.toNat)
    (hsession : g.queuedBytesPerSession.count conn + bytes ≤
      g.limits.maxQueuedBytesPerSession.toNat)
    (hstream : ∀ s, stream = some s → g.queuedBytesPerStream.count (conn, s) + bytes ≤
      g.limits.maxQueuedBytesPerStream.toNat) : g.reserveEventBytes conn stream bytes =
      .ok (.queuedBytes conn stream bytes, g.addBytes conn stream bytes) := by
  simp only [reserveEventBytes, admitBytes_eq_ok hglobal, admitBytes_eq_ok hsession, bind,
    Except.bind, pure, Except.pure]
  cases stream with
  | none => rfl
  | some s => simp only [admitBytes_eq_ok (hstream s rfl), addBytes]

theorem reserveEventBytes_grants
    (h : g.reserveEventBytes conn stream bytes = .ok (r, g')) : g.Grants r g' := by
  obtain ⟨rfl, rfl, hglobal, hsession, hstream⟩ := reserveEventBytes_ok h
  refine ⟨rfl, rfl, fun c => ?_, fun c => ?_⟩
  · cases c with
    | queuedBytesPerSession conn' =>
      simp only [value, addBytes, Counter.charge, Map.count_insert]
      split <;> simp_all
    | queuedBytesPerStream conn' stream' =>
      cases stream with
      | none => simp [value, addBytes, Counter.charge]
      | some s => grind [value, addBytes, Counter.charge, Map.count_insert]
    | _ => rfl
  · cases c with
    | queuedBytesGlobal => exact le_max_of_le_right hglobal
    | queuedBytesPerSession conn' =>
      simp only [value, addBytes, Map.count_insert]
      split
      · exact le_max_of_le_right hsession
      · exact le_max_left _ _
    | queuedBytesPerStream conn' stream' =>
      cases stream with
      | none => exact le_max_left _ _
      | some s =>
        simp only [value, addBytes, Map.count_insert]
        split
        · exact le_max_of_le_right (hstream s rfl)
        · exact le_max_left _ _
    | _ => exact le_max_left _ _

/-! ## Host tokens -/

theorem allocateLoop_fresh {tokens : Map Nat HostToken} {ceiling start fuel candidate token : Nat}
    (h : allocateLoop tokens ceiling start fuel candidate = .ok token) :
    tokens.get? token = none := by
  induction fuel generalizing candidate with
  | zero => cases h
  | succ fuel ih =>
    simp only [allocateLoop] at h
    split at h
    · grind
    · next hfree =>
      cases h
      simpa [Map.contains] using hfree

theorem allocateHostToken_ok {token : Nat} (h : g.allocateHostToken = .ok (token, g')) :
    g.hostTokens.get? token = none ∧ ∃ next, g' = { g with nextHostToken := next } := by
  obtain ⟨_, hloop, h⟩ := bind_eq_ok h
  cases h
  exact ⟨allocateLoop_fresh hloop, _, rfl⟩

/-- A transfer to the host either moves the reservation under a fresh token, with all
    counters as they were, or releases it. -/
theorem transferToHost_cases (g : GovernorInner) (r : ReservationKind) :
    (∃ token next, g.hostTokens.get? token = none ∧
        g.transferToHost r = (.ok token, { g with
          nextHostToken := next
          hostTokens := g.hostTokens.insert token ⟨r⟩ })) ∨
      ∃ e, g.transferToHost r = (.error e, g.releaseKind r) := by
  cases r with
  | queuedBytes conn stream bytes =>
    cases halloc : g.allocateHostToken with
    | error e => exact .inr ⟨e, by simp only [transferToHost, halloc]⟩
    | ok res =>
      obtain ⟨token, g'⟩ := res
      obtain ⟨hfresh, next, rfl⟩ := allocateHostToken_ok halloc
      exact .inl ⟨token, next, hfresh, by simp only [transferToHost, halloc]⟩
  | _ => exact .inr ⟨_, rfl⟩

end GovernorInner

/-! ## Runs -/

/-- The governor with the reservations that are held as values. -/
structure Ledger where
  gov : GovernorInner
  held : List ReservationKind := []

/-- The operations of the governor.  `releaseAllHostTokens` carries the order in which
    the hash map of tokens is walked. -/
inductive GovernorOp
  | reserveHandshake
  | reserveSession (conn : Nat)
  | reserveStream (conn stream : Nat) (kind : StreamKind)
  | reserveEventBytes (conn : Nat) (stream : Option Nat) (bytes : Nat)
  | drop (r : ReservationKind)
  | transferToHost (r : ReservationKind)
  | releaseHostToken (token : Nat)
  | releaseAllHostTokens (order : List HostToken)

namespace Ledger

/-- Hold what a reserve operation granted; a refusal changes nothing. -/
def keep (s : Ledger) : Except String (ReservationKind × GovernorInner) → Ledger
  | .ok (r, gov) => ⟨gov, r :: s.held⟩
  | .error _ => s

/-- The reservations still outstanding: held as values, or live host tokens. -/
def outstanding (s : Ledger) : List ReservationKind :=
  s.held ++ s.gov.hostTokens.values.map kind

/-- One operation.  Only a held reservation can be dropped or handed to the host. -/
inductive Step : Ledger → GovernorOp → Ledger → Prop
  | reserveHandshake (s : Ledger) :
      Step s .reserveHandshake (s.keep s.gov.reserveHandshake)
  | reserveSession (s : Ledger) (conn : Nat) :
      Step s (.reserveSession conn) (s.keep (s.gov.reserveSession conn))
  | reserveStream (s : Ledger) (conn stream : Nat) (kind : StreamKind) :
      Step s (.reserveStream conn stream kind) (s.keep (s.gov.reserveStream conn stream kind))
  | reserveEventBytes (s : Ledger) (conn : Nat) (stream : Option Nat) (bytes : Nat) :
      Step s (.reserveEventBytes conn stream bytes)
        (s.keep (s.gov.reserveEventBytes conn stream bytes))
  | drop (s : Ledger) (r : ReservationKind) (hr : r ∈ s.held) :
      Step s (.drop r) ⟨s.gov.releaseKind r, s.held.erase r⟩
  | transferToHost (s : Ledger) (r : ReservationKind) (hr : r ∈ s.held) :
      Step s (.transferToHost r) ⟨(s.gov.transferToHost r).2, s.held.erase r⟩
  | releaseHostToken (s : Ledger) (token : Nat) :
      Step s (.releaseHostToken token) ⟨(s.gov.releaseHostToken token).2, s.held⟩
  | releaseAllHostTokens (s : Ledger) (order : List HostToken)
      (horder : order.Perm s.gov.hostTokens.values) :
      Step s (.releaseAllHostTokens order) ⟨(s.gov.releaseAllHostTokens order).2, s.held⟩

/-- The reservations that an operation passes to `release_kind`, in that order. -/
def releases (s : Ledger) : GovernorOp → List ReservationKind
  | .drop r => [r]
  | .transferToHost r =>
    match s.gov.transferToHost r with
    | (.ok _, _) => []
    | (.error _, _) => [r]
  | .releaseHostToken token => ((s.gov.hostTokens.get? token).map kind).toList
  | .releaseAllHostTokens order => order.map kind
  | _ => []

/-- `s'` is `s` with the reservations `ks` released: they are gone from the outstanding
    ones, and their charges are subtracted from the counters, up to clamping. -/
structure Released (s : Ledger) (ks : List ReservationKind) (s' : Ledger) : Prop where
  limits_eq : s'.gov.limits = s.gov.limits
  value_eq : ∀ c : Counter, s'.gov.value c = s.gov.value c - c.due ks
  outstanding_perm : s.outstanding.Perm (ks ++ s'.outstanding)

variable {limits : WasmLimits} {s s' : Ledger} {op : GovernorOp}

theorem released_of_mem {r : ReservationKind} (hr : r ∈ s.held) :
    Released s [r] ⟨s.gov.releaseKind r, s.held.erase r⟩ where
  limits_eq := by simp
  value_eq c := by simp [value_releaseKind]
  outstanding_perm := by
    simp only [outstanding, hostTokens_releaseKind]
    exact (perm_cons_erase hr).append_right _

theorem released_transfer {r : ReservationKind} {token next : Nat} (hr : r ∈ s.held)
    (hfresh : s.gov.hostTokens.get? token = none) :
    Released s [] ⟨{ s.gov with
      nextHostToken := next
      hostTokens := s.gov.hostTokens.insert token ⟨r⟩ }, s.held.erase r⟩ where
  limits_eq := rfl
  value_eq c := by cases c <;> rfl
  outstanding_perm := by
    simp only [outstanding, values_insert_of_get?_eq_none _ hfresh]
    exact ((perm_cons_erase hr).append_right _).trans perm_middle.symm

theorem released_tokens {tokens : Map Nat HostToken}
    (hperm : (s.gov.hostTokens.values.map kind).Perm
      (ks ++ tokens.values.map kind)) :
    Released s ks ⟨{ s.gov with hostTokens := tokens }.releaseKinds ks, s.held⟩ where
  limits_eq := by simp
  value_eq c := by
    rw [value_releaseKinds]
    cases c <;> rfl
  outstanding_perm := by
    simp only [outstanding, hostTokens_releaseKinds]
    refine (hperm.append_left s.held).trans ?_
    rw [← append_assoc, ← append_assoc]
    exact perm_append_comm.append_right _

/-- What one operation can do: reserve and hold, or release what `releases` lists. -/
theorem Step.cases (h : Step s op s') : (s.releases op = [] ∧ ∃ res, s' = s.keep res ∧
        ∀ r gov, res = .ok (r, gov) → s.gov.Grants r gov) ∨ Released s (s.releases op) s' := by
  cases h with
  | reserveHandshake =>
    exact .inl ⟨rfl, _, rfl, fun _ _ => reserveHandshake_grants⟩
  | reserveSession => exact .inl ⟨rfl, _, rfl, fun _ _ => reserveSession_grants⟩
  | reserveStream => exact .inl ⟨rfl, _, rfl, fun _ _ => reserveStream_grants⟩
  | reserveEventBytes =>
    exact .inl ⟨rfl, _, rfl, fun _ _ => reserveEventBytes_grants⟩
  | drop r hr => exact .inr (released_of_mem hr)
  | transferToHost r hr =>
    right
    rcases s.gov.transferToHost_cases r with ⟨token, next, hfresh, htr⟩ | ⟨e, htr⟩
    · simpa only [releases, htr] using released_transfer hr hfresh
    · simpa only [releases, htr] using released_of_mem hr
  | releaseHostToken token =>
    right
    simp only [releases, GovernorInner.releaseHostToken,
      GovernorInner.releaseHostTokenWithContext]
    cases hget : s.gov.hostTokens.get? token with
    | none => exact ⟨rfl, fun c => rfl, .rfl⟩
    | some host =>
      have hperm := (values_perm_erase hget).map kind
      exact released_tokens hperm
  | releaseAllHostTokens order horder =>
    right
    exact released_tokens (by simpa [releases] using (horder.map kind).symm)

/-- On the counters of `P` the books are exact and within their limits. -/
structure ExactOn (P : Counter → Prop) (limits : WasmLimits) (s : Ledger) : Prop where
  limits_eq : s.gov.limits = limits
  value_eq : ∀ c : Counter, P c → s.gov.value c = c.due s.outstanding
  le_limit : ∀ c : Counter, P c → s.gov.value c ≤ c.limit limits

abbrev Exact (limits : WasmLimits) (s : Ledger) : Prop := ExactOn (fun _ => True) limits s

variable {P : Counter → Prop}

theorem exact_new {gov : GovernorInner} (h : new limits = .ok gov) :
    Exact limits ⟨gov, []⟩ := by
  obtain ⟨-, rfl⟩ := eq_of_new h
  refine ⟨rfl, fun c _ => ?_, fun c _ => ?_⟩
  · rcases c with _ | _ | _ | ⟨_ | _, _⟩ | _ | _ | _ <;> rfl
  · rcases c with _ | _ | _ | ⟨_ | _, _⟩ | _ | _ | _ <;> exact Nat.zero_le _

section

variable (hs : ExactOn P limits s)

include hs

theorem ExactOn.keep
    {res : Except String (ReservationKind × GovernorInner)}
    (hres : ∀ r gov, res = .ok (r, gov) → s.gov.Grants r gov) : ExactOn P limits (s.keep res) := by
  cases res with
  | error e => exact hs
  | ok granted =>
    obtain ⟨r, gov⟩ := granted
    have hgrants := hres r gov rfl
    refine ⟨hgrants.limits.trans hs.limits_eq, fun c hc => ?_, fun c hc => ?_⟩
    · have hval := hs.value_eq c hc
      simp only [Ledger.keep, outstanding, hgrants.hostTokens, hgrants.value, hval,
        Counter.due_cons, Counter.due_append]
      omega
    · have hle := hgrants.le_limit c
      rwa [hs.limits_eq, max_eq_right (hs.le_limit c hc)] at hle

theorem ExactOn.release (h : Released s ks s') : ExactOn P limits s' := by
  refine ⟨h.limits_eq.trans hs.limits_eq, fun c hc => ?_, fun c hc => ?_⟩
  · rw [h.value_eq, hs.value_eq c hc, c.due_perm h.outstanding_perm, Counter.due_append]
    omega
  · rw [h.value_eq]
    exact (Nat.sub_le _ _).trans (hs.le_limit c hc)

theorem ExactOn.step (h : Step s op s') : ExactOn P limits s' := by
  rcases h.cases with ⟨-, res, rfl, hres⟩ | hrel
  · exact hs.keep hres
  · exact hs.release hrel

end

theorem ExactOn.noClamp (hs : Exact limits s) (h : Step s op s') :
    s.gov.NoClamp (s.releases op) := by
  rcases h.cases with ⟨hnil, -⟩ | hrel
  · rw [hnil]
    trivial
  · refine noClamp_of_due_le fun c => ?_
    rw [hs.value_eq c trivial, c.due_perm hrel.outstanding_perm, Counter.due_append]
    exact Nat.le_add_right _ _

/-- In every state that any sequence of operations reaches from a new governor, each
    counter is the exact total of the outstanding reservations and within its limit,
    no further operation clamps a subtraction, and with nothing outstanding every
    counter is zero. -/
theorem counters_exact {gov : GovernorInner} (hnew : GovernorInner.new limits = .ok gov)
    {ops : List GovernorOp} (hrun : Run Step ⟨gov, []⟩ ops s) :
    (∀ c : Counter, s.gov.value c = c.due s.outstanding) ∧
      (∀ c : Counter, s.gov.value c ≤ c.limit limits) ∧
      (∀ op s', Step s op s' → s.gov.NoClamp (s.releases op)) ∧
      (s.outstanding = [] → ∀ c : Counter, s.gov.value c = 0) := by
  have hexact : Exact limits s :=
    hrun.invariant (fun _ _ _ hs h => hs.step h) (exact_new hnew)
  refine ⟨fun c => hexact.value_eq c trivial, fun c => hexact.le_limit c trivial,
    fun _ _ h => hexact.noClamp h, fun hnone c => ?_⟩
  rw [hexact.value_eq c trivial, hnone, Counter.due_nil]

/-- Ten bytes queued for a stream and handed to the host, under the default limits: the
    books show them, and the only reservation left is the token. -/
theorem counters_exact_hostToken :
    ∃ gov s, GovernorInner.new {} = .ok gov ∧
      Run Step ⟨gov, []⟩ [.reserveEventBytes 1 (some 4) 10,
        .transferToHost (.queuedBytes 1 (some 4) 10)] s ∧
      s.held = [] ∧ s.gov.value (.queuedBytesPerStream 1 4) = 10 ∧
      ∀ c : Counter, s.gov.value c = c.due s.outstanding := by
  have hnew : new {} = .ok { limits := {} } := rfl
  have hrun : Run Step ⟨{ limits := {} }, []⟩ _ _ :=
    (Run.single (.reserveEventBytes _ 1 (some 4) 10)).append
      (.single (.transferToHost _ (.queuedBytes 1 (some 4) 10) (by decide)))
  exact ⟨_, _, hnew, hrun, by decide, by decide, (counters_exact hnew hrun).1⟩

/-- In every state that any sequence of operations reaches from a new governor, a
    reservation of `bytes` succeeds exactly when `available_event_bytes` reports at least
    as many for the same connection and stream. -/
theorem reserve_iff_available {gov : GovernorInner} (hnew : GovernorInner.new limits = .ok gov)
    {ops : List GovernorOp} (hrun : Run Step ⟨gov, []⟩ ops s) (conn : Nat) (stream : Option Nat)
    (bytes : Nat) :
    (∃ r gov', s.gov.reserveEventBytes conn stream bytes = .ok (r, gov')) ↔
      bytes ≤ s.gov.availableEventBytes conn stream := by
  have hexact : Exact limits s :=
    hrun.invariant (fun _ _ _ hs h => hs.step h) (exact_new hnew)
  -- with the counters within their limits no subtraction of the report saturates
  have hglobal := hexact.le_limit .queuedBytesGlobal trivial
  have hsession := hexact.le_limit (.queuedBytesPerSession conn) trivial
  have hword := s.gov.limits.maxQueuedBytesGlobal.toNat_lt
  rw [← hexact.limits_eq] at hglobal hsession
  simp only [value, Counter.limit] at hglobal hsession
  constructor
  · rintro ⟨r, gov', hok⟩
    obtain ⟨-, -, hg, hs, hst⟩ := reserveEventBytes_ok hok
    cases stream with
    | none =>
      simp only [availableEventBytes, usizeMax]
      omega
    | some sid => grind [availableEventBytes]
  · intro havailable
    refine ⟨_, _, reserveEventBytes_of_fits ?_ ?_ ?_⟩
    · simp only [availableEventBytes] at havailable
      omega
    · simp only [availableEventBytes] at havailable
      omega
    · rintro sid rfl
      have hstream := hexact.le_limit (.queuedBytesPerStream conn sid) trivial
      rw [← hexact.limits_eq] at hstream
      simp only [value, Counter.limit] at hstream
      simp only [availableEventBytes] at havailable
      omega

/-- Stream 4 of connection 1 holds 262140 of its 262144 bytes: four more are admitted, a
    fifth is not, and neither is reported as available. -/
theorem reserve_iff_available_nearly_full :
    ∃ gov s, GovernorInner.new {} = .ok gov ∧
      Run Step ⟨gov, []⟩ [.reserveEventBytes 1 (some 4) 262140] s ∧
      s.gov.availableEventBytes 1 (some 4) = 4 ∧
      (∃ r gov', s.gov.reserveEventBytes 1 (some 4) 4 = .ok (r, gov')) ∧
      ¬ ∃ r gov', s.gov.reserveEventBytes 1 (some 4) 5 = .ok (r, gov') := by
  have hnew : new {} = .ok { limits := {} } := rfl
  have hrun : Run Step ⟨{ limits := {} }, []⟩ _ _ :=
    Run.single (.reserveEventBytes _ 1 (some 4) 262140)
  refine ⟨_, _, hnew, hrun, by decide +kernel, ?_, ?_⟩
  · exact (reserve_iff_available hnew hrun 1 (some 4) 4).mpr (by decide +kernel)
  · rw [reserve_iff_available hnew hrun 1 (some 4) 5]
    decide +kernel

end Ledger

end WebTransportBun.Wasm
