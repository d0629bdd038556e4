/-
  WebTransportBun.Wasm.HostTokens

  The tokens under which the governor hands byte reservations to the host
  (`crates/wasm/src/governor.rs`, `transfer_to_host`, `release_host_token` and
  `allocate_host_token`).

  A token is a number of the cycle `1 … ceiling`; the search for a free one starts at a
  cursor that moves behind every token issued, so after a wrap-around it meets an
  arbitrary set of live tokens.  The history of a governor lists what was issued and
  freed; the results are about the state behind any history, under any ceiling.
-/

import WebTransportBun.Wasm.GovernorExact

namespace WebTransportBun.Wasm

open Library Library.Map GovernorInner

namespace GovernorInner

/-- `Governor::set_host_token_ceiling_for_test`.  A new governor has the ceiling
    `u32::MAX` and the cursor 1. -/
def setHostTokenCeilingForTest (g : GovernorInner) (ceiling : Nat) : GovernorInner :=
  { g with
    hostTokenCeiling := max ceiling 1
    nextHostToken := min (max g.nextHostToken 1) (max ceiling 1) }

/-! ## The search -/

/-- The loop of `allocate_host_token` as it stands in the source, with no bound on the
    rounds: from the candidate, it ends with this result. -/
inductive Searches (tokens : Map Nat HostToken) (ceiling start : Nat) :
    Nat → Except String Nat → Prop
  | found {c : Nat} (hfree : tokens.contains c = false) : Searches tokens ceiling start c (.ok c)
  | wrapped {c : Nat} (hlive : tokens.contains c = true) (hback : nextCandidate ceiling c = start) :
      Searches tokens ceiling start c
        (.error "E_LIMIT_EXCEEDED: host reservation token space exhausted")
  | probe {c : Nat} {result : Except String Nat} (hlive : tokens.contains c = true)
      (hnext : nextCandidate ceiling c ≠ start)
      (h : Searches tokens ceiling start (nextCandidate ceiling c) result) :
      Searches tokens ceiling start c result

def candidateAt (ceiling start k : Nat) : Nat :=
  if start + k ≤ ceiling then start + k else start + k - ceiling

/-- What a search returns after `k` rounds: a free token of the cycle, or a refusal when
    every candidate from round `k` on is live. -/
def Settles (tokens : Map Nat HostToken) (ceiling start k : Nat) : Except String Nat → Prop
  | .ok token => tokens.get? token = none ∧ 1 ≤ token ∧ token ≤ ceiling
  | .error _ => ∀ j, k ≤ j → j < ceiling → tokens.contains (candidateAt ceiling start j) = true

variable {ceiling start : Nat}

theorem nextCandidate_candidateAt (hhi : start ≤ ceiling) {k : Nat} (hk : k < ceiling) :
    nextCandidate ceiling (candidateAt ceiling start k) = candidateAt ceiling start (k + 1) := by
  simp only [nextCandidate, candidateAt]
  split <;> split <;> split <;> omega

theorem candidateAt_eq_start (hlo : 1 ≤ start) (k : Nat) :
    candidateAt ceiling start (k + 1) = start ↔ k + 1 = ceiling := by
  simp only [candidateAt]
  split <;> omega

theorem exists_candidateAt (hlo : 1 ≤ start) (hhi : start ≤ ceiling) {token : Nat} (h1 : 1 ≤ token)
    (h2 : token ≤ ceiling) : ∃ k < ceiling, candidateAt ceiling start k = token := by
  by_cases hle : start ≤ token
  · refine ⟨token - start, by omega, ?_⟩
    simp only [candidateAt]
    split <;> omega
  · refine ⟨token + ceiling - start, by omega, ?_⟩
    simp only [candidateAt]
    split <;> omega

/-- The bounded loop of the model is the loop of the source: with the rounds the cycle
    has left it ends by itself, before the bound does. -/
theorem allocateLoop_searches (tokens : Map Nat HostToken) (hlo : 1 ≤ start)
    (hhi : start ≤ ceiling) (fuel k : Nat) (hk : k < ceiling) (hfuel : k + fuel = ceiling) :
    Searches tokens ceiling start (candidateAt ceiling start k)
        (allocateLoop tokens ceiling start fuel (candidateAt ceiling start k)) ∧
      Settles tokens ceiling start k
        (allocateLoop tokens ceiling start fuel (candidateAt ceiling start k)) := by
  induction fuel generalizing k with
  | zero => omega
  | succ fuel ih =>
    have hnext := nextCandidate_candidateAt hhi hk
    have hback : candidateAt ceiling start (k + 1) = start ↔ k + 1 = ceiling :=
      candidateAt_eq_start hlo k
    simp only [allocateLoop]
    by_cases hlive : tokens.contains (candidateAt ceiling start k) = true
    · rw [if_pos hlive, hnext]
      by_cases hlast : k + 1 = ceiling
      · rw [if_pos (hback.mpr hlast)]
        refine ⟨.wrapped hlive (hnext.trans (hback.mpr hlast)), fun j hkj hj => ?_⟩
        obtain rfl : j = k := by omega
        exact hlive
      · rw [if_neg (fun h => hlast (hback.mp h))]
        obtain ⟨hsearch, hsettles⟩ := ih (k + 1) (by omega) (by omega)
        refine ⟨.probe hlive ?_ ?_, ?_⟩
        · rw [hnext]
          exact fun h => hlast (hback.mp h)
        · rw [hnext]
          exact hsearch
        · revert hsettles
          generalize allocateLoop tokens ceiling start fuel _ = result
          intro hsettles
          cases result with
          | ok token => exact hsettles
          | error e =>
            intro j hkj hj
            rcases Nat.eq_or_lt_of_le hkj with rfl | hlt
            · exact hlive
            · exact hsettles j hlt hj
    · rw [if_neg hlive]
      have hfree : tokens.contains (candidateAt ceiling start k) = false := by simpa using hlive
      refine ⟨.found hfree, by simpa [contains] using hfree, ?_⟩
      simp only [candidateAt]
      split <;> omega

/-- The ceiling and the start of the search `allocate_host_token` makes. -/
def searchCeiling (g : GovernorInner) : Nat := max g.hostTokenCeiling 1

def searchStart (g : GovernorInner) : Nat := min (max g.nextHostToken 1) g.searchCeiling

section

variable (g : GovernorInner)

theorem one_le_searchStart : 1 ≤ g.searchStart := by
  simp only [searchStart, searchCeiling]
  omega

theorem searchStart_le : g.searchStart ≤ g.searchCeiling :=
  min_le_right _ _

/-- The search that `allocate_host_token` makes. -/
theorem search_spec :
    ∃ result, g.allocateHostToken = result.map (fun token =>
        (token, { g with nextHostToken := nextCandidate g.searchCeiling token })) ∧
      Searches g.hostTokens g.searchCeiling g.searchStart g.searchStart result ∧
      Settles g.hostTokens g.searchCeiling g.searchStart 0 result := by
  have hpos := g.one_le_searchStart.trans g.searchStart_le
  have hspec := allocateLoop_searches g.hostTokens g.one_le_searchStart g.searchStart_le
    g.searchCeiling 0 hpos (zero_add _)
  rw [show candidateAt g.searchCeiling g.searchStart 0 = g.searchStart from
    if_pos g.searchStart_le] at hspec
  refine ⟨_, ?_, hspec⟩
  simp only [allocateHostToken, searchStart, searchCeiling, bind, Except.bind, pure, Except.pure,
    Except.map]

/-- A byte reservation moves under a free token of the cycle, or is released when the
    whole cycle is live. -/
theorem transferToHost_queuedBytes (conn : Nat) (stream : Option Nat)
    (bytes : Nat) :
    (∃ token, g.hostTokens.get? token = none ∧ 1 ≤ token ∧ token ≤ g.searchCeiling ∧
        g.transferToHost (.queuedBytes conn stream bytes) = (.ok token, { g with
          nextHostToken := nextCandidate g.searchCeiling token
          hostTokens := g.hostTokens.insert token ⟨.queuedBytes conn stream bytes⟩ })) ∨
      ∃ e, g.transferToHost (.queuedBytes conn stream bytes) =
          (.error e, g.releaseKind (.queuedBytes conn stream bytes)) ∧
        ∀ token, 1 ≤ token → token ≤ g.searchCeiling → g.hostTokens.contains token = true := by
  obtain ⟨result, halloc, -, hsettles⟩ := g.search_spec
  cases result with
  | ok token =>
    obtain ⟨hfresh, hlo, hhi⟩ := hsettles
    refine .inl ⟨token, hfresh, hlo, hhi, ?_⟩
    simp only [transferToHost, halloc, Except.map]
  | error e =>
    refine .inr ⟨e, by simp only [transferToHost, halloc, Except.map], fun token hlo hhi => ?_⟩
    obtain ⟨k, hk, rfl⟩ := exists_candidateAt g.one_le_searchStart g.searchStart_le hlo hhi
    exact hsettles k (Nat.zero_le k) hk

end

end GovernorInner

/-! ## Histories -/

inductive TokenEvent
  | issued (token : Nat) (r : ReservationKind)
  | freed (token : Nat)
  | freedAll

/-- The reservation a token was last issued for, unless it was freed since; the newest
    event comes first. -/
def TokenEvent.owner (token : Nat) : List TokenEvent → Option ReservationKind
  | [] => none
  | .issued t r :: log => if t = token then some r else owner token log
  | .freed t :: log => if t = token then none else owner token log
  | .freedAll :: _ => none

namespace Ledger

/-- The history after an operation: a transfer that succeeds issues a token, a release
    that succeeds frees one. -/
def record (s : Ledger) (log : List TokenEvent) : GovernorOp → List TokenEvent
  | .transferToHost r =>
    match (s.gov.transferToHost r).1 with
    | .ok token => .issued token r :: log
    | .error _ => log
  | .releaseHostToken token =>
    if (s.gov.releaseHostToken token).1 then .freed token :: log else log
  | .releaseAllHostTokens _ => .freedAll :: log
  | _ => log

def RecordedStep (p : Ledger × List TokenEvent) (op : GovernorOp)
    (q : Ledger × List TokenEvent) : Prop :=
  Step p.1 op q.1 ∧ q.2 = p.1.record p.2 op

/-- The token table is what the history says, and holds byte reservations only. -/
structure Follows (ceiling : Nat) (p : Ledger × List TokenEvent) : Prop where
  ceiling_eq : p.1.gov.searchCeiling = max ceiling 1
  owner : ∀ token, (p.1.gov.hostTokens.get? token).map HostToken.kind =
    TokenEvent.owner token p.2
  bytes : ∀ token host, p.1.gov.hostTokens.get? token = some host →
    ∃ conn stream bytes, host.kind = .queuedBytes conn stream bytes

variable {limits : WasmLimits} {ceiling : Nat} {s s' : Ledger} {op : GovernorOp}
  {log log' : List TokenEvent}

theorem Step.recorded (h : Step s op s') : RecordedStep (s, log) op (s', s.record log op) :=
  ⟨h, rfl⟩

@[simp] theorem hostTokenCeiling_releaseKind (g : GovernorInner) (k : ReservationKind) :
    (g.releaseKind k).hostTokenCeiling = g.hostTokenCeiling := by
  rcases k with _ | _ | ⟨_, _ | _⟩ | ⟨_, _ | _, _⟩ <;> rfl

@[simp] theorem hostTokenCeiling_releaseKinds (g : GovernorInner) (ks : List ReservationKind) :
    (g.releaseKinds ks).hostTokenCeiling = g.hostTokenCeiling := by
  induction ks generalizing g with
  | nil => rfl
  | cons k ks ih => exact (ih (g.releaseKind k)).trans (hostTokenCeiling_releaseKind g k)

/-- No operation moves the ceiling. -/
theorem Step.hostTokenCeiling (h : Step s op s') :
    s'.gov.hostTokenCeiling = s.gov.hostTokenCeiling := by
  cases h with
  | reserveHandshake =>
    simp only [GovernorInner.reserveHandshake]
    split <;> rfl
  | reserveSession =>
    simp only [GovernorInner.reserveSession]
    split <;> rfl
  | reserveStream conn stream kind =>
    simp only [GovernorInner.reserveStream]
    split
    · rfl
    · split
      · rfl
      · cases kind <;> rfl
  | reserveEventBytes conn stream bytes =>
    cases hres : s.gov.reserveEventBytes conn stream bytes with
    | error e => rfl
    | ok granted =>
      obtain ⟨r, gov⟩ := granted
      obtain ⟨-, rfl, -⟩ := reserveEventBytes_ok hres
      rfl
  | drop r hr => simp
  | transferToHost r hr =>
    rcases s.gov.transferToHost_cases r with ⟨token, next, -, htr⟩ | ⟨e, htr⟩
    · rw [htr]
    · simp [htr]
  | releaseHostToken token =>
    simp only [GovernorInner.releaseHostToken, GovernorInner.releaseHostTokenWithContext]
    split <;> simp
  | releaseAllHostTokens order horder => simp [GovernorInner.releaseAllHostTokens]

section

variable (h : Follows ceiling (s, log))

include h

/-- A transfer that succeeds inserts the reservation, a byte reservation, under a free
    token; one that fails leaves the table alone. -/
theorem Follows.transfer (r : ReservationKind) (held : List ReservationKind) :
    Follows ceiling (⟨(s.gov.transferToHost r).2, held⟩, s.record log (.transferToHost r)) := by
  rcases s.gov.transferToHost_cases r with ⟨token, next, hfresh, htr⟩ | ⟨e, htr⟩
  · have hbytes : ∃ conn stream bytes, r = .queuedBytes conn stream bytes := by
      cases r with
      | queuedBytes conn stream bytes => exact ⟨conn, stream, bytes, rfl⟩
      | _ => cases htr
    simp only [record, htr]
    refine ⟨h.ceiling_eq, fun t => ?_, fun t host hget => ?_⟩
    · simp only [TokenEvent.owner, get?_insert, eq_comm (a := token)]
      split
      · rfl
      · exact h.owner t
    · rw [get?_insert] at hget
      split at hget
      · cases hget
        exact hbytes
      · exact h.bytes t host hget
  · simp only [record, htr]
    exact ⟨by simpa [searchCeiling] using h.ceiling_eq, by simpa using h.owner,
      by simpa using h.bytes⟩

/-- A release frees the token exactly when the history has it issued, and gives back the
    reservation it was issued for. -/
theorem Follows.release_eq (token : Nat) :
    (TokenEvent.owner token log = none ∧ s.gov.releaseHostToken token = (false, s.gov)) ∨
      ∃ r, TokenEvent.owner token log = some r ∧ s.gov.releaseHostToken token =
        (true, { s.gov with hostTokens := s.gov.hostTokens.erase token }.releaseKind r) := by
  have howner := h.owner token
  cases hget : s.gov.hostTokens.get? token with
  | none => grind [releaseHostToken, releaseHostTokenWithContext]
  | some host =>
    rw [hget] at howner
    obtain ⟨conn, stream, bytes, hkind⟩ := h.bytes token host hget
    refine .inr ⟨host.kind, howner.symm, ?_⟩
    simp [releaseHostToken, releaseHostTokenWithContext, hget, hkind]

theorem Follows.release (token : Nat) :
    Follows ceiling (⟨(s.gov.releaseHostToken token).2, s.held⟩,
      s.record log (.releaseHostToken token)) := by
  rcases h.release_eq token with ⟨-, hrel⟩ | ⟨r, -, hrel⟩
  · simpa [record, hrel] using h
  · simp only [record, hrel]
    refine ⟨by simpa [searchCeiling] using h.ceiling_eq, fun t => ?_,
      fun t host hget => ?_⟩
    · simp only [if_true, TokenEvent.owner, hostTokens_releaseKind, get?_erase,
        eq_comm (a := token)]
      split
      · rfl
      · exact h.owner t
    · rw [hostTokens_releaseKind] at hget
      exact h.bytes t host (get?_of_erase hget)

theorem Follows.step (hstep : RecordedStep (s, log) op (s', log')) :
    Follows ceiling (s', log') := by
  obtain ⟨hstep, rfl⟩ := hstep
  have hceiling : s'.gov.searchCeiling = max ceiling 1 := by
    rw [← h.ceiling_eq, searchCeiling, hstep.hostTokenCeiling]
    rfl
  have hkeep : ∀ res : Except String (ReservationKind × GovernorInner),
      (∀ r gov, res = .ok (r, gov) → s.gov.Grants r gov) →
      (s.keep res).gov.hostTokens = s.gov.hostTokens := by
    intro res hres
    cases res with
    | error e => rfl
    | ok granted => exact (hres granted.1 granted.2 rfl).hostTokens
  -- a reservation leaves the tokens and the history alone
  have hsame : s'.gov.hostTokens = s.gov.hostTokens → Follows ceiling (s', log) := by
    intro htokens
    refine ⟨hceiling, ?_, ?_⟩
    · simpa only [htokens] using h.owner
    · simpa only [htokens] using h.bytes
  cases hstep with
  | reserveHandshake =>
    exact hsame (hkeep _ fun _ _ => reserveHandshake_grants)
  | reserveSession => exact hsame (hkeep _ fun _ _ => reserveSession_grants)
  | reserveStream => exact hsame (hkeep _ fun _ _ => reserveStream_grants)
  | reserveEventBytes => exact hsame (hkeep _ fun _ _ => reserveEventBytes_grants)
  | drop r hr => exact hsame (hostTokens_releaseKind _ r)
  | transferToHost r hr => exact h.transfer r _
  | releaseHostToken token => exact h.release token
  | releaseAllHostTokens order horder =>
    refine ⟨hceiling, fun t => ?_, fun t host hget => ?_⟩
    · simp [releaseAllHostTokens, record, TokenEvent.owner]
    · simp [releaseAllHostTokens] at hget

end

/-- Under every token ceiling and behind every history of governor operations: a token is
    issued only if it is not live, and lies in `1 … ceiling`; a transfer fails exactly
    when all these are live or the reservation is no byte reservation; the search loop
    ends; a release succeeds exactly when the token was issued and not freed since, and
    then gives back the reservation it was last issued for and nothing else. -/
theorem hostTokens_issued_once (ceiling : Nat) {gov : GovernorInner}
    (hnew : GovernorInner.new limits = .ok gov) {ops : List GovernorOp}
    (hrun : Run RecordedStep (⟨gov.setHostTokenCeilingForTest ceiling, []⟩, []) ops (s, log)) :
    (∀ r token, (s.gov.transferToHost r).1 = .ok token →
        TokenEvent.owner token log = none ∧ 1 ≤ token ∧ token ≤ max ceiling 1 ∧
        (s.gov.transferToHost r).2.hostTokens = s.gov.hostTokens.insert token ⟨r⟩) ∧
      (∀ r, (∃ e, (s.gov.transferToHost r).1 = .error e) ↔
        (∀ token, 1 ≤ token → token ≤ max ceiling 1 →
          (TokenEvent.owner token log).isSome = true) ∨
        ∀ conn stream bytes, r ≠ .queuedBytes conn stream bytes) ∧
      (∃ result, GovernorInner.Searches s.gov.hostTokens s.gov.searchCeiling s.gov.searchStart
        s.gov.searchStart result) ∧
      ∀ token,
        (TokenEvent.owner token log = none ∧ s.gov.releaseHostToken token = (false, s.gov)) ∨
        ∃ r, TokenEvent.owner token log = some r ∧ s.gov.releaseHostToken token =
          (true, { s.gov with hostTokens := s.gov.hostTokens.erase token }.releaseKind r) := by
  have hinit : Follows ceiling (⟨gov.setHostTokenCeilingForTest ceiling, []⟩, []) := by
    obtain ⟨-, rfl⟩ := eq_of_new hnew
    refine ⟨?_, fun token => rfl, fun token host hget => ?_⟩
    · simp [searchCeiling, setHostTokenCeilingForTest]
    · simp [setHostTokenCeilingForTest] at hget
  have h : Follows ceiling (s, log) :=
    hrun.invariant (fun _ _ _ hs hstep => hs.step hstep) hinit
  have hlive : ∀ token, s.gov.hostTokens.contains token = (TokenEvent.owner token log).isSome := by
    intro token
    rw [← h.owner token, Option.isSome_map]
    rfl
  obtain ⟨result, -, hsearch, -⟩ := s.gov.search_spec
  refine ⟨fun r token hok => ?_, fun r => ?_, ⟨result, hsearch⟩, h.release_eq⟩
  · cases r with
    | queuedBytes conn stream bytes =>
      rcases s.gov.transferToHost_queuedBytes conn stream bytes with
        ⟨t, hfresh, hlo, hhi, htr⟩ | ⟨e, htr, -⟩
      · rw [htr] at hok ⊢
        cases hok
        refine ⟨?_, hlo, h.ceiling_eq ▸ hhi, rfl⟩
        rw [← h.owner, hfresh]
        rfl
      · rw [htr] at hok
        cases hok
    | _ => cases hok
  · constructor
    · rintro ⟨e, hfail⟩
      cases r with
      | queuedBytes conn stream bytes =>
        rcases s.gov.transferToHost_queuedBytes conn stream bytes with
          ⟨t, -, -, -, htr⟩ | ⟨e', -, hall⟩
        · rw [htr] at hfail
          cases hfail
        · refine .inl fun token hlo hhi => ?_
          rw [← hlive]
          exact hall token hlo (h.ceiling_eq ▸ hhi)
      | _ => exact .inr (by simp)
    · intro hrefused
      cases r with
      | queuedBytes conn stream bytes =>
        rcases s.gov.transferToHost_queuedBytes conn stream bytes with
          ⟨t, hfresh, hlo, hhi, -⟩ | ⟨e, htr, -⟩
        · rcases hrefused with hall | hkind
          · have hused := hall t hlo (h.ceiling_eq ▸ hhi)
            rw [← h.owner, hfresh] at hused
            cases hused
          · exact absurd rfl (hkind conn stream bytes)
        · exact ⟨e, by rw [htr]⟩
      | _ => exact ⟨_, rfl⟩

/-- A single token, issued, freed and issued again for other bytes: a third reservation is
    refused, and freeing the token gives back the bytes it now stands for. -/
theorem hostTokens_issued_once_reissued :
    ∃ gov s log, GovernorInner.new {} = .ok gov ∧
      Run RecordedStep (⟨gov.setHostTokenCeilingForTest 1, []⟩, [])
        [.reserveEventBytes 1 none 5, .transferToHost (.queuedBytes 1 none 5),
          .releaseHostToken 1, .reserveEventBytes 1 none 7,
          .transferToHost (.queuedBytes 1 none 7)] (s, log) ∧
      (∃ e, (s.gov.transferToHost (.queuedBytes 1 none 8)).1 = .error e) ∧
      s.gov.releaseHostToken 1 = (true, { s.gov with
        hostTokens := s.gov.hostTokens.erase 1 }.releaseKind (.queuedBytes 1 none 7)) := by
  have hnew : new {} = .ok { limits := {} } := rfl
  have hfirst := ((Run.nil (⟨setHostTokenCeilingForTest { limits := {} } 1, []⟩,
    [])).snoc (Step.reserveEventBytes _ 1 none 5).recorded).snoc
    (Step.transferToHost _ (.queuedBytes 1 none 5) (by decide)).recorded
  have hrun := ((hfirst.snoc (Step.releaseHostToken _ 1).recorded).snoc
    (Step.reserveEventBytes _ 1 none 7).recorded).snoc
    (Step.transferToHost _ (.queuedBytes 1 none 7) (by decide)).recorded
  obtain ⟨-, hfails, -, hrelease⟩ := hostTokens_issued_once 1 hnew hrun
  refine ⟨_, _, _, hnew, hrun, (hfails _).mpr (.inl fun token hlo hhi => ?_), ?_⟩
  · obtain rfl : token = 1 := by omega
    decide +kernel
  · rcases hrelease 1 with ⟨hnone, -⟩ | ⟨r, hsome, hrel⟩
    · cases hnone
    · cases hsome
      exact hrel

end Ledger

end WebTransportBun.Wasm
