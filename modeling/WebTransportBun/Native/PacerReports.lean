/-
  WebTransportBun.Native.PacerReports

  The report ring of the pacer in `crates/native/src/egress_pacer.rs` over whole histories of
  `record_report` and `drain_reports` calls of any number of servers.  Both hold the lock of
  the ring and cannot panic under it, so a call is one step and the lock is never poisoned.

  Every failure that was counted is drained, dropped or in the ring.  The ring is shared: a
  server whose reports are not drained makes the others' oldest entries fall out of it.
-/

import WebTransportBun.Library.Isolation
import WebTransportBun.Native.EgressPacer

namespace WebTransportBun.Native.EgressPacer

open Library List Function Reports MirrorFailure

def reportsOf (ownerServerId : Nat) (ring : List Report) : List Report :=
  ring.filter fun r => r.ownerServerId = ownerServerId

theorem reportsOf_cons (o : Nat) (r : Report) (ring : List Report) :
    reportsOf o (r :: ring) =
      if r.ownerServerId = o then r :: reportsOf o ring else reportsOf o ring := by
  unfold reportsOf
  rw [filter_cons]
  simp only [decide_eq_true_eq]

theorem reportsOf_append (o : Nat) (ring ring' : List Report) :
    reportsOf o (ring ++ ring') = reportsOf o ring ++ reportsOf o ring' :=
  filter_append ..

/-- `drain_reports`: the entries it takes out of the ring. -/
def drained (ownerServerId : Nat) : Nat → List Report → List Report
  | 0, _ => []
  | _, [] => []
  | max + 1, r :: ring =>
    if r.ownerServerId = ownerServerId then r :: drained ownerServerId max ring
    else drained ownerServerId (max + 1) ring

section Ring

variable {a o : Nat} (max : Nat) (ring : List Report)

theorem drained_eq : drained o max ring = (reportsOf o ring).take max := by
  fun_induction drained o max ring with
  | case1 => rfl
  | case2 => exact take_nil.symm
  | case3 max r ring hr ih => rw [reportsOf_cons, if_pos hr, take_succ_cons, ih]
  | case4 max r ring hr ih => rw [reportsOf_cons, if_neg hr, ih]

theorem reportsOf_drainReports :
    reportsOf o (drainReports o max ring) = (reportsOf o ring).drop max := by
  fun_induction drainReports o max ring with
  | case1 => rfl
  | case2 => exact drop_nil.symm
  | case3 max r ring hr ih => rw [reportsOf_cons, if_pos hr, drop_succ_cons, ih]
  | case4 max r ring hr ih => rw [reportsOf_cons, reportsOf_cons, if_neg hr, if_neg hr, ih]

theorem reportsOf_drainReports_of_ne (hne : o ≠ a) :
    reportsOf a (drainReports o max ring) = reportsOf a ring := by
  fun_induction drainReports o max ring with
  | case1 => rfl
  | case2 => rfl
  | case3 max r ring hr ih => rw [reportsOf_cons, if_neg (hr ▸ hne), ih]
  | case4 max r ring hr ih => rw [reportsOf_cons, reportsOf_cons, ih]

theorem length_drainReports :
    (drained o max ring).length + (drainReports o max ring).length = ring.length := by
  fun_induction drainReports o max ring with
  | case1 => rw [drained, length_nil, zero_add]
  | case2 max hmax => rw [drained.eq_2 _ _ hmax, length_nil]
  | case3 max r ring hr ih =>
    rw [drained, if_pos hr, length_cons, length_cons]
    omega
  | case4 max r ring hr ih =>
    rw [drained, if_neg hr, length_cons, length_cons]
    omega

end Ring

/-! ## Histories of calls -/

inductive ReportCall
  | record (ownerServerId : Nat) (target code : String)
  | drain (ownerServerId max : Nat)
  deriving DecidableEq, Repr

namespace Reports

def init : Reports := ⟨[], 0, 0⟩

theorem ring_record (s : Reports) (o : Nat) (target code : String) :
    (s.record o target code).ring = s.ring.drop (s.ring.length + 1 - mirrorReportsCap) ++
      [⟨o, target, (fromCode code).toU8⟩] := by
  rw [record]

def call (s : Reports) : ReportCall → Reports × List (String × Nat)
  | .record ownerServerId target code => (s.record ownerServerId target code, [])
  | .drain ownerServerId max =>
    ({ s with ring := drainReports ownerServerId max s.ring },
      (drained ownerServerId max s.ring).map fun r => (r.target, r.code))

end Reports

/-- The ring with what went in and what came out. -/
structure ReportLog where
  /-- What was recorded, oldest first. -/
  recorded : List Report
  /-- What was drained, with the server that asked, in the order in which it was returned. -/
  drained : List (Nat × Report)
  reports : Reports

namespace ReportLog

def init : ReportLog := ⟨[], [], .init⟩

def call (s : ReportLog) (c : ReportCall) : ReportLog :=
  { recorded := match c with
      | .record ownerServerId target code =>
        s.recorded ++ [⟨ownerServerId, target, (fromCode code).toU8⟩]
      | .drain .. => s.recorded
    drained := match c with
      | .record .. => s.drained
      | .drain ownerServerId max =>
        s.drained ++ (EgressPacer.drained ownerServerId max s.reports.ring).map (ownerServerId, ·)
    reports := (s.reports.call c).1 }

def givenTo (s : ReportLog) (ownerServerId : Nat) : List Report :=
  (s.drained.filter fun d => d.1 = ownerServerId).map (·.2)

/-- Every failure that was counted is accounted for, and what a server was given and still
    has in the ring are reports of its own, in the order of their recording. -/
structure Conserved (s : ReportLog) : Prop where
  total : s.reports.deferredFailures =
    s.drained.length + s.reports.dropped + s.reports.ring.length
  bounded : s.reports.ring.length ≤ mirrorReportsCap
  order : ∀ o, (s.givenTo o ++ reportsOf o s.reports.ring).Sublist (reportsOf o s.recorded)

variable {s : ReportLog}

theorem givenTo_drain (s : ReportLog) (o max : Nat) : (s.call (.drain o max)).givenTo o =
    s.givenTo o ++ (reportsOf o s.reports.ring).take max := by
  rw [← drained_eq, givenTo, call, filter_append]
  simp [givenTo, filter_map, comp_def]

theorem givenTo_drain_of_ne (s : ReportLog) {o a : Nat} (hne : o ≠ a) (max : Nat) :
    (s.call (.drain o max)).givenTo a = s.givenTo a := by
  rw [givenTo, call, filter_append]
  simp [givenTo, hne]

theorem Conserved.record (h : s.Conserved) (o : Nat) (target code : String) :
    (s.call (.record o target code)).Conserved := by
  have htotal := h.total
  have hcap : 0 < mirrorReportsCap := Nat.zero_lt_succ _
  constructor
  · grind [call, Reports.call, Reports.record]
  · grind [call, Reports.call, Reports.record]
  · intro a
    -- the entries that stay are a later part of the ring
    have hstay := (drop_sublist (s.reports.ring.length + 1 - mirrorReportsCap)
      s.reports.ring).filter fun r => r.ownerServerId = a
    simp only [call, Reports.call, Reports.ring_record, reportsOf_append, ← append_assoc]
    refine List.Sublist.append ?_ (.refl _)
    exact ((List.Sublist.refl (s.givenTo a)).append hstay).trans (h.order a)

theorem Conserved.drain (h : s.Conserved) (o max : Nat) :
    (s.call (.drain o max)).Conserved := by
  have hlength := length_drainReports (o := o) max s.reports.ring
  constructor
  · show s.reports.deferredFailures = (s.drained ++ List.map _ _).length + s.reports.dropped +
      (drainReports o max s.reports.ring).length
    rw [h.total, length_append, length_map]
    omega
  · show (drainReports o max s.reports.ring).length ≤ mirrorReportsCap
    exact le_trans (by omega) h.bounded
  · intro a
    show (_ ++ reportsOf a (drainReports o max s.reports.ring)).Sublist (reportsOf a s.recorded)
    by_cases hao : o = a
    · rw [← hao, givenTo_drain, reportsOf_drainReports, append_assoc, take_append_drop]
      exact h.order o
    · rw [givenTo_drain_of_ne s hao, reportsOf_drainReports_of_ne _ _ hao]
      exact h.order a

end ReportLog

/-- After every history, a counted failure has been drained or dropped or is in the ring, and
    the ring is within its capacity.  A drain returns the first of the caller's entries;
    whatever a server was given, with what it still has in the ring, are reports recorded for
    it, in their order and none of them twice. -/
theorem reports_conserved (calls : List ReportCall) :
    (calls.foldl ReportLog.call .init).Conserved ∧
      ∀ s : ReportLog, ∀ o max,
        (s.call (.drain o max)).givenTo o = s.givenTo o ++ (reportsOf o s.reports.ring).take max ∧
        (s.reports.call (.drain o max)).2 =
          ((reportsOf o s.reports.ring).take max).map fun r => (r.target, r.code) := by
  refine ⟨?_, fun s o max => ⟨s.givenTo_drain o max, ?_⟩⟩
  · refine foldlRecOn calls ReportLog.call ⟨rfl, Nat.zero_le _, fun _ => .refl _⟩ ?_
    intro s h c _
    cases c with
    | record o target code => exact h.record o target code
    | drain o max => exact h.drain o max
  · rw [← drained_eq]
    rfl

/-! ## One server among others -/

namespace ReportCall

def ownerServerId : ReportCall → Nat
  | .record o _ _ | .drain o _ => o

/-- The calls other than the polls of other servers. -/
def concerns (a : Nat) : ReportCall → Bool
  | .record .. => true
  | .drain o _ => decide (o = a)

/-- The call drops no report of a server from the ring. -/
def Spares (a : Nat) (s : Reports) : ReportCall → Prop
  | .record .. => ∀ r ∈ s.ring.take (s.ring.length + 1 - mirrorReportsCap), r.ownerServerId ≠ a
  | .drain .. => True

end ReportCall

open ReportCall

/-- The ring of a server that shares it with nobody. -/
def callAlone (ring : List Report) : ReportCall → List Report × List (String × Nat)
  | .record o target code => (ring ++ [⟨o, target, (fromCode code).toU8⟩], [])
  | .drain _ max => (ring.drop max, (ring.take max).map fun r => (r.target, r.code))

theorem reportsOf_record {a : Nat} {s : Reports} {o : Nat} {target code : String}
    (hspares : Spares a s (.record o target code)) :
    reportsOf a (s.record o target code).ring = reportsOf a s.ring ++
      reportsOf a [⟨o, target, (fromCode code).toU8⟩] := by
  have hdropped : reportsOf a (s.ring.take (s.ring.length + 1 - mirrorReportsCap)) = [] :=
    filter_eq_nil_iff.mpr fun r hr => by simpa using hspares r hr
  conv_rhs => rw [← take_append_drop (s.ring.length + 1 - mirrorReportsCap) s.ring]
  rw [ring_record, reportsOf_append, reportsOf_append, hdropped, nil_append]

theorem reports_isolated (a : Nat) : Isolated call (·.ownerServerId = a) (Spares a)
    (fun s => reportsOf a s.ring) callAlone where
  own_view := by
    rintro s (⟨o, target, code⟩ | ⟨o, max⟩) hspares rfl
    · refine (reportsOf_record hspares).trans ?_
      rw [reportsOf_cons, ReportCall.ownerServerId, if_pos rfl]
      rfl
    · exact reportsOf_drainReports max s.ring
  own_result := by
    rintro s (⟨o, target, code⟩ | ⟨o, max⟩) - rfl
    · rfl
    · show (drained o max s.ring).map _ = _
      rw [drained_eq]
      rfl
  other_view := by
    rintro s (⟨o, target, code⟩ | ⟨o, max⟩) hspares hother
    · refine (reportsOf_record hspares).trans ?_
      rw [ReportCall.ownerServerId] at hother
      rw [reportsOf_cons, if_neg hother]
      exact append_nil _
    · exact reportsOf_drainReports_of_ne max s.ring hother

def returnsTo (a : Nat) (s : Reports) (calls : List ReportCall) : List (List (String × Nat)) :=
  ownResults call (·.ownerServerId = a) s calls

/-- Two histories that differ only in the polls of other servers give a server the same
    reports, if in neither of them one of its reports is the oldest when the full ring makes
    room. -/
theorem drains_independent (a : Nat) {calls calls' : List ReportCall}
    (hagree : calls.filter (concerns a) = calls'.filter (concerns a))
    (hspares : Along Reports.call (Spares a) .init calls)
    (hspares' : Along Reports.call (Spares a) .init calls') :
    returnsTo a .init calls = returnsTo a .init calls' := by
  refine (reports_isolated a).ownResults_congr rfl hspares hspares' ?_
  have hown : ∀ cs : List ReportCall, (cs.filter fun c => c.ownerServerId = a) =
      (cs.filter (concerns a)).filter fun c => c.ownerServerId = a := by
    intro cs
    rw [filter_filter]
    refine filter_congr fun c _ => ?_
    cases c with
    | record o target code => exact (Bool.and_true _).symm
    | drain o max => exact (Bool.and_self _).symm
  rw [hown calls, hown calls', hagree]

theorem drains_independent_poll :
    returnsTo 0 .init [.record 0 "a" "E_QUEUE_FULL", .record 1 "b" "E_QUEUE_FULL", .drain 0 8] =
      returnsTo 0 .init
        [.record 0 "a" "E_QUEUE_FULL", .record 1 "b" "E_QUEUE_FULL", .drain 1 8, .drain 0 8] :=
  drains_independent 0 (by decide)
    (by simp [Along, Spares, Reports.call, Reports.record, Reports.init, mirrorReportsCap])
    (by simp [Along, Spares, Reports.call, Reports.record, Reports.init, mirrorReportsCap])

/-! ## A ring that one server fills -/

section

variable {a : Nat} {s : Reports} {c : ReportCall}

theorem returnsTo_own {calls} (hown : c.ownerServerId = a) :
    returnsTo a s (c :: calls) = (s.call c).2 :: returnsTo a (s.call c).1 calls := if_pos hown

theorem returnsTo_other {calls} (hother : c.ownerServerId ≠ a) :
    returnsTo a s (c :: calls) = returnsTo a (s.call c).1 calls := if_neg hother

def fill (n : Nat) : List ReportCall := List.replicate n (.record 1 "b" "E_QUEUE_FULL")

/-- As long as there is room, nothing is dropped. -/
theorem returnsTo_fill (n : Nat) (calls : List ReportCall)
    (hroom : s.ring.length + n ≤ mirrorReportsCap) :
    ∃ dropped deferred, returnsTo 0 s (fill n ++ calls) =
      returnsTo 0 ⟨s.ring ++ List.replicate n ⟨1, "b", 2⟩, dropped, deferred⟩ calls := by
  induction n generalizing s with
  | zero => exact ⟨s.dropped, s.deferredFailures, by simp [fill]⟩
  | succ n ih =>
    have hroom' : (s.record 1 "b" "E_QUEUE_FULL").ring.length + n ≤ mirrorReportsCap := by
      rw [ring_record, length_append, length_drop, length_singleton]
      omega
    obtain ⟨dropped, deferred, hrest⟩ := ih hroom'
    refine ⟨dropped, deferred, (returnsTo_other (by decide)).trans (hrest.trans ?_)⟩
    have hexcess : s.ring.length + 1 - mirrorReportsCap = 0 := by omega
    rw [ring_record, hexcess, append_assoc]
    rfl

theorem reportsOf_full {n : Nat} (hfull : n + 1 = mirrorReportsCap) (dropped deferred : Nat) :
    reportsOf 0 (Reports.record ⟨⟨0, "a", 2⟩ :: List.replicate n ⟨1, "b", 2⟩, dropped, deferred⟩
      1 "b" "E_QUEUE_FULL").ring = [] := by
  have hexcess : n + 1 + 1 - mirrorReportsCap = 1 := by omega
  rw [ring_record, length_cons, length_replicate, hexcess]
  simp [reportsOf]

end

def unpolled : List ReportCall :=
  .record 0 "a" "E_QUEUE_FULL" :: (fill 4095 ++ (fill 1 ++ [.drain 0 1]))

def polled : List ReportCall :=
  .record 0 "a" "E_QUEUE_FULL" :: (fill 1 ++ .drain 1 1 :: (fill 4095 ++ [.drain 0 1]))

theorem concerns_unpolled :
    unpolled.filter (concerns 0) = polled.filter (concerns 0) := by
  have hswap : fill 4095 ++ fill 1 = fill 1 ++ fill 4095 := by
    simp only [fill, replicate_append_replicate]
  rw [unpolled, ← append_assoc, hswap]
  rfl

theorem returnsTo_unpolled : returnsTo 0 .init unpolled = [[], []] := by
  obtain ⟨dropped, deferred, hfill⟩ :=
    returnsTo_fill (s := ⟨[⟨0, "a", 2⟩], 0, 1⟩) 4095 (fill 1 ++ [.drain 0 1]) (by decide)
  refine (returnsTo_own rfl).trans (congrArg (_ :: ·) (hfill.trans ?_))
  rw [fill, replicate_one, singleton_append, singleton_append,
    returnsTo_other (by decide), returnsTo_own (a := 0) rfl]
  simp only [call, drained_eq, reportsOf_full rfl]
  rfl

theorem returnsTo_polled : returnsTo 0 .init polled = [[], [("a", 2)]] := by
  obtain ⟨dropped, deferred, hfill⟩ :=
    returnsTo_fill (s := ⟨[⟨0, "a", 2⟩], 0, 2⟩) 4095 [.drain 0 1] (by decide)
  refine (returnsTo_own rfl).trans (congrArg (_ :: ·) ?_)
  refine (returnsTo_other (by decide)).trans ((returnsTo_other (by decide)).trans (hfill.trans ?_))
  rfl

/-- Without the poll, the report of server 0 is the oldest of a full ring and makes room for
    the last one of server 1. -/
theorem unpolled_reports_evict :
    unpolled.filter (concerns 0) = polled.filter (concerns 0) ∧
      returnsTo 0 .init unpolled = [[], []] ∧ returnsTo 0 .init polled = [[], [("a", 2)]] :=
  ⟨concerns_unpolled, returnsTo_unpolled, returnsTo_polled⟩

end WebTransportBun.Native.EgressPacer
