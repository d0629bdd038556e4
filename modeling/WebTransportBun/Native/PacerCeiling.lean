/-
  WebTransportBun.Native.PacerCeiling

  How many clumps depart in a window of time.  Inside one thread the schedule is a meter
  with a level of at most three intervals: a departure costs one, and lateness of the
  thread fills it up.  A respawned thread starts without a cursor, so it may depart at
  once; the meter can pay for that if the idle time before the exit is no shorter than an
  interval.
-/

import WebTransportBun.Library.Meter
import WebTransportBun.Native.EgressPacer

namespace WebTransportBun.Native.EgressPacer

open Library Option Nat

namespace Pacer

variable {cfg : PacerConfig} {s t : Pacer} {op : Op}

/-- The level of the meter under the schedule of a thread. -/
structure Cadence (interval clock : Nat) (th : Thread) (level : Nat) : Prop where
  interval_eq : th.core.interval = interval
  horizon_eq : th.core.horizon = 2 * interval
  /-- A first departure can be paid for. -/
  fresh : th.core.cursor = none → interval ≤ level
  /-- Behind the cursor the level has risen above one interval, ahead of it it is below. -/
  ahead : ∀ c, th.core.cursor = some c →
    c ≤ clock + interval ∧ level = min (3 * interval) (interval + clock - c)
  /-- The last departure was before the thread went to sleep. -/
  asleep : ∀ c since, th.core.cursor = some c → th.phase = .idle (some since) →
    c ≤ since + interval ∧ since ≤ clock

/-- The departures so far, paid for by a level that allows the next one. -/
def Paced (interval : Nat) (s : Pacer) : Prop :=
  ∃ level, Metered 1 (3 * interval) interval s.clock level s.departures ∧
    match s.thread with
    | none => interval ≤ level
    | some th => Cadence interval s.clock th level

theorem Paced.new (interval : Nat) : Pacer.new.Paced interval :=
  ⟨3 * interval, Metered.start le_rfl, Nat.le_mul_of_pos_left interval (by decide)⟩

variable {interval : Nat}

theorem Paced.of_eq (h : s.Paced interval) (hclock : t.clock = s.clock)
    (hdepartures : t.departures = s.departures) (hthread : t.thread = s.thread) :
    t.Paced interval := by
  obtain ⟨level, hmeter, hlevel⟩ := h
  refine ⟨level, ?_, ?_⟩
  · rw [hclock, hdepartures]
    exact hmeter
  · rw [hthread, hclock]
    exact hlevel

theorem Paced.tick {now : Nat} (h : s.Paced interval) (hnow : s.clock ≤ now) :
    { s with clock := now }.Paced interval := by
  obtain ⟨level, hmeter, hlevel⟩ := h
  have hkeep : Metered 1 (3 * interval) interval now level s.departures :=
    hmeter.advance hnow (le_add_right _ _) hmeter.level_le
  show ∃ level, Metered 1 (3 * interval) interval now level s.departures ∧
    match s.thread with
    | none => interval ≤ level
    | some th => Cadence interval now th level
  cases hthread : s.thread with
  | none =>
    rw [hthread] at hlevel
    exact ⟨level, hkeep, hlevel⟩
  | some th =>
    rw [hthread] at hlevel
    obtain ⟨hinterval, hhorizon, hfresh, hahead, hasleep⟩ := hlevel
    cases hcursor : th.core.cursor with
    | none =>
      refine ⟨level, hkeep, hinterval, hhorizon, hfresh, ?_, ?_⟩
      · grind
      · grind
    | some c =>
      obtain ⟨hc, hlevel⟩ := hahead c hcursor
      -- the level rises with the clock, up to the cap
      refine ⟨min (3 * interval) (interval + now - c), hmeter.advance hnow ?_ ?_, hinterval,
        hhorizon, ?_, ?_, ?_⟩
      · omega
      · exact min_le_left ..
      · grind
      · grind
      · grind

variable {core : PacerCore} {q : Queue}

theorem Paced.move {phase phase' : Phase} (h : s.Paced interval)
    (hthread : s.thread = some ⟨core, phase⟩)
    (hphase : ∀ since, phase' = .idle (some since) → since = s.clock) {r : Reports}
    {handled : List Target} :
    { s with queue := q, reports := r, handled, thread := some ⟨core, phase'⟩ }.Paced
      interval := by
  obtain ⟨level, hmeter, hlevel⟩ := h
  rw [hthread] at hlevel
  obtain ⟨hinterval, hhorizon, hfresh, hahead, -⟩ := hlevel
  refine ⟨level, hmeter, hinterval, hhorizon, hfresh, hahead, ?_⟩
  intro c since hc hidle
  obtain rfl := hphase since hidle
  exact ⟨(hahead c hc).1, le_rfl⟩

/-- A clump departs at the later of its time and the clock. -/
theorem Paced.departed {job : Job} {rest : List String}
    (h : s.Paced interval) (hthread : s.thread = some ⟨core, .draining job rest⟩) :
    (s.depart cfg core job rest).Paced interval := by
  obtain ⟨level, hmeter, hlevel⟩ := h
  rw [hthread] at hlevel
  obtain ⟨hinterval, hhorizon, hfresh, hahead, -⟩ := hlevel
  simp only at hinterval hhorizon hfresh hahead
  -- one departure at `d`, with the cursor one interval behind the time it was given
  have hdepart :
      ∀ (tx : Nat) (core' : PacerCore) (level' : Nat), core.nextTxtime s.clock = (tx, core') →
      core'.interval = interval → core'.horizon = 2 * interval →
      core'.cursor = some (tx + interval) →
      Metered 1 (3 * interval) interval (max tx s.clock) (level' + interval) s.departures →
      level' = min (3 * interval) (interval + max tx s.clock - (tx + interval)) →
      (s.depart cfg core job rest).Paced interval := by
    intro tx core' level' hnext hinterval' hhorizon' hcursor' hmeter' hlevel'
    unfold Paced depart
    simp only [hnext]
    refine ⟨level', hmeter'.grant le_rfl, hinterval', hhorizon', ?_, ?_, ?_⟩
    · grind
    · grind
    · intro c since _ hphase
      cases hphase
  unfold PacerCore.nextTxtime at hdepart
  cases hcursor : core.cursor with
  | none =>
    have hpaid := hfresh hcursor
    simp only [hcursor, hinterval] at hdepart
    refine hdepart s.clock _ 0 rfl rfl hhorizon rfl ?_ ?_
    · rw [max_self, zero_add]
      exact hmeter.lower hpaid
    · omega
  | some c =>
    obtain ⟨hc, hlevel⟩ := hahead c hcursor
    simp only [hcursor, hinterval, hhorizon] at hdepart
    by_cases hkeep : s.clock ≤ c + 2 * interval
    · -- the cadence is kept; waiting for the cursor fills the meter up to one interval
      simp only [if_pos hkeep] at hdepart
      refine hdepart c _ (max c s.clock - c) rfl rfl rfl rfl ?_ ?_
      · exact hmeter.advance (le_max_right ..) (by omega) (by omega)
      · omega
    · simp only [if_neg hkeep] at hdepart
      refine hdepart s.clock _ 0 rfl rfl rfl rfl ?_ ?_
      · rw [max_self]
        exact hmeter.lower (by omega)
      · omega

/-- A thread that leaves after the idle time has paid for the first departure of the next. -/
theorem Paced.left {since : Nat} (h : s.Paced interval)
    (hinterval : interval ≤ idleExit) (hthread : s.thread = some ⟨core, .idle (some since)⟩)
    (hlong : since + idleExit ≤ s.clock) :
    { s with queue := q, thread := none }.Paced interval := by
  obtain ⟨level, hmeter, hlevel⟩ := h
  rw [hthread] at hlevel
  obtain ⟨-, -, hfresh, hahead, hasleep⟩ := hlevel
  refine ⟨level, hmeter, ?_⟩
  cases hcursor : core.cursor with
  | none => exact hfresh hcursor
  | some c => grind

theorem Paced.spawned {admitted : List Target}
    (h : s.Paced interval) (hthread : s.thread = none) (hcfg : cfg.interval = interval) :
    { s with queue := q, admitted, thread := some ⟨.new cfg, .idle none⟩ }.Paced interval := by
  obtain ⟨level, hmeter, hlevel⟩ := h
  rw [hthread] at hlevel
  refine ⟨level, hmeter, hcfg, ?_, fun _ => hlevel, ?_, ?_⟩
  · show cfg.interval * catchupClumps = 2 * interval
    rw [hcfg, mul_comm]
    rfl
  · intro c hc
    cases hc
  · intro c since hc
    cases hc

theorem Paced.effect (h : s.Paced cfg.interval) (hflag : s.Flagged)
    (hinterval : cfg.interval ≤ idleExit) (hcalm : op ≠ .send .panicked)
    (heffect : Effect cfg s op t) : t.Paced cfg.interval := by
  cases heffect with
  | refused => exact h
  | queued => exact h.of_eq rfl rfl rfl
  | spawned job hjob hrunning =>
    have hthread : s.thread = none := by
      rw [← not_isSome_iff_eq_none, ← hflag, hrunning]
      decide
    exact h.spawned hthread rfl
  | rolledBack =>
    obtain ⟨reports, hfold⟩ := foldl_reportJob s.queue.jobs { s with queue := ⟨[], 0, 0, false⟩ }
    rw [hfold]
    exact h.of_eq rfl rfl rfl
  | slept core since hthread =>
    refine h.move hthread ?_
    intro since hphase
    cases hphase
    rfl
  | left core since hthread hjobs hlong => exact h.left hinterval hthread hlong
  | departed core job id rest hthread => exact h.departed hthread
  | sent core job id todo size rest outcome hthread =>
    cases outcome with
    | sent | sessionClosed | refused => exact h.move hthread (by nofun)
    | panicked => exact absurd rfl hcalm
  | taken _ _ _ _ hthread | clumpDone _ _ _ _ hthread | jobDone _ _ hthread =>
    exact h.move hthread (by nofun)
  | drained => exact h.of_eq rfl rfl rfl

end Pacer

open Pacer

/-- If the interval of a clump is no longer than the idle time after which the thread leaves,
    then in every run in which no send panics no window of time sees more departures than the
    schedule and two clumps of catch-up allow. -/
theorem departures_bounded {cfg : PacerConfig} (hinterval : cfg.interval ≤ idleExit)
    {es : List Event} {s : Pacer} (hrun : Run (restrict Calm (Step cfg)) .new es s) (a W : Nat) :
    grantsWithin s.departures a (a + W) ≤ (W + 2 * cfg.interval) / cfg.interval + 1 := by
  have hpaced : s.Paced cfg.interval ∧ s.Flagged := by
    refine hrun.invariant (P := fun s => s.Paced cfg.interval ∧ s.Flagged) ?_
      ⟨Paced.new cfg.interval, rfl⟩
    rintro s e t ⟨hpaced, hflag⟩ ⟨hcalm, hstep⟩
    obtain ⟨hnow, heffect⟩ := exec_effect hstep
    have hflag' : { s with clock := e.now }.Flagged := hflag
    exact ⟨(hpaced.tick hnow).effect hflag' hinterval hcalm heffect, hflag'.effect heffect⟩
  obtain ⟨⟨level, hmeter, -⟩, -⟩ := hpaced
  have hwithin := hmeter.within a (a + W) (le_add_right a W)
  have hpos := cfg.interval_pos
  rw [← add_div_right _ hpos, le_div_iff_mul_le hpos, mul_comm]
  omega

/-- One target is submitted and sent; then the thread idles and leaves. -/
def oneClump (now : Nat) : List Event :=
  [⟨now, .submit 0 ["a"] [] true⟩, ⟨now, .poll false⟩, ⟨now, .depart⟩, ⟨now, .send .sent⟩,
    ⟨now, .clumpDone⟩, ⟨now, .jobDone⟩, ⟨now, .poll false⟩, ⟨now + idleExit, .poll true⟩]

/-- A target every five seconds at 75000 packets a second: two departures in five seconds. -/
theorem departures_bounded_every_five_seconds :
    ∃ s, Run (restrict Calm (Step (pacerConfig 75000 none none))) .new
        (oneClump 0 ++ oneClump idleExit) s ∧
      s.departures = [0, idleExit] ∧
      grantsWithin s.departures 0 (0 + idleExit) ≤
        (idleExit + 2 * (pacerConfig 75000 none none).interval) /
          (pacerConfig 75000 none none).interval + 1 := by
  refine Run.exists_of_execAll (·.departures = [0, idleExit]) (fun _ _ _ => restrict_of_guarded)
    (by decide +kernel) fun s hrun hdepartures => ⟨hdepartures, ?_⟩
  exact departures_bounded (by decide +kernel) hrun 0 idleExit

/-- At one packet a second a clump is due every 32 seconds, but a respawned thread starts a
    new schedule: with a target every five seconds four clumps depart within 15 seconds,
    where three are allowed. -/
theorem departures_exceed_ceiling :
    ∃ cfg es s, optionConfig (some 1) none none = .ok cfg ∧
      Run (restrict Calm (Step cfg)) .new es s ∧
      (3 * idleExit + 2 * cfg.interval) / cfg.interval + 1 <
        grantsWithin s.departures 0 (0 + 3 * idleExit) := by
  have hexec : (execAll (guarded Calm (exec (pacerConfig 1 none none))) .new
      ((List.range 4).flatMap fun k => oneClump (k * idleExit))).map Pacer.departures =
        some [0, idleExit, 2 * idleExit, 3 * idleExit] := by
    decide +kernel
  obtain ⟨s, hs, hdepartures⟩ := map_eq_some_iff.mp hexec
  have hrun := Run.of_execAll (fun _ _ _ => restrict_of_guarded) hs
  refine ⟨pacerConfig 1 none none, _, s, rfl, hrun, ?_⟩
  rw [hdepartures]
  decide +kernel

end WebTransportBun.Native.EgressPacer
