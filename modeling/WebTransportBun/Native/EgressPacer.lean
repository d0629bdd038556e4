/-
  WebTransportBun.Native.EgressPacer

  The egress pacer (`crates/native/src/egress_pacer.rs`): its configuration, the schedule
  of departure times, the admission of a fan-out, the report ring, and the pacer as a
  machine that JS calls and the pacer thread move together.

  A step is one critical section of the queue lock, one evaluation of `next_txtime` with
  the wait that follows it, or one send.  Times are nanoseconds.  The statistics counters
  and the thread priority are left out, and so is the poisoned lock: no step that holds
  the lock panics.
-/

import WebTransportBun.Library.Run
import WebTransportBun.Library.Text

namespace WebTransportBun.Native.EgressPacer

open Library List

/-! ## Configuration -/

def clumpMax : Nat := 64

def clumpDefault : Nat := 32

def queueMsDefault : Nat := 250

def ppsMax : Nat := 1000000

def queueMsMax : Nat := 5000

def queuedBytesMax : Nat := 64 * 1024 * 1024

def targetOverheadBytes : Nat := 24

def catchupClumps : Nat := 2

def idleExit : Nat := 5000000000

def saturatingMul (a b : Nat) : Nat := min (a * b) (2 ^ 64 - 1)

structure PacerConfig where
  pps : Nat
  clump : Nat
  queueMs : Nat
  deriving DecidableEq, Repr

namespace PacerConfig

section

variable (cfg : PacerConfig)

def maxPending : Nat := max (saturatingMul cfg.pps cfg.queueMs / 1000) cfg.clump

/-- `interval`, in nanoseconds; a division by zero counts as 0. -/
def interval : Nat := max (saturatingMul cfg.clump 1000000000 / cfg.pps) 1

theorem interval_pos : 0 < cfg.interval := Nat.le_max_right ..

end

end PacerConfig

def pacerConfig (pps : Nat) (clump queueMs : Option Nat) : PacerConfig where
  pps
  clump := (clump.map fun v => min (max v 1) clumpMax).getD clumpDefault
  queueMs := max (queueMs.getD queueMsDefault) 1

def optionConfig (pps clump queueMs : Option Nat) : Except String PacerConfig :=
  match pps.filter fun v => 1 ≤ v ∧ v ≤ ppsMax with
  | none => .error s!"egressPacer.pps must be an integer 1..={ppsMax}"
  | some pps =>
    if clump.any fun v => !(1 ≤ v ∧ v ≤ clumpMax) then
      .error s!"egressPacer.clump must be an integer 1..={clumpMax}"
    else if queueMs.any fun v => !(1 ≤ v ∧ v ≤ queueMsMax) then
      .error s!"egressPacer.queueMs must be an integer 1..={queueMsMax}"
    else .ok (pacerConfig pps clump queueMs)

inductive Knob
  | unset
  | value (v : Nat)
  | invalid (message : String)
  deriving DecidableEq, Repr

def parseKnob (name : String) (raw : Option String) (lo hi : Nat) : Knob :=
  match raw.map fun raw => trim raw.toList with
  | none => .unset
  | some [] => .unset
  | some raw =>
    match (parseU64 raw).filter fun v => lo ≤ v ∧ v ≤ hi with
    | some v => .value v
    | none =>
      let shown := String.ofList raw
      .invalid s!"{name} must be an integer {lo}..={hi}, got '{shown}'"

/-- The value of a knob; a malformed one is warned about and counts as unset. -/
def Knob.toOption : Knob → Option Nat
  | .value v => some v
  | _ => none

/-- `config_from_env`, from the three variables. -/
def configFromEnv (pps clump queueMs : Option String) : Option PacerConfig :=
  match parseKnob "WEBTRANSPORT_PACER_PPS" pps 0 ppsMax with
  | .value 0 | .unset | .invalid _ => none
  | .value pps =>
    some (pacerConfig pps
      (parseKnob "WEBTRANSPORT_PACER_CLUMP" clump 1 clumpMax).toOption
      (parseKnob "WEBTRANSPORT_PACER_QUEUE_MS" queueMs 1 queueMsMax).toOption)

/-- A configuration that the option or the environment parser accepts. -/
inductive Accepted : PacerConfig → Prop
  | option {pps clump queueMs : Option Nat} {cfg : PacerConfig}
      (h : optionConfig pps clump queueMs = .ok cfg) : Accepted cfg
  | env {pps clump queueMs : Option String} {cfg : PacerConfig}
      (h : configFromEnv pps clump queueMs = some cfg) : Accepted cfg

theorem clump_pacerConfig_pos (pps : Nat) (clump queueMs : Option Nat) :
    0 < (pacerConfig pps clump queueMs).clump := by
  cases clump with
  | none => exact Nat.zero_lt_succ _
  | some v =>
    exact Nat.lt_min.mpr ⟨le_max_right v 1, Nat.zero_lt_succ _⟩

theorem Accepted.clump_pos {cfg : PacerConfig} (h : Accepted cfg) : 0 < cfg.clump := by
  cases h with
  | option h =>
    unfold optionConfig at h
    split at h
    · cases h
    · split at h
      · cases h
      · split at h
        · cases h
        · cases h
          exact clump_pacerConfig_pos ..
  | env h =>
    unfold configFromEnv at h
    split at h <;> cases h
    exact clump_pacerConfig_pos ..

/-! ## The schedule -/

structure PacerCore where
  interval : Nat
  horizon : Nat
  cursor : Option Nat
  resets : Nat
  deriving DecidableEq, Repr

def PacerCore.new (cfg : PacerConfig) : PacerCore where
  interval := cfg.interval
  horizon := cfg.interval * catchupClumps
  cursor := none
  resets := 0

def PacerCore.nextTxtime (core : PacerCore) (now : Nat) : Nat × PacerCore :=
  match core.cursor with
  | none => (now, { core with cursor := some (now + core.interval) })
  | some cursor =>
    if now ≤ cursor + core.horizon then
      (cursor, { core with cursor := some (cursor + core.interval) })
    else
      (now, { core with cursor := some (now + core.interval), resets := core.resets + 1 })

/-! ## Admission -/

def datagramMirrorMax : Nat := 10000

def splitAtCap (len : Nat) : Nat := min len datagramMirrorMax

def wouldBlock : String := "E_WOULD_BLOCK"

inductive MirrorFailure
  | sessionClosed
  | queueFull
  | wouldBlock
  | tooManyTargets
  deriving DecidableEq, Repr

namespace MirrorFailure

def toU8 : MirrorFailure → Nat
  | sessionClosed => 1
  | queueFull => 2
  | wouldBlock => 3
  | tooManyTargets => 4

def fromCode (code : String) : MirrorFailure :=
  if code = "E_SESSION_CLOSED" then .sessionClosed
  else if code = EgressPacer.wouldBlock then .wouldBlock
  else .queueFull

end MirrorFailure

structure MirrorOutcome where
  sent : Nat := 0
  failed : List Nat := []
  codes : List Nat := []
  deriving DecidableEq, Repr

def MirrorOutcome.record (o : MirrorOutcome) (index : Nat) (failure : MirrorFailure) :
    MirrorOutcome :=
  { o with failed := o.failed ++ [index], codes := o.codes ++ [failure.toU8] }

def fanOut (len : Nat) (sendOne : Nat → Option String) : MirrorOutcome :=
  let take := splitAtCap len
  let attempted := (List.range take).foldl (fun o index =>
    match sendOne index with
    | none => { o with sent := o.sent + 1 }
    | some code => o.record index (.fromCode code)) ({} : MirrorOutcome)
  (List.range' take (len - take)).foldl (fun o index => o.record index .tooManyTargets) attempted

/-- The loop of `admit_by_bytes`: how many of the candidates fit behind the bytes charged so
    far.  The sum saturates in the source only far above every cap. -/
def admitLoop (pendingBytes maxBytes : Nat) : Nat → List String → Nat × Nat
  | charged, [] => (0, charged)
  | charged, target :: rest =>
    let next := charged + target.utf8ByteSize + targetOverheadBytes
    if maxBytes < pendingBytes + next then (0, charged)
    else
      let admitted := admitLoop pendingBytes maxBytes next rest
      (admitted.1 + 1, admitted.2)

/-- `admit_by_bytes`: the count, and the bytes the admitted job charges. -/
def admitByBytes (pendingBytes payloadLen : Nat) (candidates : List String) (maxBytes : Nat) :
    Nat × Nat :=
  if maxBytes < pendingBytes + payloadLen then (0, 0)
  else
    let admitted := admitLoop pendingBytes maxBytes payloadLen candidates
    if admitted.1 = 0 then (0, 0) else admitted

def admitCount (pending wanted maxPending : Nat) : Nat := min wanted (maxPending - pending)

def admitPerIndex (pending wanted maxPending : Nat) : List Bool :=
  (List.range wanted).map fun index => decide (index < admitCount pending wanted maxPending)

/-! ## Reports -/

def mirrorReportsCap : Nat := 4096

structure Report where
  ownerServerId : Nat
  target : String
  code : Nat
  deriving DecidableEq, Repr

/-- The report ring, with the counters that move with it. -/
structure Reports where
  ring : List Report
  dropped : Nat
  deferredFailures : Nat
  deriving DecidableEq, Repr

/-- `record_report`: the oldest entries make room. -/
def Reports.record (r : Reports) (ownerServerId : Nat) (target code : String) : Reports :=
  let excess := r.ring.length + 1 - mirrorReportsCap
  { ring := r.ring.drop excess ++ [⟨ownerServerId, target, (MirrorFailure.fromCode code).toU8⟩]
    dropped := r.dropped + excess
    deferredFailures := r.deferredFailures + 1 }

/-- `drain_reports`: what is left in the ring.  Reports of other servers are stepped over. -/
def drainReports (ownerServerId : Nat) : Nat → List Report → List Report
  | 0, ring => ring
  | _, [] => []
  | max + 1, r :: ring =>
    if r.ownerServerId = ownerServerId then drainReports ownerServerId max ring
    else r :: drainReports ownerServerId (max + 1) ring

/-! ## The queue and the thread -/

structure Job where
  ownerServerId : Nat
  targets : List String
  payload : List UInt8
  bytes : Nat
  deriving DecidableEq, Repr

structure Queue where
  jobs : List Job
  pendingTargets : Nat
  pendingBytes : Nat
  threadRunning : Bool
  deriving DecidableEq, Repr

def Queue.push (q : Queue) (job : Job) : Queue :=
  { q with
    jobs := q.jobs ++ [job]
    pendingTargets := q.pendingTargets + job.targets.length
    pendingBytes := q.pendingBytes + job.bytes }

inductive Phase
  /-- It looks for a job; `since` is when it last went to sleep on the empty queue. -/
  | idle (since : Option Nat)
  /-- Inside `drain_paced`, before the departure of the next clump. -/
  | draining (job : Job) (rest : List String)
  /-- A clump of `size` targets has departed; `todo` are left to send, `rest` stay behind. -/
  | sending (job : Job) (todo : List String) (size : Nat) (rest : List String)
  deriving DecidableEq, Repr

structure Thread where
  core : PacerCore
  phase : Phase
  deriving DecidableEq, Repr

abbrev Target := Nat × String

structure Pacer where
  queue : Queue
  thread : Option Thread
  reports : Reports
  clock : Nat
  /-- When clumps departed. -/
  departures : List Nat
  /-- The targets that `submit` reported as admitted, in order. -/
  admitted : List Target
  /-- The targets passed to the send function or recorded as a deferred report, in order. -/
  handled : List Target
  deriving DecidableEq, Repr

def Pacer.new : Pacer := ⟨⟨[], 0, 0, false⟩, none, ⟨[], 0, 0⟩, 0, [], [], []⟩

def Job.owned (job : Job) : List Target := job.targets.map (Prod.mk job.ownerServerId)

namespace Pacer

def recordReport (s : Pacer) (ownerServerId : Nat) (target code : String) : Pacer :=
  { s with reports := s.reports.record ownerServerId target code }

/-- The targets of a job that no thread will send are reported one by one. -/
def reportJob (s : Pacer) (job : Job) : Pacer :=
  { job.targets.foldl (fun s target => s.recordReport job.ownerServerId target wouldBlock) s with
    handled := s.handled ++ job.owned }

def gather (decisions : List Bool) (targets : List String) : List String :=
  ((decisions.zip targets).filter (·.1)).map (·.2)

/-- `submit`.  `spawned` is whether a pacer thread can be started if one is needed. -/
def submit (cfg : PacerConfig) (s : Pacer) (ownerServerId : Nat) (targets : List String)
    (payload : List UInt8) (spawned : Bool) : MirrorOutcome × Pacer :=
  let inCap := splitAtCap targets.length
  let byCount := admitCount s.queue.pendingTargets inCap cfg.maxPending
  let (room, jobBytes) :=
    admitByBytes s.queue.pendingBytes payload.length (targets.take byCount) queuedBytesMax
  let decisions := admitPerIndex 0 inCap room
  let accepted := gather decisions targets
  let answer (decisions : List Bool) : MirrorOutcome :=
    fanOut targets.length fun index =>
      if decisions.getD index false then none else some wouldBlock
  if accepted.isEmpty then (answer decisions, s)
  else
    let job : Job := ⟨ownerServerId, accepted, payload, jobBytes⟩
    if s.queue.threadRunning then
      (answer decisions, { s with queue := s.queue.push job, admitted := s.admitted ++ job.owned })
    else if spawned then
      (answer decisions, { s with
        queue := { s.queue.push job with threadRunning := true }
        thread := some ⟨.new cfg, .idle none⟩
        admitted := s.admitted ++ job.owned })
    else
      -- the submission is rolled back, and what a dead thread left behind is reported
      (answer (decisions.map fun _ => false),
        s.queue.jobs.foldl reportJob { s with queue := ⟨[], 0, 0, false⟩ })

/-- What becomes of one target in the send function. -/
inductive Outcome
  | sent
  | sessionClosed
  | refused (code : String)
  | panicked
  deriving DecidableEq, Repr

inductive Op
  | submit (ownerServerId : Nat) (targets : List String) (payload : List UInt8) (spawned : Bool)
  | poll (timedOut : Bool)
  | depart
  | send (outcome : Outcome)
  | clumpDone
  | jobDone
  | drain (ownerServerId max : Nat)
  deriving DecidableEq, Repr

/-- The thread looks at the queue: it takes a job, goes (back) to sleep, or leaves. -/
def poll (s : Pacer) (core : PacerCore) (since : Option Nat) (timedOut : Bool) : Option Pacer :=
  match s.queue.jobs with
  | job :: jobs =>
    some { s with queue := { s.queue with jobs }, thread := some ⟨core, .draining job job.targets⟩ }
  | [] =>
    if timedOut then
      if since.any fun t => t + idleExit ≤ s.clock then
        some { s with queue := { s.queue with threadRunning := false }, thread := none }
      else none
    else some { s with thread := some ⟨core, .idle (some s.clock)⟩ }

/-- The next clump gets its departure time, and the thread waits for it. -/
def depart (cfg : PacerConfig) (s : Pacer) (core : PacerCore) (job : Job) (rest : List String) :
    Pacer :=
  let next := core.nextTxtime s.clock
  let clump := rest.take cfg.clump
  let departure := max next.1 s.clock
  { s with
    thread := some ⟨next.2, .sending job clump clump.length (rest.drop cfg.clump)⟩
    clock := departure
    departures := s.departures ++ [departure] }

/-- One target; a panic takes the thread with it, and `ExitGuard` clears the flag. -/
def send (s : Pacer) (core : PacerCore) (job : Job) (id : String) (todo : List String)
    (size : Nat) (rest : List String) (outcome : Outcome) : Pacer :=
  let s := { s with
    thread := some ⟨core, .sending job todo size rest⟩
    handled := s.handled ++ [(job.ownerServerId, id)] }
  match outcome with
  | .sent => s
  | .sessionClosed => s.recordReport job.ownerServerId id "E_SESSION_CLOSED"
  | .refused code => s.recordReport job.ownerServerId id code
  | .panicked => { s with queue := { s.queue with threadRunning := false }, thread := none }

def act (cfg : PacerConfig) (s : Pacer) : Op → Option Pacer
  | .submit ownerServerId targets payload spawned =>
    some (s.submit cfg ownerServerId targets payload spawned).2
  | .poll timedOut =>
    match s.thread with
    | some ⟨core, .idle since⟩ => s.poll core since timedOut
    | _ => none
  | .depart =>
    match s.thread with
    | some ⟨core, .draining job (id :: rest)⟩ => some (s.depart cfg core job (id :: rest))
    | _ => none
  | .send outcome =>
    match s.thread with
    | some ⟨core, .sending job (id :: todo) size rest⟩ =>
      some (s.send core job id todo size rest outcome)
    | _ => none
  | .clumpDone =>
    match s.thread with
    | some ⟨core, .sending job [] size rest⟩ =>
      some { s with
        queue := { s.queue with pendingTargets := s.queue.pendingTargets - size }
        thread := some ⟨core, .draining job rest⟩ }
    | _ => none
  | .jobDone =>
    match s.thread with
    | some ⟨core, .draining job []⟩ =>
      some { s with
        queue := { s.queue with pendingBytes := s.queue.pendingBytes - job.bytes }
        thread := some ⟨core, .idle none⟩ }
    | _ => none
  | .drain ownerServerId max =>
    some { s with reports :=
      { s.reports with ring := drainReports ownerServerId max s.reports.ring } }

structure Event where
  now : Nat
  op : Op
  deriving DecidableEq, Repr

def exec (cfg : PacerConfig) (s : Pacer) (e : Event) : Option Pacer :=
  if e.now < s.clock then none else act cfg { s with clock := e.now } e.op

def Step (cfg : PacerConfig) (s : Pacer) (e : Event) (t : Pacer) : Prop := exec cfg s e = some t

def Calm (_ : Pacer) (e : Event) : Prop := e.op ≠ .send .panicked

instance (s : Pacer) (e : Event) : Decidable (s.Calm e) := inferInstanceAs (Decidable (_ ≠ _))

/-! ## Reporting -/

theorem foldl_recordReport (targets : List String) (o : Nat) (code : String) (s : Pacer)
    (r : Reports) :
    ∃ reports, targets.foldl (fun s target => s.recordReport o target code)
      { s with reports := r } = { s with reports } := by
  induction targets generalizing r with
  | nil => exact ⟨r, rfl⟩
  | cons target targets ih =>
    obtain ⟨reports, hfold⟩ := ih (r.record o target code)
    refine ⟨reports, ?_⟩
    rw [foldl_cons]
    exact hfold

theorem foldl_reportJob (jobs : List Job) (s : Pacer) :
    ∃ reports, jobs.foldl reportJob s =
      { s with reports, handled := s.handled ++ jobs.flatMap Job.owned } := by
  induction jobs generalizing s with
  | nil => exact ⟨s.reports, by simp⟩
  | cons job jobs ih =>
    obtain ⟨reports, hjob⟩ :=
      foldl_recordReport job.targets job.ownerServerId wouldBlock s s.reports
    obtain ⟨reports', hrest⟩ := ih (s.reportJob job)
    refine ⟨reports', ?_⟩
    rw [foldl_cons, hrest]
    simp [reportJob, hjob]

/-! ## What a step does -/

variable {cfg : PacerConfig} {s t : Pacer} {op : Op}

/-- What a step does to the queue and the thread, with what it found. -/
inductive Effect (cfg : PacerConfig) (s : Pacer) : Op → Pacer → Prop
  /-- Nothing of the submission is admitted. -/
  | refused {o : Nat} {targets : List String} {payload : List UInt8} {spawned : Bool} :
      Effect cfg s (.submit o targets payload spawned) s
  | queued {o : Nat} {targets : List String} {payload : List UInt8} {spawned : Bool} (job : Job)
      (hjob : job.targets ≠ []) (hrunning : s.queue.threadRunning = true) :
      Effect cfg s (.submit o targets payload spawned)
        { s with queue := s.queue.push job, admitted := s.admitted ++ job.owned }
  | spawned {o : Nat} {targets : List String} {payload : List UInt8} (job : Job)
      (hjob : job.targets ≠ []) (hrunning : s.queue.threadRunning = false) :
      Effect cfg s (.submit o targets payload true)
        { s with
          queue := { s.queue.push job with threadRunning := true }
          thread := some ⟨.new cfg, .idle none⟩
          admitted := s.admitted ++ job.owned }
  | rolledBack {o : Nat} {targets : List String} {payload : List UInt8}
      (hrunning : s.queue.threadRunning = false) :
      Effect cfg s (.submit o targets payload false)
        (s.queue.jobs.foldl reportJob { s with queue := ⟨[], 0, 0, false⟩ })
  | taken {timedOut : Bool} (core : PacerCore) (since : Option Nat) (job : Job) (jobs : List Job)
      (hthread : s.thread = some ⟨core, .idle since⟩) (hjobs : s.queue.jobs = job :: jobs) :
      Effect cfg s (.poll timedOut)
        { s with
          queue := { s.queue with jobs }
          thread := some ⟨core, .draining job job.targets⟩ }
  | slept (core : PacerCore) (since : Option Nat) (hthread : s.thread = some ⟨core, .idle since⟩)
      (hjobs : s.queue.jobs = []) :
      Effect cfg s (.poll false) { s with thread := some ⟨core, .idle (some s.clock)⟩ }
  | left (core : PacerCore) (since : Nat) (hthread : s.thread = some ⟨core, .idle (some since)⟩)
      (hjobs : s.queue.jobs = []) (hlong : since + idleExit ≤ s.clock) :
      Effect cfg s (.poll true)
        { s with queue := { s.queue with threadRunning := false }, thread := none }
  | departed (core : PacerCore) (job : Job) (id : String) (rest : List String)
      (hthread : s.thread = some ⟨core, .draining job (id :: rest)⟩) :
      Effect cfg s .depart (s.depart cfg core job (id :: rest))
  | sent (core : PacerCore) (job : Job) (id : String) (todo : List String) (size : Nat)
      (rest : List String) (outcome : Outcome)
      (hthread : s.thread = some ⟨core, .sending job (id :: todo) size rest⟩) :
      Effect cfg s (.send outcome) (s.send core job id todo size rest outcome)
  | clumpDone (core : PacerCore) (job : Job) (size : Nat) (rest : List String)
      (hthread : s.thread = some ⟨core, .sending job [] size rest⟩) :
      Effect cfg s .clumpDone
        { s with
          queue := { s.queue with pendingTargets := s.queue.pendingTargets - size }
          thread := some ⟨core, .draining job rest⟩ }
  | jobDone (core : PacerCore) (job : Job) (hthread : s.thread = some ⟨core, .draining job []⟩) :
      Effect cfg s .jobDone
        { s with
          queue := { s.queue with pendingBytes := s.queue.pendingBytes - job.bytes }
          thread := some ⟨core, .idle none⟩ }
  | drained {o max : Nat} (reports : Reports) : Effect cfg s (.drain o max) { s with reports }

attribute [local grind] Effect

theorem submit_effect (o : Nat) (targets : List String) (payload : List UInt8) (spawned : Bool) :
    Effect cfg s (.submit o targets payload spawned)
      (s.submit cfg o targets payload spawned).2 := by
  grind [submit]

theorem poll_effect {core : PacerCore} {since : Option Nat} {timedOut : Bool}
    (hthread : s.thread = some ⟨core, .idle since⟩) (h : s.poll core since timedOut = some t) :
    Effect cfg s (.poll timedOut) t := by
  unfold poll at h
  split at h
  · next job jobs hjobs =>
    cases h
    exact .taken core since job jobs hthread hjobs
  · next hjobs =>
    split at h
    · next htimed =>
      subst htimed
      split at h
      · next hany =>
        cases h
        cases since with
        | none => cases hany
        | some t =>
          rw [Option.any_some, decide_eq_true_iff] at hany
          exact .left core t hthread hjobs hany
      · cases h
    · next htimed =>
      obtain rfl := Bool.eq_false_iff.mpr htimed
      cases h
      exact .slept core since hthread hjobs

theorem act_effect (h : act cfg s op = some t) : Effect cfg s op t := by
  cases op <;> grind [act, submit_effect, poll_effect]

theorem exec_effect {e : Event} (h : exec cfg s e = some t) :
    s.clock ≤ e.now ∧ Effect cfg { s with clock := e.now } e.op t := by
  unfold exec at h
  split at h
  · cases h
  · next hnow => exact ⟨not_lt.mp hnow, act_effect h⟩

/-! ## The flag -/

/-- The flag says whether there is a thread. -/
def Flagged (s : Pacer) : Prop := s.queue.threadRunning = s.thread.isSome

theorem Flagged.running {thread : Thread} (h : s.Flagged) (hthread : s.thread = some thread) :
    s.queue.threadRunning = true := by
  rw [h, hthread]
  rfl

theorem Flagged.effect (h : s.Flagged) (heffect : Effect cfg s op t) : t.Flagged := by
  cases heffect with
  | refused | queued | drained => exact h
  | spawned job hjob hrunning => rfl
  | rolledBack hrunning =>
    obtain ⟨reports, hfold⟩ := foldl_reportJob s.queue.jobs { s with queue := ⟨[], 0, 0, false⟩ }
    rw [hfold]
    exact hrunning.symm.trans h
  | taken core since job jobs hthread hjobs => exact h.running hthread
  | slept core since hthread hjobs => exact h.running hthread
  | left => rfl
  | departed core job id rest hthread => exact h.running hthread
  | sent core job id todo size rest outcome hthread =>
    cases outcome with
    | sent | sessionClosed | refused => exact h.running hthread
    | panicked => rfl
  | clumpDone core job size rest hthread => exact h.running hthread
  | jobDone core job hthread => exact h.running hthread

end Pacer

end WebTransportBun.Native.EgressPacer
