/-
  WebTransportBun.Native.PacerAccounting

  What the pacer's two counters stand for, and what becomes of admitted targets.  As long
  as no send panics, the counters are exact, the targets leave in the order in which they
  were admitted, and a pacer thread that keeps running gets to each of them.
-/

import Mathlib.Data.List.Infix
import WebTransportBun.Library.Fair
import WebTransportBun.Native.EgressPacer

namespace WebTransportBun.Native.EgressPacer

open Library List Option Function Nat Queue

/-- The targets of the current job that still count as pending. -/
def Phase.openTargets : Phase → Nat
  | .idle _ => 0
  | .draining _ rest => rest.length
  | .sending _ _ size rest => size + rest.length

def Phase.openBytes : Phase → Nat
  | .idle _ => 0
  | .draining job _ => job.bytes
  | .sending job _ _ _ => job.bytes

/-- The targets of the current job that were not sent yet. -/
def Phase.unsent : Phase → List Target
  | .idle _ => []
  | .draining job rest => rest.map (Prod.mk job.ownerServerId)
  | .sending job todo _ rest => (todo ++ rest).map (Prod.mk job.ownerServerId)

/-- How many steps of the thread lie before its next send. -/
def Phase.distance : Phase → Nat
  | .sending _ (_ :: _) _ _ => 1
  | .draining _ (_ :: _) => 2
  | .idle _ => 3
  | .sending _ [] _ (_ :: _) => 3
  | .draining _ [] => 4
  | .sending _ [] _ [] => 5

theorem Phase.distance_le (phase : Phase) : phase.distance ≤ 5 := by
  unfold Phase.distance
  split <;> decide

namespace Queue

def targetCount (q : Queue) : Nat := (q.jobs.map (·.targets.length)).sum

def byteCount (q : Queue) : Nat := (q.jobs.map (·.bytes)).sum

end Queue

namespace Pacer

variable {cfg : PacerConfig} {s t : Pacer} {op : Op}

section

variable (s : Pacer)

def openTargets : Nat := s.thread.elim 0 (·.phase.openTargets)

def openBytes : Nat := s.thread.elim 0 (·.phase.openBytes)

def unsent : List Target := s.thread.elim [] (·.phase.unsent)

def Executing : Prop :=
  ∃ core phase, s.thread = some ⟨core, phase⟩ ∧ ∀ since, phase ≠ .idle since

end

structure Exact (s : Pacer) : Prop where
  flagged : s.Flagged
  /-- Only an empty queue is left without a thread. -/
  resting : s.thread = none → s.queue.jobs = []
  nonempty : ∀ job ∈ s.queue.jobs, job.targets ≠ []
  targets : s.queue.pendingTargets = s.queue.targetCount + s.openTargets
  bytes : s.queue.pendingBytes = s.queue.byteCount + s.openBytes
  /-- First in, first out. -/
  order : s.admitted = s.handled ++ s.unsent ++ s.queue.jobs.flatMap Job.owned

theorem Exact.new : Pacer.new.Exact :=
  ⟨rfl, fun _ => rfl, fun _ hjob => absurd hjob not_mem_nil, rfl, rfl, rfl⟩

theorem Exact.tick (h : s.Exact) (now : Nat) : { s with clock := now }.Exact :=
  { h with }

theorem Exact.thread_none (h : s.Exact) (hrunning : s.queue.threadRunning = false) :
    s.thread = none := by
  rw [← not_isSome_iff_eq_none, ← h.flagged, hrunning]
  decide

/-- A job joins the queue; the thread, if it is new, has nothing open. -/
theorem Exact.push (h : s.Exact) (job : Job) (hjob : job.targets ≠ []) {q : Queue}
    {thread : Option Thread} (hq : q.jobs = s.queue.jobs ++ [job])
    (hqt : q.pendingTargets = s.queue.pendingTargets + job.targets.length)
    (hqb : q.pendingBytes = s.queue.pendingBytes + job.bytes)
    (hrunning : q.threadRunning = thread.isSome) (hthread : thread ≠ none)
    (hopen : thread.elim 0 (·.phase.openTargets) = s.openTargets)
    (hbytes : thread.elim 0 (·.phase.openBytes) = s.openBytes)
    (hunsent : thread.elim [] (·.phase.unsent) = s.unsent) :
    { s with queue := q, thread, admitted := s.admitted ++ job.owned }.Exact where
  flagged := hrunning
  resting hnone := absurd hnone hthread
  nonempty := by
    intro j hj
    rw [hq, mem_append] at hj
    rcases hj with hj | hj
    · exact h.nonempty j hj
    · rw [mem_singleton.mp hj]
      exact hjob
  targets := by
    show q.pendingTargets = q.targetCount + thread.elim 0 (·.phase.openTargets)
    rw [hqt, h.targets]
    simp only [targetCount, hq, map_append, map_singleton, List.sum_append,
      sum_singleton]
    omega
  bytes := by
    show q.pendingBytes = q.byteCount + thread.elim 0 (·.phase.openBytes)
    rw [hqb, h.bytes]
    simp only [byteCount, hq, map_append, map_singleton, List.sum_append,
      sum_singleton]
    omega
  order := by
    show s.admitted ++ job.owned =
      s.handled ++ thread.elim [] (·.phase.unsent) ++ q.jobs.flatMap Job.owned
    rw [hunsent, hq, flatMap_append, flatMap_singleton, ← append_assoc, h.order]

variable {core : PacerCore} {phase : Phase}

section

variable (h : s.Exact)

include h

/-- The thread moves inside a job. -/
theorem Exact.move {core' : PacerCore} {phase' : Phase} {q : Queue}
    {handled : List Target} {r : Reports} {clock : Nat} {departures : List Nat}
    (hthread : s.thread = some ⟨core, phase⟩) (hjobs : q.jobs = s.queue.jobs)
    (hrunning : q.threadRunning = s.queue.threadRunning)
    (htargets : q.pendingTargets = s.queue.targetCount + phase'.openTargets)
    (hbytes : q.pendingBytes = s.queue.byteCount + phase'.openBytes)
    (horder : handled ++ phase'.unsent = s.handled ++ phase.unsent) :
    { s with
      queue := q, thread := some ⟨core', phase'⟩, handled, reports := r, clock,
      departures }.Exact where
  flagged := by
    have hflag := h.flagged
    unfold Flagged at hflag
    rw [hthread] at hflag
    exact hrunning.trans hflag
  resting hnone := by cases hnone
  nonempty job hjob := h.nonempty job (hjobs ▸ hjob)
  targets := by
    show q.pendingTargets = q.targetCount + phase'.openTargets
    rw [htargets, targetCount, targetCount, hjobs]
  bytes := by
    show q.pendingBytes = q.byteCount + phase'.openBytes
    rw [hbytes, byteCount, byteCount, hjobs]
  order := by
    have hold := h.order
    rw [unsent, hthread] at hold
    show s.admitted = handled ++ phase'.unsent ++ q.jobs.flatMap Job.owned
    rw [horder, hjobs]
    exact hold

theorem Exact.counts (hthread : s.thread = some ⟨core, phase⟩) :
    s.queue.pendingTargets = s.queue.targetCount + phase.openTargets ∧
      s.queue.pendingBytes = s.queue.byteCount + phase.openBytes := by
  have htargets := h.targets
  have hbytes := h.bytes
  rw [openTargets, hthread] at htargets
  rw [openBytes, hthread] at hbytes
  exact ⟨htargets, hbytes⟩

theorem Exact.sent {job : Job} {id : String}
    {todo rest : List String} {size : Nat} {outcome : Outcome} (hcalm : outcome ≠ .panicked)
    (hthread : s.thread = some ⟨core, .sending job (id :: todo) size rest⟩) :
    (s.send core job id todo size rest outcome).Exact := by
  obtain ⟨htargets, hbytes⟩ := h.counts hthread
  have hmove : ∀ r, { s with
      thread := some ⟨core, .sending job todo size rest⟩,
      handled := s.handled ++ [(job.ownerServerId, id)], reports := r }.Exact := fun r =>
    h.move hthread rfl rfl htargets hbytes (by simp [Phase.unsent])
  cases outcome with
  | sent => exact hmove s.reports
  | sessionClosed => exact hmove _
  | refused code => exact hmove _
  | panicked => exact absurd rfl hcalm

theorem Exact.effect (hcalm : op ≠ .send .panicked)
    (heffect : Effect cfg s op t) : t.Exact := by
  cases heffect with
  | refused => exact h
  | queued job hjob hrunning =>
    have hsome : s.thread ≠ none := by
      rw [← isSome_iff_ne_none, ← h.flagged]
      exact hrunning
    exact h.push job hjob rfl rfl rfl h.flagged hsome rfl rfl rfl
  | spawned job hjob hrunning =>
    have hnone := h.thread_none hrunning
    refine h.push job hjob rfl rfl rfl rfl (by simp) ?_ ?_ ?_
    · rw [openTargets, hnone]
      rfl
    · rw [openBytes, hnone]
      rfl
    · rw [unsent, hnone]
      rfl
  | rolledBack hrunning =>
    -- without a thread nothing was left in the queue
    have hnone := h.thread_none hrunning
    have horder := h.order
    rw [unsent, h.resting hnone] at horder
    rw [h.resting hnone]
    refine ⟨?_, fun _ => rfl, fun _ hjob => absurd hjob not_mem_nil, ?_, ?_, ?_⟩
    · show false = s.thread.isSome
      rw [hnone]
      rfl
    · show 0 = 0 + s.openTargets
      rw [openTargets, hnone]
      rfl
    · show 0 = 0 + s.openBytes
      rw [openBytes, hnone]
      rfl
    · grind [unsent]
  | taken core since job jobs hthread hjobs =>
    obtain ⟨htargets, hbytes⟩ := h.counts hthread
    have horder := h.order
    have hflag := h.flagged
    unfold Flagged at hflag
    rw [hthread] at hflag
    rw [unsent, hthread, hjobs] at horder
    rw [targetCount, hjobs, map_cons, sum_cons] at htargets
    rw [byteCount, hjobs, map_cons, sum_cons] at hbytes
    simp only [Phase.openTargets, Phase.openBytes] at htargets hbytes
    refine ⟨hflag, (nofun), ?_, ?_, ?_, ?_⟩
    · intro j hj
      exact h.nonempty j (hjobs ▸ mem_cons_of_mem job hj)
    · show s.queue.pendingTargets = (jobs.map _).sum + job.targets.length
      omega
    · show s.queue.pendingBytes = (jobs.map _).sum + job.bytes
      omega
    · show s.admitted = s.handled ++ job.owned ++ jobs.flatMap Job.owned
      rw [horder]
      simp [Phase.unsent]
  | slept core since hthread hjobs =>
    obtain ⟨htargets, hbytes⟩ := h.counts hthread
    exact h.move hthread rfl rfl htargets hbytes rfl
  | left core since hthread hjobs hlong =>
    obtain ⟨htargets, hbytes⟩ := h.counts hthread
    have horder := h.order
    rw [unsent, hthread] at horder
    exact ⟨rfl, fun _ => hjobs, h.nonempty, htargets, hbytes, horder⟩
  | departed core job id rest hthread =>
    obtain ⟨htargets, hbytes⟩ := h.counts hthread
    refine h.move hthread rfl rfl ?_ hbytes ?_
    · grind [Phase.openTargets]
    · simp only [Phase.unsent]
      rw [take_append_drop]
  | sent core job id todo size rest outcome hthread =>
    exact h.sent (fun hpanic => hcalm (hpanic ▸ rfl)) hthread
  | clumpDone core job size rest hthread =>
    obtain ⟨htargets, hbytes⟩ := h.counts hthread
    refine h.move hthread rfl rfl ?_ hbytes rfl
    show s.queue.pendingTargets - size = s.queue.targetCount + rest.length
    simp only [Phase.openTargets] at htargets
    omega
  | jobDone core job hthread =>
    obtain ⟨htargets, hbytes⟩ := h.counts hthread
    refine h.move hthread rfl rfl htargets ?_ rfl
    show s.queue.pendingBytes - job.bytes = s.queue.byteCount + 0
    simp only [Phase.openBytes] at hbytes
    omega
  | drained reports => exact { h with }

theorem Exact.step {e : Event} (hstep : restrict Calm (Step cfg) s e t) : t.Exact := by
  obtain ⟨hcalm, hstep⟩ := hstep
  obtain ⟨-, heffect⟩ := exec_effect hstep
  exact (h.tick e.now).effect hcalm heffect

end

/-! ## Progress -/

def ThreadStep (e : Event) : Prop :=
  match e.op with
  | .poll _ | .depart | .send _ | .clumpDone | .jobDone => True
  | .submit .. | .drain .. => False

theorem Exact.waiting (h : s.Exact) (hbehind : s.handled.length < s.admitted.length) :
    s.unsent ≠ [] ∨ s.queue.jobs ≠ [] := by
  by_contra hnone
  rw [not_or, not_not, not_not] at hnone
  have horder := h.order
  rw [hnone.1, hnone.2] at horder
  simp only [append_nil, flatMap_nil] at horder
  rw [horder] at hbehind
  exact lt_irrefl _ hbehind

theorem Exact.thread_some (h : s.Exact) (hbehind : s.handled.length < s.admitted.length) :
    ∃ core phase, s.thread = some ⟨core, phase⟩ ∧
      ∀ since, phase = .idle since → s.queue.jobs ≠ [] := by
  have hwaiting := h.waiting hbehind
  cases hthread : s.thread with
  | none =>
    have hjobs := h.resting hthread
    rw [unsent, hthread] at hwaiting
    exact absurd hjobs (hwaiting.resolve_left fun hne => hne rfl)
  | some th =>
    refine ⟨th.core, th.phase, rfl, fun since hidle => ?_⟩
    rw [unsent, hthread] at hwaiting
    refine hwaiting.resolve_left fun hne => hne ?_
    show th.phase.unsent = []
    rw [hidle]
    rfl

theorem exec_now (cfg : PacerConfig) (s : Pacer) (op : Op) :
    exec cfg s ⟨s.clock, op⟩ = act cfg s op :=
  if_neg (lt_irrefl _)

/-- The thread can always take a step. -/
theorem Exact.enabled (h : s.Exact) (hbehind : s.handled.length < s.admitted.length) :
    Enabled (restrict Calm (Step cfg)) ThreadStep s := by
  obtain ⟨core, phase, hthread, hidle⟩ := h.thread_some hbehind
  -- a step at the present time is enough
  have hdo : ∀ op : Op, ThreadStep ⟨s.clock, op⟩ → op ≠ .send .panicked →
      (act cfg s op).isSome → Enabled (restrict Calm (Step cfg)) ThreadStep s := by
    intro op hthreadStep hcalm hact
    obtain ⟨t, hact⟩ := isSome_iff_exists.mp hact
    exact ⟨⟨s.clock, op⟩, t, hthreadStep, hcalm, (exec_now cfg s op).trans hact⟩
  cases phase with
  | idle since =>
    cases hjobs : s.queue.jobs with
    | nil => exact absurd hjobs (hidle since rfl)
    | cons job jobs =>
      exact hdo (.poll false) trivial (by decide)
        (by simp only [act, hthread, poll, hjobs, isSome_some])
  | draining job rest =>
    cases rest with
    | nil => exact hdo .jobDone trivial (by decide) (by simp only [act, hthread, isSome_some])
    | cons id rest =>
      exact hdo .depart trivial (by decide) (by simp only [act, hthread, isSome_some])
  | sending job todo size rest =>
    cases todo with
    | nil => exact hdo .clumpDone trivial (by decide) (by simp only [act, hthread, isSome_some])
    | cons id todo =>
      exact hdo (.send .sent) trivial (by decide) (by simp only [act, hthread, isSome_some])

/-- How far the thread is from having handled `N` targets. -/
def rank (N : Nat) (s : Pacer) : Nat :=
  6 * (N - s.handled.length) + s.thread.elim 0 (·.phase.distance)

theorem rank_of_thread {N : Nat} (hthread : s.thread = some ⟨core, phase⟩) :
    s.rank N = 6 * (N - s.handled.length) + phase.distance := by
  rw [rank, hthread]
  rfl

/-- Nothing is taken back. -/
theorem Effect.admitted_mono (heffect : Effect cfg s op t) : s.admitted <+: t.admitted := by
  cases heffect with
  | queued | spawned => exact prefix_append ..
  | rolledBack =>
    obtain ⟨reports, hfold⟩ := foldl_reportJob s.queue.jobs { s with queue := ⟨[], 0, 0, false⟩ }
    rw [hfold]
  | sent core job id todo size rest outcome => cases outcome <;> exact prefix_rfl
  | _ => exact prefix_rfl

/-- While fewer than `N` of the admitted targets are handled, no step moves away from the
    goal, and the thread's steps move towards it. -/
theorem Exact.rank_effect {N : Nat} {e : Event} (h : s.Exact) (hclump : 0 < cfg.clump)
    (hN : N ≤ s.admitted.length) (hbehind : s.handled.length < N)
    (hcalm : e.op ≠ .send .panicked) (heffect : Effect cfg s e.op t) :
    t.rank N ≤ s.rank N ∧ (ThreadStep e → t.rank N < s.rank N) := by
  have hbehind' : s.handled.length < s.admitted.length := lt_of_lt_of_le hbehind hN
  obtain ⟨core, phase, hthread, hidle⟩ := h.thread_some hbehind'
  have hrunning : s.queue.threadRunning ≠ false := by
    rw [h.flagged, hthread]
    exact nofun
  -- a step of the thread that sends nothing has to come closer to the next send
  have hcloser : ∀ {q : Queue} {core' : PacerCore} {phase' : Phase} {clock : Nat}
      {departures : List Nat}, phase'.distance < phase.distance →
      { s with queue := q, thread := some ⟨core', phase'⟩, clock, departures }.rank N ≤ s.rank N ∧
        (ThreadStep e →
          { s with queue := q, thread := some ⟨core', phase'⟩, clock, departures }.rank N <
            s.rank N) := by
    intro q core' phase' clock departures hlt
    rw [rank_of_thread hthread]
    refine ⟨?_, fun _ => ?_⟩
    · exact Nat.add_le_add_left (le_of_lt hlt) _
    · exact Nat.add_lt_add_left hlt _
  unfold ThreadStep at hcloser ⊢
  generalize e.op = op at *
  cases heffect with
  | refused | queued | drained => exact ⟨le_rfl, fun hfalse => hfalse.elim⟩
  | spawned _ _ hnot => exact absurd hnot hrunning
  | rolledBack hnot => exact absurd hnot hrunning
  | taken core' since job jobs hthread' hjobs =>
    cases hthread.symm.trans hthread'
    have hjob : job.targets ≠ [] := h.nonempty job (hjobs ▸ mem_cons_self)
    refine hcloser ?_
    cases htargets : job.targets with
    | nil => exact absurd htargets hjob
    | cons id rest => exact lt_succ_self 2
  | slept core' since hthread' hjobs =>
    cases hthread.symm.trans hthread'
    exact absurd hjobs (hidle since rfl)
  | left core' since hthread' hjobs _ =>
    cases hthread.symm.trans hthread'
    exact absurd hjobs (hidle _ rfl)
  | departed core' job id rest hthread' =>
    cases hthread.symm.trans hthread'
    refine hcloser ?_
    cases hsize : cfg.clump with
    | zero =>
      rw [hsize] at hclump
      cases hclump
    | succ n => exact lt_succ_self 1
  | sent core' job id todo size rest outcome hthread' =>
    cases hthread.symm.trans hthread'
    -- one more target is handled, which is worth more than any distance
    have hsent : ∀ {r : Reports}, ({ s with
        thread := some ⟨core, .sending job todo size rest⟩
        handled := s.handled ++ [(job.ownerServerId, id)]
        reports := r } : Pacer).rank N < s.rank N := by
      intro r
      rw [rank_of_thread hthread, rank_of_thread rfl]
      have hdistance := (Phase.sending job todo size rest).distance_le
      rw [length_append, length_singleton]
      omega
    cases outcome with
    | sent | sessionClosed | refused => exact ⟨le_of_lt hsent, fun _ => hsent⟩
    | panicked => exact absurd rfl hcalm
  | clumpDone core' job size rest hthread' =>
    cases hthread.symm.trans hthread'
    refine hcloser ?_
    cases rest with
    | nil => exact lt_succ_self 4
    | cons id rest => exact lt_succ_self 2
  | jobDone core' job hthread' =>
    cases hthread.symm.trans hthread'
    exact hcloser (lt_succ_self 3)

/-- A fair thread catches up with what was admitted. -/
theorem handles_eventually (hclump : 0 < cfg.clump) {σ : Trace (restrict Calm (Step cfg))}
    (hfair : σ.Fair ThreadStep) (n : Nat) (hexact : (σ.state n).Exact) :
    ∃ m ≥ n, (σ.state m).Exact ∧ (σ.state n).admitted.length ≤ (σ.state m).handled.length ∧
      (σ.state n).admitted <+: (σ.state m).admitted := by
  generalize hgoal : (σ.state n).admitted = goal
  by_cases hdone : goal.length ≤ (σ.state n).handled.length
  · exact ⟨n, le_refl n, hexact, hdone, hgoal ▸ prefix_rfl⟩
  · refine σ.eventually hfair
      (P := fun s => s.Exact ∧ goal <+: s.admitted ∧ s.handled.length < goal.length)
      (Q := fun s => s.Exact ∧ goal.length ≤ s.handled.length ∧ goal <+: s.admitted)
      (rank goal.length) ?_ ?_ ⟨hexact, hgoal ▸ prefix_rfl, not_le.mp hdone⟩
    · rintro s e t ⟨hexact, hpast, hbehind⟩ hstep
      have hexact' := hexact.step hstep
      obtain ⟨hcalm, hstep⟩ := hstep
      obtain ⟨-, heffect⟩ := exec_effect hstep
      have hpast' : goal <+: t.admitted := hpast.trans heffect.admitted_mono
      by_cases hdone : goal.length ≤ t.handled.length
      · exact .inl ⟨hexact', hdone, hpast'⟩
      · have hrank := (hexact.tick e.now).rank_effect hclump hpast.length_le hbehind hcalm heffect
        exact .inr ⟨⟨hexact', hpast', not_le.mp hdone⟩, hrank⟩
    · rintro s ⟨hexact, hpast, hbehind⟩
      exact hexact.enabled (lt_of_lt_of_le hbehind hpast.length_le)

/-! ## What a submission reports -/

theorem splitAtCap_le (len : Nat) : splitAtCap len ≤ len := min_le_left ..

theorem admitPerIndex_zero {k n : Nat} (hk : k ≤ n) :
    admitPerIndex 0 n k = (range n).map fun i => decide (i < k) := by
  unfold admitPerIndex admitCount
  rw [Nat.sub_zero, min_eq_right hk]

theorem gather_lt (k n : Nat) (targets : List String) (hn : n ≤ targets.length) :
    gather ((range n).map fun i => decide (i < k)) targets = targets.take (min k n) := by
  induction n generalizing k targets with
  | zero => simp [gather]
  | succ n ih =>
    cases targets with
    | nil => cases hn
    | cons target targets =>
      have hrest := fun k => ih k targets (le_of_succ_le_succ hn)
      rw [List.range_succ_eq_map, List.map_cons]
      cases k with
      | zero =>
        have hnone := hrest 0
        refine Eq.trans ?_ hnone
        simp [gather]
      | succ k =>
        rw [Nat.add_min_add_right, take_succ_cons, ← hrest k]
        simp [gather, comp_def]

theorem sent_foldl {f : MirrorOutcome → Nat → MirrorOutcome} {p : Nat → Bool}
    (hf : ∀ o index, (f o index).sent = o.sent + (if p index then 1 else 0))
    (indices : List Nat) (o : MirrorOutcome) :
    (indices.foldl f o).sent = o.sent + indices.countP p := by
  induction indices generalizing o with
  | nil => rfl
  | cons index indices ih =>
    rw [foldl_cons, ih, hf, countP_cons]
    omega

theorem sent_fanOut (len : Nat) (sendOne : Nat → Option String) :
    (fanOut len sendOne).sent = (range (splitAtCap len)).countP fun i => (sendOne i).isNone := by
  -- the indices past the cap are recorded as failures, those before it are tried
  refine (sent_foldl (f := fun o index => o.record index .tooManyTargets) (p := fun _ => false)
    (fun _ _ => rfl) _ _).trans ?_
  rw [countP_false, const_apply]
  refine (sent_foldl (fun o index => ?_) _ _).trans
    (zero_add _)
  cases sendOne index <;> rfl

theorem admitLoop_le (pendingBytes maxBytes charged : Nat) (candidates : List String) :
    (admitLoop pendingBytes maxBytes charged candidates).1 ≤ candidates.length := by
  induction candidates generalizing charged with
  | nil => exact le_rfl
  | cons target rest ih =>
    unfold admitLoop
    dsimp only
    split
    · exact zero_le _
    · exact succ_le_succ (ih _)

theorem admitByBytes_le (pendingBytes payloadLen : Nat) (candidates : List String)
    (maxBytes : Nat) :
    (admitByBytes pendingBytes payloadLen candidates maxBytes).1 ≤ candidates.length := by
  unfold admitByBytes
  dsimp only
  split
  · exact zero_le _
  · split
    · exact zero_le _
    · exact admitLoop_le ..

theorem sent_answer (k len : Nat) (hk : k ≤ splitAtCap len) :
    (fanOut len fun index =>
      if ((range (splitAtCap len)).map fun i => decide (i < k)).getD index false then none
      else some wouldBlock).sent = k := by
  rw [sent_fanOut]
  have hcount : (range (splitAtCap len)).countP (fun i => decide (i < k)) = k := by
    obtain ⟨m, hm⟩ := Nat.exists_eq_add_of_le hk
    rw [hm, range_add, countP_append, countP_eq_length.mpr, countP_eq_zero.mpr]
    · simp
    · grind
    · intro i hi
      exact decide_eq_true (mem_range.mp hi)
  rw [← hcount]
  refine countP_congr fun i hi => ?_
  have hi := mem_range.mp hi
  rw [hcount]
  simp [hi]

/-- What `submit` reports as sent is what the machine counts as admitted: the first targets of
    the call. -/
theorem admitted_submit (cfg : PacerConfig) (s : Pacer) (o : Nat) (targets : List String)
    (payload : List UInt8) (spawned : Bool) : (s.submit cfg o targets payload spawned).2.admitted =
      s.admitted ++
        (targets.take (s.submit cfg o targets payload spawned).1.sent).map (Prod.mk o) := by
  unfold submit
  dsimp only
  generalize hroom : (admitByBytes _ _ (targets.take _) queuedBytesMax).1 = room
  have hle : room ≤ splitAtCap targets.length := by
    rw [← hroom]
    refine le_trans (admitByBytes_le ..) ?_
    rw [length_take]
    exact le_trans (min_le_left ..) (min_le_left ..)
  rw [admitPerIndex_zero hle, gather_lt _ _ _ (splitAtCap_le _), min_eq_left hle]
  split
  · next hempty =>
    rw [sent_answer _ _ hle, isEmpty_iff.mp hempty, map_nil, append_nil]
  · split
    · dsimp only
      rw [sent_answer _ _ hle]
      rfl
    · split
      · dsimp only
        rw [sent_answer _ _ hle]
        rfl
      · -- the answer of a rolled back submission counts nothing
        obtain ⟨reports, hfold⟩ :=
          foldl_reportJob s.queue.jobs { s with queue := ⟨[], 0, 0, false⟩ }
        have hnone : ((range (splitAtCap targets.length)).map fun i => decide (i < room)).map
            (fun _ => false) =
              (range (splitAtCap targets.length)).map fun i => decide (i < 0) := by
          simp
        rw [hnone, sent_answer 0 _ (zero_le _), hfold, take_zero, map_nil,
          append_nil]

/-- A submission to a full queue changes nothing. -/
theorem submit_full {cfg : PacerConfig} {s : Pacer}
    (hfull : cfg.maxPending ≤ s.queue.pendingTargets) (o : Nat) (targets : List String)
    (payload : List UInt8) (spawned : Bool) : (s.submit cfg o targets payload spawned).2 = s := by
  have hcount :
      admitCount s.queue.pendingTargets (splitAtCap targets.length) cfg.maxPending = 0 := by
    unfold admitCount
    rw [Nat.sub_eq_zero_of_le hfull, Nat.min_zero]
  have hroom : (admitByBytes s.queue.pendingBytes payload.length [] queuedBytesMax).1 = 0 :=
    le_zero.mp (admitByBytes_le ..)
  have hnone : gather (admitPerIndex 0 (splitAtCap targets.length) 0) targets = [] := by
    rw [admitPerIndex_zero (Nat.zero_le _), gather_lt _ _ _ (splitAtCap_le _), Nat.zero_min,
      take_zero]
  unfold submit
  dsimp only
  rw [hcount, take_zero, hroom, hnone]
  rfl

end Pacer

open Pacer

/-- If no send panics, the counters are exact whenever no job is being executed, and each
    target reported as admitted is handled by a thread that keeps running. -/
theorem accounting_exact {cfg : PacerConfig} (hcfg : Accepted cfg) :
    (∀ es s, Run (restrict Calm (Step cfg)) .new es s → ¬ s.Executing →
      s.queue.pendingTargets = s.queue.targetCount ∧
        s.queue.pendingBytes = s.queue.byteCount) ∧
    (∀ s o targets payload spawned, (submit cfg s o targets payload spawned).2.admitted =
      s.admitted ++
        (targets.take (submit cfg s o targets payload spawned).1.sent).map (Prod.mk o)) ∧
    ∀ σ : Trace (restrict Calm (Step cfg)), σ.state 0 = .new → σ.Fair ThreadStep →
      ∀ n, ∃ m ≥ n, (σ.state n).admitted <+: (σ.state m).handled := by
  refine ⟨fun es s hrun hidle => ?_, admitted_submit cfg, fun σ hstart hfair n => ?_⟩
  · have hexact : s.Exact := hrun.invariant (fun _ _ _ h => h.step) Exact.new
    have hopen : s.openTargets = 0 ∧ s.openBytes = 0 := by
      unfold openTargets openBytes
      cases hthread : s.thread with
      | none => exact ⟨rfl, rfl⟩
      | some th =>
        by_contra hbusy
        refine hidle ⟨th.core, th.phase, hthread, fun since hphase => hbusy ?_⟩
        simp only [elim_some, hphase]
        exact ⟨rfl, rfl⟩
    have htargets := hexact.targets
    have hbytes := hexact.bytes
    rw [hopen.1] at htargets
    rw [hopen.2] at hbytes
    exact ⟨htargets, hbytes⟩
  · obtain ⟨m, hm, hexact, hlen, hpast⟩ := handles_eventually hcfg.clump_pos hfair n <|
      σ.invariant (fun _ _ _ h => h.step) (zero_le n) (hstart ▸ Exact.new)
    refine ⟨m, hm, prefix_of_prefix_length_le hpast ?_ hlen⟩
    rw [hexact.order, append_assoc]
    exact prefix_append ..

/-- Two targets in one clump, room for no more than these. -/
def pairConfig : PacerConfig := pacerConfig 1 (some 2) (some 1)

/-- Two targets are submitted and sent; from then on the thread sleeps. -/
def pairSent (n : Nat) : Event :=
  ([⟨0, .submit 0 ["a", "b"] [] true⟩, ⟨0, .poll false⟩, ⟨0, .depart⟩, ⟨0, .send .sent⟩,
    ⟨0, .send .sent⟩, ⟨0, .clumpDone⟩, ⟨0, .jobDone⟩] : List Event).getD n ⟨0, .poll false⟩

theorem accounting_exact_pair :
    ∃ σ : Trace (restrict Calm (Step pairConfig)), σ.state 0 = .new ∧ σ.Fair ThreadStep ∧
      (σ.state 1).admitted = [(0, "a"), (0, "b")] ∧
      ∃ m ≥ 1, (σ.state 1).admitted <+: (σ.state m).handled := by
  have hfair : (Trace.follow (fun _ _ _ => restrict_of_guarded) pairSent .new :
      Trace (restrict Calm (Step pairConfig))).Fair ThreadStep := by
    refine Trace.follow_fair (k := 8) ?_ (by decide +kernel)
      (show ThreadStep ⟨0, .poll false⟩ from trivial)
    intro n hn
    exact getD_eq_default _ _ (le_of_succ_le hn)
  refine ⟨_, rfl, hfair, by decide +kernel, ?_⟩
  have haccepted : Accepted pairConfig :=
    .option (show optionConfig (some 1) (some 2) (some 1) = .ok pairConfig from rfl)
  exact (accounting_exact haccepted).2.2 _ rfl hfair 1

def pairPanicked : List Event :=
  [⟨0, .submit 0 ["a", "b"] [] true⟩, ⟨0, .poll false⟩, ⟨0, .depart⟩, ⟨0, .send .panicked⟩]

/-- What is left: no thread and no job, but two targets that still count. -/
def wedged : Pacer where
  queue := ⟨[], 2, 50, false⟩
  thread := none
  reports := ⟨[], 0, 0⟩
  clock := 0
  departures := [0]
  admitted := [(0, "a"), (0, "b")]
  handled := [(0, "a")]

/-- Whatever follows the panic, no further target is admitted, and the second of the two is
    neither sent nor reported. -/
theorem panic_wedges_admission :
    optionConfig (some 1) (some 2) (some 1) = .ok pairConfig ∧
      Run (Step pairConfig) .new pairPanicked wedged ∧ ¬ wedged.Executing ∧
      wedged.queue.pendingTargets ≠ wedged.queue.targetCount ∧
      wedged.queue.pendingBytes ≠ wedged.queue.byteCount ∧ (0, "b") ∈ wedged.admitted ∧
      ∀ es t, Run (Step pairConfig) wedged es t →
        t.admitted = wedged.admitted ∧ (0, "b") ∉ t.handled := by
  have hexec : execAll (exec pairConfig) .new pairPanicked = some wedged := by decide +kernel
  have hidle : ¬ wedged.Executing := by
    rintro ⟨core, phase, hthread, -⟩
    cases hthread
  refine ⟨rfl, Run.of_execAll (fun _ _ _ => id) hexec, hidle, by decide, by decide, by decide, ?_⟩
  intro es t hrun
  -- the counter alone keeps every submission out
  have hstay : t.thread = none ∧ t.queue = wedged.queue ∧ t.admitted = wedged.admitted ∧
      t.handled = wedged.handled := by
    refine hrun.invariant (P := fun t => t.thread = none ∧ t.queue = wedged.queue ∧
      t.admitted = wedged.admitted ∧ t.handled = wedged.handled) ?_ ⟨rfl, rfl, rfl, rfl⟩
    rintro t ⟨now, op⟩ u ⟨hthread, hqueue, hadmitted, hhandled⟩ hstep
    obtain ⟨-, hact⟩ : ¬ now < t.clock ∧ act pairConfig { t with clock := now } op = some u :=
      ite_none_left_eq_some.mp hstep
    cases op with
    | submit o targets payload spawned =>
      have hfull :
          pairConfig.maxPending ≤ ({ t with clock := now } : Pacer).queue.pendingTargets := by
        rw [show ({ t with clock := now } : Pacer).queue = wedged.queue from hqueue]
        decide
      rw [act, submit_full hfull] at hact
      cases hact
      exact ⟨hthread, hqueue, hadmitted, hhandled⟩
    | drain o max =>
      cases hact
      exact ⟨hthread, hqueue, hadmitted, hhandled⟩
    | poll | depart | send | clumpDone | jobDone =>
      simp only [hthread] at hact
      cases hact
  obtain ⟨-, -, hadmitted, hhandled⟩ := hstay
  rw [hhandled]
  exact ⟨hadmitted, by decide⟩

end WebTransportBun.Native.EgressPacer
