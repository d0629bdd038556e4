/-
  WebTransportBun.Facade.SendScheduler

  `SendScheduler` of `send-scheduler.ts`, of which `index.ts` has a copy: per-group queues
  sorted by `sendOrder`, served round robin.

  A task's `run` is called inside the drain loop and may enqueue; as the loop is then
  running, such an enqueue only changes the queues.  So every behaviour is an
  interleaving of enqueues with passes of the loop.
-/

import Mathlib.Data.List.Sort
import WebTransportBun.Library.Map
import WebTransportBun.Library.Run

namespace WebTransportBun.Facade

open Library List Option

structure SendPolicy where
  groupId : Nat
  sendOrder : Int
  deriving DecidableEq, Repr

/-- A queued task; `seq` stands for its closures. -/
structure ScheduledTask where
  groupId : Nat
  sendOrder : Int
  seq : Nat
  deriving DecidableEq, Repr

/-- The comparator `a.sendOrder - b.sendOrder || a.seq - b.seq`. -/
def ScheduledTask.compare (a b : ScheduledTask) : Int :=
  if a.sendOrder - b.sendOrder = 0 then a.seq - b.seq else a.sendOrder - b.sendOrder

structure SendScheduler where
  queues : Map Nat (List ScheduledTask)
  groupOrder : List Nat
  rrIdx : Nat
  running : Bool
  seq : Nat

namespace SendScheduler

def new : SendScheduler := ⟨∅, [], 0, false, 0⟩

section

variable (s : SendScheduler)

def waiting (groupId : Nat) : List ScheduledTask :=
  (s.queues.get? groupId).getD []

/-- `enqueue`; the call of `#drain` it ends with sets the flag, or finds it set. -/
def enqueue (policy : SendPolicy) : SendScheduler :=
  let task := ⟨policy.groupId, policy.sendOrder, s.seq⟩
  let q := (s.waiting policy.groupId ++ [task]).insertionSort fun a b => a.compare b ≤ 0
  { queues := s.queues.insert policy.groupId q
    groupOrder :=
      if policy.groupId ∈ s.groupOrder then s.groupOrder else s.groupOrder ++ [policy.groupId]
    rrIdx := s.rrIdx
    running := true
    seq := s.seq + 1 }

def nextGroup : Option Nat × SendScheduler :=
  if s.groupOrder = [] then (none, s)
  else
    let rrIdx := if s.groupOrder.length ≤ s.rrIdx then 0 else s.rrIdx
    (s.groupOrder[rrIdx]?, { s with rrIdx := (rrIdx + 1) % max 1 s.groupOrder.length })

def removeGroup (groupId : Nat) : SendScheduler :=
  let idx := s.groupOrder.idxOf groupId
  { s with
    queues := s.queues.erase groupId
    groupOrder := s.groupOrder.erase groupId
    rrIdx := if groupId ∈ s.groupOrder ∧ idx < s.rrIdx then s.rrIdx - 1 else s.rrIdx }

/-- One pass of the loop of `#drain`, with the task it starts; at the loop's end the flag is
    cleared. -/
def drainPass : SendScheduler × Option ScheduledTask :=
  match s.nextGroup with
  | (none, s) => ({ s with running := false }, none)
  | (some groupId, s) =>
    match s.waiting groupId with
    | [] => (s.removeGroup groupId, none)
    | task :: rest =>
      if rest = [] then (s.removeGroup groupId, some task)
      else ({ s with queues := s.queues.insert groupId rest }, some task)

end

end SendScheduler

/-! ## Runs -/

/-- A task that was started, and the tasks it left waiting in its group. -/
structure Start where
  task : ScheduledTask
  left : List ScheduledTask
  deriving DecidableEq, Repr

structure Sending where
  scheduler : SendScheduler
  started : List Start

def Sending.new : Sending := ⟨.new, []⟩

inductive SendOp
  | enqueue (policy : SendPolicy)
  | drainPass
  deriving DecidableEq, Repr

section

variable (s : Sending)

def Sending.exec : SendOp → Option Sending
  | .enqueue policy => some { s with scheduler := s.scheduler.enqueue policy }
  | .drainPass =>
    if s.scheduler.running then
      let (scheduler, task) := s.scheduler.drainPass
      some ⟨scheduler, s.started ++
        task.toList.map fun task => ⟨task, scheduler.waiting task.groupId⟩⟩
    else none

def Sending.Step (op : SendOp) (t : Sending) : Prop := s.exec op = some t

/-- Whenever a task is started, none with a larger `sendOrder` waits in its group. -/
def Sending.HighestFirst : Prop :=
  ∀ e ∈ s.started, ∀ t ∈ e.left, ¬ e.task.sendOrder < t.sendOrder

/-- Whenever a task is started, none with a smaller `sendOrder` waits in its group. -/
def Sending.LowestFirst : Prop :=
  ∀ e ∈ s.started, ∀ t ∈ e.left, ¬ t.sendOrder < e.task.sendOrder

end

/-- Tasks of one group and one `sendOrder` are started in the order of their enqueues: no
    earlier one is left waiting, and none is started later. -/
structure Sending.EnqueueOrder (s : Sending) : Prop where
  left : ∀ e ∈ s.started, ∀ t ∈ e.left, t.sendOrder = e.task.sendOrder → e.task.seq < t.seq
  later : s.started.Pairwise fun e e' =>
    e.task.groupId = e'.task.groupId → e.task.sendOrder = e'.task.sendOrder →
      e.task.seq < e'.task.seq

/-- A task joins a group only beside tasks of its own `sendOrder`. -/
def SameOrder (s : Sending) : SendOp → Prop
  | .enqueue policy => ∀ t ∈ s.scheduler.waiting policy.groupId, t.sendOrder = policy.sendOrder
  | .drainPass => True

/-! ## The comparator -/

/-- Where a queue has `a` in front of `b`. -/
def ScheduledTask.Before (a b : ScheduledTask) : Prop :=
  a.sendOrder < b.sendOrder ∨ a.sendOrder = b.sendOrder ∧ a.seq < b.seq

theorem ScheduledTask.compare_le_zero {a b : ScheduledTask} :
    a.compare b ≤ 0 ↔ a.sendOrder < b.sendOrder ∨ a.sendOrder = b.sendOrder ∧ a.seq ≤ b.seq := by
  rw [ScheduledTask.compare]
  split <;> omega

instance : Std.Total fun a b : ScheduledTask => a.compare b ≤ 0 where
  total a b := by
    rw [ScheduledTask.compare_le_zero, ScheduledTask.compare_le_zero]
    omega

instance : IsTrans ScheduledTask fun a b => a.compare b ≤ 0 where
  trans a b c := by
    rw [ScheduledTask.compare_le_zero, ScheduledTask.compare_le_zero,
      ScheduledTask.compare_le_zero]
    omega

/-- Sorting puts tasks in their strict order, if those of one `sendOrder` have distinct
    numbers. -/
theorem pairwise_sorted {q : List ScheduledTask}
    (hseq : q.Pairwise fun a b => a.sendOrder = b.sendOrder → a.seq ≠ b.seq) :
    (q.insertionSort fun a b => a.compare b ≤ 0).Pairwise ScheduledTask.Before := by
  have hne : (q.insertionSort fun a b => a.compare b ≤ 0).Pairwise
      fun a b => a.sendOrder = b.sendOrder → a.seq ≠ b.seq :=
    (perm_insertionSort _ q).symm.pairwise hseq fun h horder => (h horder.symm).symm
  refine (pairwise_insertionSort _ q).imp₂ ?_ hne
  intro a b hle hab
  rw [ScheduledTask.compare_le_zero] at hle
  rw [ScheduledTask.Before]
  omega

/-! ## What the steps do to the queues -/

namespace SendScheduler

theorem waiting_enqueue (s : SendScheduler) (policy : SendPolicy) (groupId : Nat) :
    (s.enqueue policy).waiting groupId =
      if groupId = policy.groupId then
        List.insertionSort (fun a b => a.compare b ≤ 0)
          (s.waiting groupId ++ [⟨policy.groupId, policy.sendOrder, s.seq⟩])
      else s.waiting groupId := by
  simp only [enqueue, waiting, Map.get?_insert]
  split
  · next h =>
    subst h
    rfl
  · rfl

theorem waiting_removeGroup {s : SendScheduler} {groupId : Nat} (g : Nat) :
    (s.removeGroup groupId).waiting g = if g = groupId then [] else s.waiting g := by
  simp only [removeGroup, waiting, Map.get?_erase]
  split <;> rfl

/-- A pass takes the first task off a queue, or none. -/
theorem drainPass_spec {s t : SendScheduler} {task : Option ScheduledTask}
    (hpass : s.drainPass = (t, task)) :
    t.seq = s.seq ∧ (∀ g, t.waiting g <+ s.waiting g) ∧
      ∀ first ∈ task, ∃ g, s.waiting g = first :: t.waiting g := by
  have hnext : s.nextGroup.2.queues = s.queues ∧ s.nextGroup.2.seq = s.seq := by
    rw [nextGroup]
    split <;> exact ⟨rfl, rfl⟩
  rcases hu : s.nextGroup with ⟨next, u⟩
  rw [hu] at hnext
  obtain ⟨hqueues, hseq⟩ := hnext
  have hwaiting : ∀ g, u.waiting g = s.waiting g := fun g => by rw [waiting, hqueues, waiting]
  simp only [drainPass, hu] at hpass
  cases next with
  | none =>
    cases hpass
    refine ⟨hseq, fun g => ?_, nofun⟩
    rw [← hwaiting]
    exact .refl _
  | some groupId =>
    dsimp only at hpass
    cases hq : u.waiting groupId with
    | nil =>
      rw [hq] at hpass
      cases hpass
      refine ⟨hseq, fun g => ?_, nofun⟩
      rw [waiting_removeGroup, ← hwaiting]
      split
      · exact nil_sublist _
      · exact .refl _
    | cons first rest =>
      -- with or without the group, its rest is what waits in it
      obtain ⟨rfl, hseq, hrest⟩ : task = some first ∧ t.seq = s.seq ∧
          ∀ g, t.waiting g = if g = groupId then rest else s.waiting g := by
        rw [hq] at hpass
        dsimp only at hpass
        split at hpass
        · next hempty =>
          cases hpass
          exact ⟨rfl, hseq, fun g => by rw [waiting_removeGroup, hempty, hwaiting]⟩
        · grind [waiting, Map.get?_insert]
      rw [hwaiting] at hq
      refine ⟨hseq, fun g => ?_, ?_⟩
      · grind
      · rintro _ ⟨⟩
        exact ⟨groupId, by rw [hq, hrest, if_pos rfl]⟩

end SendScheduler

/-! ## The invariant -/

structure Sending.Inv (s : Sending) : Prop where
  sorted : ∀ g, (s.scheduler.waiting g).Pairwise ScheduledTask.Before
  owned : ∀ g, ∀ t ∈ s.scheduler.waiting g, t.groupId = g ∧ t.seq < s.scheduler.seq
  numbered : ∀ e ∈ s.started, e.task.seq < s.scheduler.seq
  /-- What waits was enqueued behind what was started beside it. -/
  behind : ∀ e ∈ s.started, ∀ t ∈ s.scheduler.waiting e.task.groupId,
    e.task.sendOrder = t.sendOrder → e.task.seq < t.seq
  before : ∀ e ∈ s.started, ∀ t ∈ e.left, e.task.Before t
  later : s.started.Pairwise fun e e' =>
    e.task.groupId = e'.task.groupId → e.task.sendOrder = e'.task.sendOrder →
      e.task.seq < e'.task.seq

namespace Sending.Inv

theorem new : Sending.new.Inv where
  sorted _ := List.Pairwise.nil
  owned _ := nofun
  numbered := nofun
  behind := nofun
  before := nofun
  later := List.Pairwise.nil

variable {s : Sending}

theorem enqueue (h : s.Inv) (policy : SendPolicy) :
    Sending.Inv { s with scheduler := s.scheduler.enqueue policy } := by
  have hseq : (s.scheduler.enqueue policy).seq = s.scheduler.seq + 1 := rfl
  -- A waiting task is an old one, or the new one, which has the largest number.
  have hmem : ∀ g, ∀ t ∈ (s.scheduler.enqueue policy).waiting g,
      t ∈ s.scheduler.waiting g ∨ t.groupId = g ∧ t.seq = s.scheduler.seq := by
    intro g t ht
    rw [SendScheduler.waiting_enqueue] at ht
    split at ht
    · next hg => grind [mem_insertionSort]
    · exact .inl ht
  refine ⟨?_, ?_, ?_, ?_, h.before, h.later⟩
  · intro g
    rw [SendScheduler.waiting_enqueue]
    split
    · refine pairwise_sorted (pairwise_append.mpr ⟨?_, pairwise_singleton _ _, ?_⟩)
      · refine (h.sorted g).imp ?_
        rintro a b (hless | ⟨-, hseq⟩) horder
        · omega
        · exact ne_of_lt hseq
      · intro a ha b hb _
        rw [mem_singleton] at hb
        subst hb
        exact ne_of_lt (h.owned g a ha).2
    · exact h.sorted g
  · intro g t ht
    rw [hseq]
    rcases hmem g t ht with hold | ⟨hg, hnew⟩
    · have hold := h.owned g t hold
      exact ⟨hold.1, by omega⟩
    · exact ⟨hg, by omega⟩
  · intro e he
    have hold := h.numbered e he
    rw [hseq]
    omega
  · intro e he t ht horder
    rcases hmem _ t ht with hold | ⟨-, hnew⟩
    · exact h.behind e he t hold horder
    · rw [hnew]
      exact h.numbered e he

section

variable (h : s.Inv) {t : SendScheduler} {task : Option ScheduledTask}
  (hpass : s.scheduler.drainPass = (t, task))

include h hpass

theorem front {e : Start} (he : e ∈ task.toList.map fun task => ⟨task, t.waiting task.groupId⟩) :
    s.scheduler.waiting e.task.groupId = e.task :: e.left ∧
      t.waiting e.task.groupId = e.left := by
  obtain ⟨first, hfirst, rfl⟩ := mem_map.mp he
  obtain ⟨g, hq⟩ := (SendScheduler.drainPass_spec hpass).2.2 first (mem_toList.mp hfirst)
  obtain rfl := (h.owned g first (by rw [hq]; exact mem_cons_self)).1
  exact ⟨hq, rfl⟩

theorem drainPass : Sending.Inv ⟨t, s.started ++
    task.toList.map fun task => ⟨task, t.waiting task.groupId⟩⟩ := by
  obtain ⟨hseq, hsub, -⟩ := SendScheduler.drainPass_spec hpass
  have hwaited : ∀ e : Start, (e ∈ task.toList.map fun task => ⟨task, t.waiting task.groupId⟩) →
      e.task ∈ s.scheduler.waiting e.task.groupId := by
    intro e he
    rw [(h.front hpass he).1]
    exact mem_cons_self
  have hbefore : ∀ e : Start, (e ∈ task.toList.map fun task => ⟨task, t.waiting task.groupId⟩) →
      ∀ x ∈ e.left, e.task.Before x := by
    intro e he
    have hsorted := h.sorted e.task.groupId
    rw [(h.front hpass he).1] at hsorted
    exact (pairwise_cons.mp hsorted).1
  refine ⟨fun g => (h.sorted g).sublist (hsub g), ?_, ?_, ?_, ?_, ?_⟩
  · intro g x hx
    rw [hseq]
    exact h.owned g x ((hsub g).subset hx)
  · rw [hseq]
    exact forall_mem_append.mpr ⟨h.numbered, fun e he => (h.owned _ _ (hwaited e he)).2⟩
  · refine forall_mem_append.mpr
      ⟨fun e he x hx => h.behind e he x ((hsub _).subset hx), fun e he x hx horder => ?_⟩
    rw [(h.front hpass he).2] at hx
    rcases hbefore e he x hx with hless | ⟨-, hseq⟩
    · exact absurd horder (Int.ne_of_lt hless)
    · exact hseq
  · exact forall_mem_append.mpr ⟨h.before, hbefore⟩
  · refine pairwise_append.mpr ⟨h.later, ?_, fun e he e' he' hsame => ?_⟩
    · grind
    · refine h.behind e he e'.task ?_
      rw [hsame]
      exact hwaited e' he'

end

theorem step {op : SendOp} {t : Sending} (h : s.Inv) (hstep : Sending.Step s op t) : t.Inv := by
  cases op with
  | enqueue policy =>
    cases hstep
    exact h.enqueue policy
  | drainPass =>
    simp only [Sending.Step, Sending.exec, ite_none_right_eq_some,
      Option.some.injEq] at hstep
    obtain ⟨-, rfl⟩ := hstep
    exact h.drainPass rfl

end Sending.Inv

structure Sending.Uniform (s : Sending) : Prop where
  waiting : ∀ g, ∀ a ∈ s.scheduler.waiting g, ∀ b ∈ s.scheduler.waiting g,
    a.sendOrder = b.sendOrder
  left : ∀ e ∈ s.started, ∀ t ∈ e.left, t.sendOrder = e.task.sendOrder

theorem Sending.Uniform.step {s t : Sending} {op : SendOp} (h : s.Uniform) (hinv : s.Inv)
    (hstep : restrict SameOrder Sending.Step s op t) : t.Uniform := by
  obtain ⟨hsame, hstep⟩ := hstep
  cases op with
  | enqueue policy =>
    cases hstep
    refine ⟨fun g a ha b hb => ?_, h.left⟩
    rw [SendScheduler.waiting_enqueue] at ha hb
    split at ha
    · next hg =>
      subst hg
      have horder : ∀ x ∈ s.scheduler.waiting policy.groupId ++
          [⟨policy.groupId, policy.sendOrder, s.scheduler.seq⟩],
          x.sendOrder = policy.sendOrder :=
        forall_mem_append.mpr ⟨hsame, forall_mem_singleton.mpr rfl⟩
      rw [if_pos rfl] at hb
      rw [mem_insertionSort] at ha hb
      rw [horder a ha, horder b hb]
    · next hg =>
      rw [if_neg hg] at hb
      exact h.waiting g a ha b hb
  | drainPass =>
    simp only [Sending.Step, Sending.exec, ite_none_right_eq_some,
      Option.some.injEq] at hstep
    obtain ⟨-, rfl⟩ := hstep
    have hsub := (SendScheduler.drainPass_spec (s := s.scheduler) rfl).2.1
    refine ⟨fun g a ha b hb => h.waiting g a ((hsub g).subset ha) b ((hsub g).subset hb),
      forall_mem_append.mpr ⟨h.left, fun e he x hx => ?_⟩⟩
    have hq := (hinv.front rfl he).1
    refine h.waiting e.task.groupId x ?_ e.task ?_ <;> rw [hq]
    · exact mem_cons_of_mem _ hx
    · exact mem_cons_self

/-! ## What a run starts -/

variable {s : Sending}

theorem Sending.Inv.lowestFirst (h : s.Inv) : s.LowestFirst := by
  intro e he t ht hless
  rcases h.before e he t ht with horder | ⟨horder, -⟩ <;> omega

theorem Sending.Inv.enqueueOrder (h : s.Inv) : s.EnqueueOrder := by
  refine ⟨fun e he t ht horder => ?_, h.later⟩
  rcases h.before e he t ht with hless | ⟨-, hseq⟩
  · omega
  · exact hseq

theorem inv_of_run {ops : List SendOp} (hrun : Run Sending.Step .new ops s) : s.Inv :=
  hrun.invariant (fun _ _ _ h hstep => h.step hstep) .new

/-- The scheduler serves the lowest `sendOrder` of a group first. -/
theorem sends_lowest_first {ops : List SendOp}
    (hrun : Run Sending.Step .new ops s) : s.LowestFirst :=
  (inv_of_run hrun).lowestFirst

theorem sends_lowest_first_two :
    ∃ s, Run Sending.Step .new [.enqueue ⟨0, 10⟩, .enqueue ⟨0, 1⟩, .drainPass] s ∧
      s.started ≠ [] ∧ s.LowestFirst :=
  Run.exists_of_execAll (·.started ≠ []) (fun _ _ _ h => h) (by decide)
    fun _ hrun hstarted => ⟨hstarted, sends_lowest_first hrun⟩

/-- In every run, tasks of one `sendOrder` in a group start in enqueue order.  No task with
    a larger `sendOrder` is ever left waiting exactly when no start leaves a different
    `sendOrder` waiting; so it is in every run that enqueues a task only beside tasks of
    its own `sendOrder`. -/
theorem send_order {ops : List SendOp} {s : Sending} (hrun : Run Sending.Step .new ops s) :
    s.EnqueueOrder ∧
      (s.HighestFirst ↔ ∀ e ∈ s.started, ∀ t ∈ e.left, t.sendOrder = e.task.sendOrder) ∧
      (Run (restrict SameOrder Sending.Step) .new ops s → s.HighestFirst) := by
  have hinv := inv_of_run hrun
  have hexact : s.HighestFirst ↔
      ∀ e ∈ s.started, ∀ t ∈ e.left, t.sendOrder = e.task.sendOrder := by
    constructor
    · intro hhigh e he t ht
      exact Int.le_antisymm (Int.not_lt.mp (hhigh e he t ht))
        (Int.not_lt.mp (hinv.lowestFirst e he t ht))
    · intro hsame e he t ht
      rw [hsame e he t ht]
      exact Int.lt_irrefl _
  refine ⟨hinv.enqueueOrder, hexact, fun hsame => hexact.mpr ?_⟩
  have huniform : s.Inv ∧ s.Uniform := by
    refine hsame.invariant (P := fun s => s.Inv ∧ s.Uniform)
      (fun _ _ _ h hstep => ⟨h.1.step hstep.2, h.2.step h.1 hstep⟩) ⟨.new, ?_⟩
    exact ⟨fun _ => nofun, nofun⟩
  exact huniform.2.left

instance (s : Sending) (op : SendOp) : Decidable (SameOrder s op) := by
  cases op <;> unfold SameOrder <;> infer_instance

/-- Two tasks of one `sendOrder` in a group, and a third in another. -/
theorem send_order_two_groups :
    ∃ s, Run (restrict SameOrder Sending.Step) .new
        [.enqueue ⟨0, 7⟩, .enqueue ⟨0, 7⟩, .enqueue ⟨1, 9⟩, .drainPass, .drainPass, .drainPass] s ∧
      s.started.map (fun e => e.task.seq) = [0, 2, 1] ∧ s.EnqueueOrder ∧ s.HighestFirst := by
  refine Run.exists_of_execAll (fun s => s.started.map (fun e => e.task.seq) = [0, 2, 1])
    (fun _ _ _ => restrict_of_guarded) (by decide) fun s hrun hstarted => ?_
  obtain ⟨horder, -, hhigh⟩ := send_order hrun.of_restrict
  exact ⟨hstarted, horder, hhigh hrun⟩

/-- The lower `sendOrder` is started while the higher one, enqueued before it, waits. -/
theorem higher_order_waits :
    ∃ s, Run Sending.Step .new [.enqueue ⟨0, 10⟩, .enqueue ⟨0, 1⟩, .drainPass] s ∧
      s.started = [⟨⟨0, 1, 1⟩, [⟨0, 10, 0⟩]⟩] ∧ ¬ s.HighestFirst := by
  refine Run.exists_of_execAll (·.started = [⟨⟨0, 1, 1⟩, [⟨0, 10, 0⟩]⟩]) (fun _ _ _ h => h)
    (by decide) fun s _ hstarted => ⟨hstarted, fun hhigh => ?_⟩
  refine hhigh ⟨⟨0, 1, 1⟩, [⟨0, 10, 0⟩]⟩ ?_ ⟨0, 10, 0⟩ ?_ ?_
  · rw [hstarted]
    exact mem_singleton_self _
  · exact mem_singleton_self _
  · decide

end WebTransportBun.Facade
