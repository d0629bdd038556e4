/-
  WebTransportBun.Native.WriteBridge

  The send half of a native stream (`client_stream.rs`): concurrent `write_bytes` calls, a
  `finish()` call and the write-bridge task, which share a flag and a bounded command
  channel.

  A step is one access to the shared state: the flag check at the start of a write, its
  budget reservation, its second flag check, the enqueue; the store of the flag and the
  enqueue of Finish; one command carried out by the bridge.  A parked `send` is an enqueue
  that is not possible yet; waiters get their permits in turn, but each puts its command
  in the channel only when its task runs, so they enqueue in any order here.  The transport
  takes every write and nothing resets the stream: the error slot stays empty, and the
  Reset command is left out.
-/

import WebTransportBun.Library.Map
import WebTransportBun.Library.Run

namespace WebTransportBun.Native

open Library List

abbrev Bytes := List UInt8

def streamChannelCapacity : Nat := 256

/-- `StreamCmd`; the data of a command names the write it belongs to. -/
inductive StreamCmd
  | data (call : Nat) (bytes : Bytes)
  | finish
  deriving DecidableEq, Repr

inductive WritePhase
  /-- The flag was clear; it waits for the byte budget. -/
  | reserving
  /-- The budget is reserved. -/
  | reserved
  /-- The flag was still clear; it waits for a slot in the channel. -/
  | sending
  | ok
  | failed
  deriving DecidableEq, Repr

structure WriteCall where
  bytes : Bytes
  phase : WritePhase
  deriving DecidableEq, Repr

inductive FinishPhase
  | idle
  /-- The flag is stored. -/
  | stored
  /-- The channel was full; a spawned task sends the command. -/
  | spawned
  | done
  deriving DecidableEq, Repr

structure SendHalf where
  finished : Bool
  calls : Map Nat WriteCall
  finishing : FinishPhase
  channel : List StreamCmd
  /-- The bridge has ended and dropped the receiver. -/
  closed : Bool
  /-- What the bridge has passed to the transport. -/
  passed : List StreamCmd
  /-- Every command that ever entered the channel. -/
  enqueued : List StreamCmd

def SendHalf.new : SendHalf := ⟨false, ∅, .idle, [], false, [], []⟩

namespace SendHalf

def setPhase (s : SendHalf) (call : Nat) (phase : WritePhase) : SendHalf :=
  { s with calls := s.calls.modify call fun c => { c with phase } }

def HasRoom (s : SendHalf) : Prop := s.channel.length < streamChannelCapacity

instance (s : SendHalf) : Decidable s.HasRoom := inferInstanceAs (Decidable (_ < _))

def push (s : SendHalf) (cmd : StreamCmd) : SendHalf :=
  { s with channel := s.channel ++ [cmd], enqueued := s.enqueued ++ [cmd] }

inductive Op
  | write (call : Nat) (bytes : Bytes)
  | reserve (call : Nat) (granted : Bool)
  | recheck (call : Nat)
  | enqueue (call : Nat)
  | finishStore
  | finishEnqueue
  | finishSpawned
  | bridge
  deriving DecidableEq, Repr

section

variable (s : SendHalf)

def exec : Op → Option SendHalf
  | .write call bytes =>
    if s.calls.contains call then none
    else
      let phase : WritePhase :=
        if s.finished then .failed else if bytes = [] then .ok else .reserving
      some { s with calls := s.calls.insert call ⟨bytes, phase⟩ }
  | .reserve call granted =>
    match s.calls.get? call with
    | some ⟨_, .reserving⟩ => some (s.setPhase call (if granted then .reserved else .failed))
    | _ => none
  | .recheck call =>
    match s.calls.get? call with
    | some ⟨_, .reserved⟩ => some (s.setPhase call (if s.finished then .failed else .sending))
    | _ => none
  | .enqueue call =>
    match s.calls.get? call with
    | some ⟨bytes, .sending⟩ =>
      if s.closed then some (s.setPhase call .failed)
      else if s.HasRoom then some ((s.push (.data call bytes)).setPhase call .ok)
      else none
    | _ => none
  | .finishStore =>
    if s.finishing = .idle then some { s with finished := true, finishing := .stored } else none
  | .finishEnqueue =>
    -- `send_ctrl_lossless`
    if s.finishing = .stored then
      if s.closed then some { s with finishing := .done }
      else if s.HasRoom then some { s.push .finish with finishing := .done }
      else some { s with finishing := .spawned }
    else none
  | .finishSpawned =>
    if s.finishing = .spawned then
      if s.closed then some { s with finishing := .done }
      else if s.HasRoom then some { s.push .finish with finishing := .done }
      else none
    else none
  | .bridge =>
    match s.closed, s.channel with
    | false, .data call bytes :: rest =>
      some { s with channel := rest, passed := s.passed ++ [.data call bytes] }
    | false, .finish :: _ =>
      some { s with channel := [], closed := true, passed := s.passed ++ [.finish] }
    | _, _ => none

def Step (op : Op) (t : SendHalf) : Prop := s.exec op = some t

/-- A write that resolved successfully with these bytes. -/
def Succeeded (call : Nat) (bytes : Bytes) : Prop :=
  s.calls.get? call = some ⟨bytes, .ok⟩ ∧ bytes ≠ []

/-- Finish enters the channel while no write is between its second look at the flag and the
    channel. -/
def Settled : Op → Prop
  | .finishEnqueue | .finishSpawned => s.HasRoom → ∀ c ∈ s.calls.values, c.phase ≠ .sending
  | _ => True

end

instance (s : SendHalf) (op : Op) : Decidable (s.Settled op) := by
  cases op <;> unfold Settled <;> infer_instance

structure WritesFirst (s : SendHalf) : Prop where
  /-- The transport gets the commands in channel order. -/
  order : s.passed <+: s.enqueued
  /-- Behind the FIN comes nothing, and every successful write came before it. -/
  fin : ∀ before after, s.passed = before ++ .finish :: after →
    after = [] ∧ ∀ call bytes, s.Succeeded call bytes → .data call bytes ∈ before
  /-- A successful write that has not been passed on yet is in the channel of a running
      bridge, in front of any Finish. -/
  pending : ∀ call bytes, s.Succeeded call bytes → .data call bytes ∈ s.passed ∨
    s.closed = false ∧ ∃ before after, s.channel = before ++ .data call bytes :: after ∧
      .finish ∉ before

/-! ## What a step does -/

/-- What a step does to the calls, to the flag and to the two ends of the channel. -/
inductive Effect (s : SendHalf) (op : Op) : SendHalf → Prop
  /-- A call moves without touching the channel. -/
  | calls (m : Map Nat WriteCall)
      (hok : ∀ call bytes, m.get? call = some ⟨bytes, .ok⟩ →
        bytes = [] ∨ s.calls.get? call = some ⟨bytes, .ok⟩)
      (hsending : ∀ call bytes, m.get? call = some ⟨bytes, .sending⟩ →
        s.finished = false ∨ s.calls.get? call = some ⟨bytes, .sending⟩) :
      Effect s op { s with calls := m }
  /-- A write enters the channel. -/
  | sent (call : Nat) (bytes : Bytes) (hcall : s.calls.get? call = some ⟨bytes, .sending⟩)
      (hopen : s.closed = false) :
      Effect s op ((s.push (.data call bytes)).setPhase call .ok)
  | stored (hidle : s.finishing = .idle) :
      Effect s op { s with finished := true, finishing := .stored }
  /-- The FIN call moves on and leaves the channel as it is. -/
  | deferred (phase : FinishPhase) (hstored : s.finishing ≠ .idle)
    (hpending : s.finishing ≠ .done) :
      Effect s op { s with finishing := phase }
  | finish (hstored : s.finishing ≠ .idle) (hpending : s.finishing ≠ .done)
      (hopen : s.closed = false)
      (hsettled : s.Settled op → ∀ c ∈ s.calls.values, c.phase ≠ .sending) :
      Effect s op { s.push .finish with finishing := .done }
  | passed (call : Nat) (bytes : Bytes) (rest : List StreamCmd)
      (hchannel : s.channel = .data call bytes :: rest) (hopen : s.closed = false) :
      Effect s op { s with channel := rest, passed := s.passed ++ [.data call bytes] }
  | ended (rest : List StreamCmd) (hchannel : s.channel = .finish :: rest)
      (hopen : s.closed = false) :
      Effect s op { s with channel := [], closed := true, passed := s.passed ++ [.finish] }

variable {s t : SendHalf} {op : Op}

@[simp] theorem get?_setPhase (s : SendHalf) (call call' : Nat) (phase : WritePhase) :
    (s.setPhase call phase).calls.get? call' =
      if call' = call then (s.calls.get? call').map fun c => { c with phase }
      else s.calls.get? call' := by
  simp [setPhase]

theorem Effect.setPhase (call : Nat) {phase : WritePhase} (hok : phase ≠ .ok)
    (hsending : phase = .sending → s.finished = false) : Effect s op (s.setPhase call phase) := by
  refine .calls _ ?_ ?_
  · intro call' bytes hget
    have hget : (s.setPhase call phase).calls.get? call' = some ⟨bytes, .ok⟩ := hget
    rw [get?_setPhase] at hget
    split at hget
    · simp_all
    · exact .inr hget
  · intro call' bytes hget
    have hget : (s.setPhase call phase).calls.get? call' = some ⟨bytes, .sending⟩ := hget
    rw [get?_setPhase] at hget
    split at hget
    · obtain ⟨c, -, hc⟩ := Option.map_eq_some_iff.mp hget
      cases hc
      exact .inl (hsending rfl)
    · exact .inr hget

theorem Effect.write (call : Nat) (bytes : Bytes) :
    Effect s op
      { s with calls := s.calls.insert call (⟨bytes,
          if s.finished then .failed else if bytes = [] then .ok else .reserving⟩ :
            WriteCall) } := by
  refine .calls _ ?_ ?_
  · grind [Map.get?_insert]
  · grind [Map.get?_insert]

theorem Effect.ctrl (hstored : s.finishing ≠ .idle) (hpending : s.finishing ≠ .done)
    (hop : op = .finishEnqueue ∨ op = .finishSpawned) (hopen : s.closed = false)
    (hroom : s.HasRoom) : Effect s op { s.push .finish with finishing := .done } := by
  refine .finish hstored hpending hopen fun hsettled => ?_
  rcases hop with rfl | rfl
  · exact hsettled hroom
  · exact hsettled hroom

attribute [local grind] Effect
attribute [local grind ←] Effect.setPhase Effect.write Effect.ctrl

theorem exec_cases (h : s.exec op = some t) : Effect s op t := by
  cases op <;> grind [exec]

/-! ## What every run keeps -/

structure Inv (s : SendHalf) : Prop where
  log : s.closed = false → s.enqueued = s.passed ++ s.channel
  running : s.closed = false → .finish ∉ s.passed
  ended : s.closed = true → (∃ before, s.passed = before ++ [.finish] ∧ .finish ∉ before) ∧
    s.passed <+: s.enqueued
  sent : ∀ call bytes, s.Succeeded call bytes → .data call bytes ∈ s.enqueued

theorem Inv.new : SendHalf.new.Inv where
  log _ := rfl
  running _ := by simp [SendHalf.new]
  ended h := by cases h
  sent := by
    rintro call bytes ⟨hget, -⟩
    cases hget

theorem Inv.order (h : s.Inv) : s.passed <+: s.enqueued := by
  cases hclosed : s.closed with
  | false =>
    rw [h.log hclosed]
    exact prefix_append _ _
  | true => exact (h.ended hclosed).2

theorem Inv.push (h : s.Inv) (hopen : s.closed = false) (cmd : StreamCmd) : (s.push cmd).Inv where
  log _ := by
    have hlog := h.log hopen
    simp [SendHalf.push, hlog]
  running := h.running
  ended hclosed := by
    have hclosed : s.closed = true := hclosed
    rw [hopen] at hclosed
    cases hclosed
  sent call bytes hsucceeded := mem_append_left _ (h.sent call bytes hsucceeded)

theorem Inv.step (h : s.Inv) (hstep : s.exec op = some t) : t.Inv := by
  cases exec_cases hstep with
  | calls m hok hsending =>
    refine ⟨h.log, h.running, h.ended, ?_⟩
    rintro call bytes ⟨hget, hne⟩
    rcases hok call bytes hget with hnil | hget
    · exact absurd hnil hne
    · exact h.sent call bytes ⟨hget, hne⟩
  | sent call bytes hcall hopen =>
    have hpush := h.push hopen (.data call bytes)
    refine ⟨hpush.log, hpush.running, hpush.ended, ?_⟩
    rintro call' bytes' ⟨hget, hne⟩
    rw [get?_setPhase] at hget
    split at hget
    · -- the write that has just been enqueued
      rename_i heq
      subst heq
      have hget : (s.calls.get? call').map _ = _ := hget
      rw [hcall] at hget
      cases hget
      exact mem_append_right _ (mem_singleton_self _)
    · exact hpush.sent call' bytes' ⟨hget, hne⟩
  | stored hidle => exact { h with }
  | deferred phase hstored hpending => exact { h with }
  | finish hstored hpending hopen hsettled =>
    have hpush := h.push hopen .finish
    exact { hpush with }
  | passed call bytes rest hchannel hopen =>
    refine ⟨?_, ?_, ?_, h.sent⟩
    · intro _
      simp [h.log hopen, hchannel]
    · intro _
      simpa using h.running hopen
    · grind
  | ended rest hchannel hopen =>
    refine ⟨fun hopen' => ?_, fun hopen' => ?_, ?_, h.sent⟩
    · cases hopen'
    · cases hopen'
    · intro _
      refine ⟨⟨s.passed, rfl, h.running hopen⟩, ?_⟩
      have hlog : s.enqueued = (s.passed ++ [.finish]) ++ rest := by
        simp [h.log hopen, hchannel]
      rw [hlog]
      exact prefix_append _ _

theorem step_of_closed (hclosed : s.closed = true) (hstep : s.exec op = some t) :
    t.closed = true ∧ t.passed = s.passed := by
  cases exec_cases hstep with
  | calls | stored | deferred => exact ⟨hclosed, rfl⟩
  | sent _ _ _ hopen | finish _ _ hopen | passed _ _ _ _ hopen | ended _ _ hopen =>
    rw [hopen] at hclosed
    cases hclosed

/-! ## What a settled Finish keeps -/

/-- Once Finish is in the channel it stays the last command. -/
structure FinishLast (s : SendHalf) : Prop where
  flagged : s.finishing ≠ .idle → s.finished = true
  once : .finish ∈ s.enqueued → s.finishing = .done
  last : .finish ∈ s.enqueued → ∃ before, s.enqueued = before ++ [.finish] ∧ .finish ∉ before
  settled : .finish ∈ s.enqueued → ∀ call bytes, s.calls.get? call ≠ some ⟨bytes, .sending⟩

theorem FinishLast.new : SendHalf.new.FinishLast where
  flagged h := absurd rfl h
  once h := by cases h
  last h := by cases h
  settled h := by cases h

theorem FinishLast.flagged_of_mem (h : s.FinishLast) (hmem : .finish ∈ s.enqueued) :
    s.finished = true := by
  apply h.flagged
  rw [h.once hmem]
  decide

theorem FinishLast.step (h : s.FinishLast) (hok : s.Settled op) (hstep : s.exec op = some t) :
    t.FinishLast := by
  cases exec_cases hstep with
  | calls m _ hsending =>
    refine ⟨h.flagged, h.once, h.last, ?_⟩
    intro hmem call bytes hget
    rcases hsending call bytes hget with hclear | hget
    · rw [h.flagged_of_mem hmem] at hclear
      cases hclear
    · exact h.settled hmem call bytes hget
  | sent call bytes hcall hopen =>
    -- a call was still sending, so Finish is not in the channel yet
    have hnone : .finish ∉ s.enqueued := fun hmem => h.settled hmem call bytes hcall
    have hnone : .finish ∉ ((s.push (.data call bytes)).setPhase call .ok).enqueued := by
      simpa [setPhase, push] using hnone
    exact ⟨h.flagged, fun hmem => absurd hmem hnone, fun hmem => absurd hmem hnone,
      fun hmem => absurd hmem hnone⟩
  | stored hidle =>
    have hnone : .finish ∉ s.enqueued := fun hmem => by
      have hdone := h.once hmem
      rw [hidle] at hdone
      cases hdone
    exact ⟨fun _ => rfl, fun hmem => absurd hmem hnone, h.last, h.settled⟩
  | deferred phase hstored hpending =>
    have hnone : .finish ∉ s.enqueued := fun hmem => hpending (h.once hmem)
    exact ⟨fun _ => h.flagged hstored, fun hmem => absurd hmem hnone, h.last, h.settled⟩
  | finish hstored hpending hopen hsettled =>
    have hnone : .finish ∉ s.enqueued := fun hmem => hpending (h.once hmem)
    refine ⟨fun _ => h.flagged hstored, fun _ => rfl, fun _ => ⟨s.enqueued, rfl, hnone⟩, ?_⟩
    intro _ call bytes hget
    exact hsettled hok _ (Map.mem_values_of_get? hget) rfl
  | passed call bytes rest hchannel hopen => exact { h with }
  | ended rest hchannel hopen => exact { h with }

theorem eq_of_append_singleton {α : Type*} {a : α} {xs ys zs : List α}
    (h : xs ++ [a] ++ zs = ys ++ [a]) (hys : a ∉ ys) : xs = ys ∧ zs = [] := by
  rcases eq_nil_or_concat zs with rfl | ⟨zs, b, rfl⟩
  · simpa using h
  · rw [concat_eq_append, ← append_assoc] at h
    obtain ⟨hys', -⟩ := append_inj' h rfl
    exact absurd (by simp [← hys']) hys

section

variable (hlast : s.FinishLast)

include hlast

theorem FinishLast.passed_eq (h : s.Inv) (hclosed : s.closed = true) :
    s.passed = s.enqueued := by
  obtain ⟨⟨before, hpassed, -⟩, rest, hlog⟩ := h.ended hclosed
  have hmem : .finish ∈ s.enqueued := by
    rw [← hlog, hpassed]
    simp
  obtain ⟨before', henqueued, hnone⟩ := hlast.last hmem
  rw [hpassed, henqueued] at hlog
  obtain ⟨-, rfl⟩ := eq_of_append_singleton hlog hnone
  rw [hpassed, henqueued, ← hlog, append_nil]

/-- The data at the front of an open channel, up to any Finish, is the whole of the data. -/
theorem FinishLast.channel_data (h : s.Inv) (hopen : s.closed = false) :
    ∃ front back, s.channel = front ++ back ∧ .finish ∉ front ∧
      ∀ call bytes, .data call bytes ∈ s.enqueued → .data call bytes ∈ s.passed ++ front := by
  have hlog := h.log hopen
  by_cases hmem : .finish ∈ s.enqueued
  · obtain ⟨before, henqueued, hnone⟩ := hlast.last hmem
    have hchannel : s.channel ≠ [] := by
      intro hnil
      rw [hnil, append_nil] at hlog
      exact h.running hopen (hlog ▸ hmem)
    -- the channel ends in that Finish
    obtain ⟨front, last, hfront⟩ := (eq_nil_or_concat s.channel).resolve_left hchannel
    rw [concat_eq_append] at hfront
    rw [hfront, ← append_assoc, henqueued] at hlog
    obtain ⟨hbefore, -⟩ := append_inj' hlog rfl
    refine ⟨front, [last], hfront, ?_, ?_⟩
    · intro hmem'
      exact hnone (hbefore ▸ mem_append_right _ hmem')
    · grind
  · refine ⟨s.channel, [], by simp, ?_, ?_⟩
    · intro hmem'
      exact hmem (hlog ▸ mem_append_right _ hmem')
    · intro call bytes hdata
      rwa [← hlog]

theorem FinishLast.writesFirst (h : s.Inv) : s.WritesFirst where
  order := h.order
  fin := by
    intro before after hpassed
    have hfin : .finish ∈ s.passed := by
      rw [hpassed]
      simp
    have hclosed : s.closed = true := by
      cases hclosed : s.closed with
      | false => exact absurd hfin (h.running hclosed)
      | true => rfl
    obtain ⟨⟨before', hpassed', hnone⟩, -⟩ := h.ended hclosed
    have hsplit : before ++ [.finish] ++ after = before' ++ [.finish] := by
      rw [← hpassed', hpassed, append_assoc, singleton_append]
    obtain ⟨rfl, rfl⟩ := eq_of_append_singleton hsplit hnone
    refine ⟨rfl, fun call bytes hsucceeded => ?_⟩
    have hmem := h.sent call bytes hsucceeded
    rw [← hlast.passed_eq h hclosed, hpassed'] at hmem
    simpa using hmem
  pending := by
    intro call bytes hsucceeded
    have hmem := h.sent call bytes hsucceeded
    cases hclosed : s.closed with
    | true =>
      left
      rwa [hlast.passed_eq h hclosed]
    | false =>
      obtain ⟨front, back, hchannel, hnone, hdata⟩ := hlast.channel_data h hclosed
      rcases mem_append.mp (hdata call bytes hmem) with hpassed | hfront
      · exact .inl hpassed
      · obtain ⟨before, after, hfront⟩ := append_of_mem hfront
        refine .inr ⟨rfl, before, after ++ back, by simp [hchannel, hfront], ?_⟩
        intro hbefore
        exact hnone (hfront ▸ mem_append_left _ hbefore)

end

/-! ## Runs -/

/-- Left to itself, the bridge passes on the data in front of any Finish. -/
theorem bridge_front (front back : List StreamCmd) (hnone : .finish ∉ front)
    (hopen : s.closed = false) (hchannel : s.channel = front ++ back) :
    Run Step s (List.replicate front.length .bridge)
      { s with channel := back, passed := s.passed ++ front } := by
  induction front generalizing s with
  | nil =>
    have hs : s = { s with channel := back, passed := s.passed ++ [] } := by
      rw [append_nil, show back = s.channel from hchannel.symm]
    rw [← hs]
    exact .nil s
  | cons cmd front ih =>
    rw [mem_cons, not_or] at hnone
    obtain ⟨hcmd, hnone⟩ := hnone
    cases cmd with
    | finish => exact absurd rfl hcmd
    | data call bytes =>
      let t : SendHalf :=
        { s with channel := front ++ back, passed := s.passed ++ [.data call bytes] }
      have hfirst : Step s .bridge t := by
        simp [Step, exec, hopen, hchannel, t]
      have hrest := ih (s := t) hnone hopen rfl
      have hrun := (Run.single hfirst).append hrest
      simpa [t, replicate_succ] using hrun

/-- The bridge alone brings every successful write to the transport. -/
theorem FinishLast.drains (hlast : s.FinishLast) (h : s.Inv) :
    ∃ n t, Run Step s (List.replicate n .bridge) t ∧
      ∀ call bytes, s.Succeeded call bytes → .data call bytes ∈ t.passed := by
  cases hclosed : s.closed with
  | true =>
    refine ⟨0, s, .nil s, fun call bytes hsucceeded => ?_⟩
    rw [hlast.passed_eq h hclosed]
    exact h.sent call bytes hsucceeded
  | false =>
    obtain ⟨front, back, hchannel, hnone, hdata⟩ := hlast.channel_data h hclosed
    refine ⟨front.length, _, bridge_front front back hnone hclosed hchannel, ?_⟩
    intro call bytes hsucceeded
    exact hdata call bytes (h.sent call bytes hsucceeded)

end SendHalf

open SendHalf

/-- In every interleaving the transport gets the commands in channel order.  If Finish enters
    the channel while no write is past its second flag check, then every successful write is
    passed on before the FIN, and the bridge alone gets it there. -/
theorem writes_precede_fin (ops : List Op) (s : SendHalf) :
    (Run Step SendHalf.new ops s → s.passed <+: s.enqueued) ∧
    (Run (restrict Settled Step) SendHalf.new ops s →
      s.WritesFirst ∧
      ∃ n t, Run Step s (List.replicate n .bridge) t ∧
        ∀ call bytes, s.Succeeded call bytes → .data call bytes ∈ t.passed) := by
  have hinv : Run Step new ops s → s.Inv := fun hrun =>
    hrun.invariant (fun _ _ _ h hstep => h.step hstep) .new
  refine ⟨fun hrun => (hinv hrun).order, ?_⟩
  intro hrun
  have h : s.Inv := hinv hrun.of_restrict
  have hlast : s.FinishLast :=
    hrun.invariant (fun _ _ _ h hstep => h.step hstep.1 hstep.2) .new
  exact ⟨hlast.writesFirst h, hlast.drains h⟩

/-- Two concurrent writes: the first is in the channel when the flag is stored, the second is
    turned down by its second look at the flag. -/
theorem writes_precede_fin_two_writes :
    ∃ s, Run (restrict Settled Step) SendHalf.new
        [.write 1 [7], .write 2 [8], .reserve 1 true, .recheck 1, .reserve 2 true, .enqueue 1,
          .finishStore, .recheck 2, .finishEnqueue, .bridge, .bridge] s ∧
      s.Succeeded 1 [7] ∧ s.passed = [.data 1 [7], .finish] ∧ s.WritesFirst := by
  refine Run.exists_of_execAll
    (fun s => s.calls.get? 1 = some ⟨[7], .ok⟩ ∧ s.passed = [.data 1 [7], .finish])
    (fun _ _ _ => restrict_of_guarded) (by decide +kernel) fun s hrun ⟨hcall, hpassed⟩ => ?_
  exact ⟨⟨hcall, by decide⟩, hpassed, ((writes_precede_fin _ s).2 hrun).1⟩

/-- A write that has looked at the flag for the second time just before `finish()` stores it:
    Finish is enqueued first, the write still resolves, and its bytes never reach the
    transport. -/
theorem write_behind_finish_lost :
    ∃ s, Run Step SendHalf.new
        [.write 1 [7], .reserve 1 true, .recheck 1, .finishStore, .finishEnqueue, .enqueue 1,
          .bridge] s ∧
      s.Succeeded 1 [7] ∧ s.passed = [.finish] ∧
      ∀ ops t, Run Step s ops t → .data 1 [7] ∉ t.passed := by
  refine Run.exists_of_execAll
    (fun s => s.calls.get? 1 = some ⟨[7], .ok⟩ ∧ s.passed = [.finish] ∧ s.closed = true)
    (fun _ _ _ h => h) (by decide +kernel) fun s _ ⟨hcall, hpassed, hclosed⟩ => ?_
  refine ⟨⟨hcall, by decide⟩, hpassed, fun ops t hrun => ?_⟩
  have hend : t.closed = true ∧ t.passed = [.finish] := by
    refine hrun.invariant (P := fun t => t.closed = true ∧ t.passed = [.finish]) ?_
      ⟨hclosed, hpassed⟩
    rintro u op v ⟨hclosed, hpassed⟩ hstep
    obtain ⟨hclosed', hpassed'⟩ := step_of_closed hclosed hstep
    exact ⟨hclosed', hpassed'.trans hpassed⟩
  rw [hend.2]
  decide

end WebTransportBun.Native
